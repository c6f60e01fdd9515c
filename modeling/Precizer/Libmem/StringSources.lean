import Precizer.Libmem.StringRules

/-! # Sources of a string transfer

What is visible of a source, outside or inside the destination, is what a transfer measures of
it. A transfer that succeeds moves exactly that.
-/
namespace Precizer.Libmem
open General

/-- The visible bytes of a source. Inside the destination they end with the visible string; a
fixed range there ends at its own zero element. -/
def visibleSource (m : Memory) (mode : SourceMode) (rangeBytes : ℕ) (source : Source) : List UInt8 :=
  match source,mode with
  | .null,_ => []
  | .outside bytes,.unbounded => visibleElements m.singleElementSize (bytes.length / m.singleElementSize) bytes
  | .outside bytes,_ => visibleElements m.singleElementSize (rangeBytes / m.singleElementSize) bytes
  | .inside offset,.bounded => (m.visibleString.drop offset).take rangeBytes
  | .inside offset,.unbounded => m.visibleString.drop offset
  | .inside offset,.fixed =>
    visibleElements m.singleElementSize (rangeBytes / m.singleElementSize) (m.block.drop offset)

/-- A range that ends in its only zero element, or is empty. -/
def EndsInOnlyZero (width rangeBytes : ℕ) (bytes : List UInt8) : Prop :=
  rangeBytes = 0 ∨ firstZero width (rangeBytes / width) bytes + 1 = rangeBytes / width

/-- A source that may be read as its mode reads it. -/
def ValidSource (m : Memory) (mode : SourceMode) (rangeBytes : ℕ) (source : Source) : Prop :=
  match source,mode with
  | .null,_ => True
  | .outside bytes,.bounded => bytes.length < rangeBytes →
      firstZero m.singleElementSize (rangeBytes / m.singleElementSize) bytes < rangeBytes / m.singleElementSize
  | .outside bytes,.unbounded =>
      firstZero m.singleElementSize (bytes.length / m.singleElementSize) bytes < bytes.length / m.singleElementSize
  | .outside bytes,.fixed => rangeBytes ≤ bytes.length ∧ EndsInOnlyZero m.singleElementSize rangeBytes bytes
  | .inside offset,.fixed =>
      offset < m.actuallyAllocatedBytes ∧ EndsInOnlyZero m.singleElementSize rangeBytes (m.block.drop offset)
  | .inside offset,_ => offset < m.actuallyAllocatedBytes

theorem remainingVisibleElements_eq_some {m : Memory} {mode : SourceMode} {rangeBytes destinationBytes offset n : ℕ}
    (h : remainingVisibleElements m mode rangeBytes destinationBytes offset = some n) :
    ∃ index, offset = m.singleElementSize * index ∧ index ≤ m.stringLength ∧ n = m.stringLength - index ∧
      (mode = .fixed → offset + rangeBytes ≤ destinationBytes) := by
  rw [remainingVisibleElements.eq_def] at h
  dsimp only at h
  split_ifs at h with haligned hbounds hvisible
  refine ⟨offset / m.singleElementSize,?_,by omega,(Option.some.inj h).symm,?_⟩
  · exact (Nat.mul_div_cancel' (Nat.dvd_of_mod_eq_zero (by omega))).symm
  · rintro rfl
    simp only [decide_eq_true_eq,not_or,not_lt] at hbounds
    omega

section
variable {m : Memory} (h : Sound m) (hterminated : Terminated m) (hstring : m.isString = true)
  (hwidth : m.singleElementSize ≠ 0) {mode : SourceMode} {rangeBytes n : ℕ}
include h hwidth

theorem measured_outside {bytes : List UInt8} (hrange : mode ≠ .unbounded → rangeBytes ≠ 0)
    (hmeasure : measureSource m mode rangeBytes (.outside bytes) = some n)
    (hvalid : ValidSource m mode rangeBytes (.outside bytes)) :
    m.singleElementSize * n ≤ bytes.length ∧
      bytes.take (m.singleElementSize * n) = visibleSource m mode rangeBytes (.outside bytes) := by
  have hbytes : memGuardedByteSize m m.length = some (m.singleElementSize * m.length) :=
    h.byteSize hwidth
  rw [measureSource.eq_def,hbytes] at hmeasure
  dsimp only [Source.offsetWithin,Source.bytesFrom] at hmeasure
  cases mode with
  | bounded =>
    rw [memStringMeasureLength_limit hwidth] at hmeasure
    obtain rfl := Option.some.inj hmeasure
    refine ⟨?_,rfl⟩
    by_cases hshort : bytes.length < rangeBytes
    · have hwithin := firstZero_within hwidth (hvalid hshort)
      rw [Nat.mul_add] at hwithin
      omega
    · calc m.singleElementSize * firstZero m.singleElementSize (rangeBytes / m.singleElementSize) bytes
          ≤ m.singleElementSize * (rangeBytes / m.singleElementSize) := Nat.mul_le_mul_left _ (firstZero_le _ _ _)
        _ ≤ rangeBytes := Nat.mul_div_le _ _
        _ ≤ bytes.length := Nat.le_of_not_lt hshort
  | unbounded =>
    rw [memStringMeasureLength_unlimited hwidth] at hmeasure
    obtain rfl := Option.some.inj hmeasure
    have hwithin := firstZero_within hwidth hvalid
    rw [Nat.mul_add] at hwithin
    exact ⟨by omega,rfl⟩
  | fixed =>
    obtain rfl := Option.some.inj hmeasure
    obtain ⟨hlength,hzero⟩ := hvalid
    have hlast := hzero.resolve_left (hrange (by simp))
    have hfirst : firstZero m.singleElementSize (rangeBytes / m.singleElementSize) bytes =
        rangeBytes / m.singleElementSize - 1 := by omega
    refine ⟨?_,?_⟩
    · calc m.singleElementSize * (rangeBytes / m.singleElementSize - 1)
          ≤ m.singleElementSize * (rangeBytes / m.singleElementSize) := Nat.mul_le_mul_left _ (Nat.sub_le _ _)
        _ ≤ rangeBytes := Nat.mul_div_le _ _
        _ ≤ bytes.length := hlength
    · simp only [visibleSource,visibleElements,hfirst]

include hstring

theorem measured_inside {offset : ℕ} (hrange : mode ≠ .unbounded → rangeBytes % m.singleElementSize = 0 ∧ rangeBytes ≠ 0)
    (hinside : m.data ≠ none ∧ offset < m.actuallyAllocatedBytes)
    (hmeasure : measureSource m mode rangeBytes (.inside offset) = some n) :
    ∃ index, offset = m.singleElementSize * index ∧ index ≤ m.stringLength ∧
      (n < m.length ∨ m.length = 0 ∧ n = 0) ∧
      match mode with
      | .bounded => n = min (rangeBytes / m.singleElementSize) (m.stringLength - index)
      | .unbounded => n = m.stringLength - index
      | .fixed => n + 1 = rangeBytes / m.singleElementSize ∧ 0 < m.length := by
  have hbytes : memGuardedByteSize m m.length = some (m.singleElementSize * m.length) :=
    h.byteSize hwidth
  have hcases := h.stringMode hstring
  rw [measureSource.eq_def,hbytes] at hmeasure
  simp only [Source.offsetWithin,if_pos hinside] at hmeasure
  cases hremaining : remainingVisibleElements m mode rangeBytes (m.singleElementSize * m.length) offset with
  | none =>
    rw [hremaining] at hmeasure
    cases hmeasure
  | some remaining =>
    obtain ⟨index,hoffset,hindex,rfl,hfixed⟩ := remainingVisibleElements_eq_some hremaining
    rw [hremaining] at hmeasure
    refine ⟨index,hoffset,hindex,?_⟩
    cases mode with
    | bounded =>
      obtain rfl := Option.some.inj hmeasure
      exact ⟨by omega,rfl⟩
    | unbounded =>
      obtain rfl := Option.some.inj hmeasure
      exact ⟨by omega,rfl⟩
    | fixed =>
      obtain rfl := Option.some.inj hmeasure
      obtain ⟨haligned,hne⟩ := hrange (by simp)
      have hfit := hfixed rfl
      have hwhole : m.singleElementSize * (rangeBytes / m.singleElementSize) = rangeBytes :=
        Nat.mul_div_cancel' (Nat.dvd_of_mod_eq_zero haligned)
      have hpos : 0 < rangeBytes / m.singleElementSize := by
        apply Nat.pos_of_ne_zero
        intro hzero
        rw [hzero] at hwhole
        omega
      have hlength : rangeBytes / m.singleElementSize ≤ m.length := by
        apply Nat.le_of_mul_le_mul_left _ (Nat.pos_of_ne_zero hwidth)
        omega
      dsimp only
      omega

include hterminated

theorem visible_inside {offset : ℕ} (hrange : mode ≠ .unbounded → rangeBytes % m.singleElementSize = 0 ∧ rangeBytes ≠ 0)
    (hinside : m.data ≠ none ∧ offset < m.actuallyAllocatedBytes)
    (hmeasure : measureSource m mode rangeBytes (.inside offset) = some n)
    (hvalid : ValidSource m mode rangeBytes (.inside offset)) :
    (∃ index, offset = m.singleElementSize * index ∧ index + n ≤ m.stringLength) ∧
      (m.block.drop offset).take (m.singleElementSize * n) = visibleSource m mode rangeBytes (.inside offset) := by
  obtain ⟨index,rfl,hindex,-,hcount⟩ := measured_inside h hstring hwidth hrange hinside hmeasure
  have hdrop : m.visibleString.drop (m.singleElementSize * index) =
      (m.block.drop (m.singleElementSize * index)).take (m.singleElementSize * (m.stringLength - index)) := by
    rw [Memory.visibleString,List.drop_take,Nat.mul_sub]
  cases mode with
  | bounded =>
    dsimp only at hcount
    have hwhole : m.singleElementSize * (rangeBytes / m.singleElementSize) = rangeBytes :=
      Nat.mul_div_cancel' (Nat.dvd_of_mod_eq_zero (hrange (by simp)).1)
    refine ⟨⟨index,rfl,by omega⟩,?_⟩
    rw [visibleSource,hdrop,List.take_take,hcount,← Nat.mul_min_mul_left,hwhole]
  | unbounded =>
    dsimp only at hcount
    refine ⟨⟨index,rfl,by omega⟩,?_⟩
    rw [visibleSource,hdrop,hcount]
  | fixed =>
    dsimp only at hcount
    have hlast := hvalid.2.resolve_left (hrange (by simp)).2
    have hfirst : firstZero m.singleElementSize (rangeBytes / m.singleElementSize)
        (m.block.drop (m.singleElementSize * index)) = n := by omega
    refine ⟨⟨index,rfl,?_⟩,?_⟩
    · by_contra hbeyond
      have hbefore : m.stringLength - index < firstZero m.singleElementSize (rangeBytes / m.singleElementSize)
          (m.block.drop (m.singleElementSize * index)) := by omega
      apply element_of_lt_firstZero hbefore
      rw [element_drop,Nat.add_sub_cancel' hindex]
      exact hterminated hstring hcount.2
    · simp only [visibleSource,visibleElements,hfirst]

theorem measured_source {source : Source} (hnull : source ≠ .null)
    (hrange : mode ≠ .unbounded → rangeBytes % m.singleElementSize = 0 ∧ rangeBytes ≠ 0)
    (hmeasure : measureSource m mode rangeBytes source = some n) (hvalid : ValidSource m mode rangeBytes source) :
    Measured m source (source.offsetWithin m) n ∧
      (source.bytesFrom m).take (m.singleElementSize * n) = visibleSource m mode rangeBytes source := by
  cases source with
  | null => exact absurd rfl hnull
  | outside bytes =>
    obtain ⟨hlength,hvisible⟩ := measured_outside h hwidth (fun hmode => (hrange hmode).2) hmeasure hvalid
    exact ⟨⟨fun _ => hlength,fun offset hoffset => by cases hoffset⟩,hvisible⟩
  | inside offset =>
    have hoffset : offset < m.actuallyAllocatedBytes := by
      cases mode with
      | bounded => exact hvalid
      | unbounded => exact hvalid
      | fixed => exact hvalid.1
    have hinside : m.data ≠ none ∧ offset < m.actuallyAllocatedBytes := ⟨h.data_ne_none (by omega),hoffset⟩
    obtain ⟨hindex,hvisible⟩ := visible_inside h hterminated hstring hwidth hrange hinside hmeasure hvalid
    have hwithin : (Source.inside offset).offsetWithin m = some offset := if_pos hinside
    rw [hwithin]
    refine ⟨⟨fun hnone => by (cases hnone),?_⟩,hvisible⟩
    rintro offset' hsome
    obtain rfl := Option.some.inj hsome
    exact ⟨rfl,hinside.1,hindex⟩

omit h hwidth in
end

/-- A fixed range that may be read to its end; inside the destination it ends with the string. What
stands in it does not matter. -/
def FixedRange (m : Memory) (mode : SourceMode) (rangeBytes : ℕ) (source : Source) : Prop :=
  mode = .fixed ∧
    match source with
    | .null => True
    | .outside bytes => rangeBytes ≤ bytes.length
    | .inside offset => offset < m.actuallyAllocatedBytes ∧ offset + rangeBytes ≤ m.singleElementSize * (m.stringLength + 1)

theorem measured_fixed {m : Memory} (h : Sound m) (hstring : m.isString = true) (hwidth : m.singleElementSize ≠ 0)
    {mode : SourceMode} {rangeBytes n : ℕ} {source : Source} (hnull : source ≠ .null)
    (hrange : mode ≠ .unbounded → rangeBytes % m.singleElementSize = 0 ∧ rangeBytes ≠ 0)
    (hmeasure : measureSource m mode rangeBytes source = some n) (hfixed : FixedRange m mode rangeBytes source) :
    Measured m source (source.offsetWithin m) n := by
  obtain ⟨rfl,hread⟩ := hfixed
  have hwhole : m.singleElementSize * (rangeBytes / m.singleElementSize) = rangeBytes :=
    Nat.mul_div_cancel' (Nat.dvd_of_mod_eq_zero (hrange (by simp)).1)
  cases source with
  | null => exact absurd rfl hnull
  | outside bytes =>
    rw [measureSource.eq_def,h.byteSize hwidth] at hmeasure
    obtain rfl := Option.some.inj hmeasure
    refine ⟨fun _ => ?_,fun offset hoffset => by cases hoffset⟩
    calc m.singleElementSize * (rangeBytes / m.singleElementSize - 1)
        ≤ m.singleElementSize * (rangeBytes / m.singleElementSize) := Nat.mul_le_mul_left _ (Nat.sub_le _ _)
      _ = rangeBytes := hwhole
      _ ≤ bytes.length := hread
  | inside offset =>
    have hinside : m.data ≠ none ∧ offset < m.actuallyAllocatedBytes :=
      ⟨h.data_ne_none (Nat.ne_of_gt (Nat.zero_lt_of_lt hread.1)),hread.1⟩
    obtain ⟨index,rfl,hindex,-,hcount⟩ := measured_inside h hstring hwidth hrange hinside hmeasure
    have hwithin : (Source.inside (m.singleElementSize * index)).offsetWithin m = some (m.singleElementSize * index) :=
      if_pos hinside
    dsimp only at hcount
    have hlast : index + (n + 1) ≤ m.stringLength + 1 := by
      apply Nat.le_of_mul_le_mul_left _ (Nat.pos_of_ne_zero hwidth)
      rw [hcount.1,Nat.mul_add,hwhole]
      exact hread.2
    rw [hwithin]
    refine ⟨fun hnone => by (cases hnone),?_⟩
    rintro offset' hsome
    obtain rfl := Option.some.inj hsome
    exact ⟨rfl,hinside.1,index,rfl,by omega⟩

theorem visibleSource_empty {m : Memory} {mode : SourceMode} {rangeBytes : ℕ} {source : Source}
    (hempty : source = .null ∨ mode ≠ .unbounded ∧ rangeBytes = 0) : visibleSource m mode rangeBytes source = [] := by
  rcases hempty with rfl | ⟨hmode,rfl⟩
  · rfl
  · cases source <;> cases mode <;> simp_all [visibleSource,visibleElements,firstZero]

theorem measured_room {m : Memory} (h : Sound m) (hstring : m.isString = true) (hwidth : m.singleElementSize ≠ 0)
    {mode : SourceMode} {rangeBytes sourceLength : ℕ} {source : Source}
    (hrange : mode ≠ .unbounded → rangeBytes % m.singleElementSize = 0 ∧ rangeBytes ≠ 0)
    (hmeasure : measureSource m mode rangeBytes source = some sourceLength) (hinside : source.offsetWithin m ≠ none) :
    m.data ≠ none ∧ (sourceLength < m.length ∨ m.length = 0 ∧ sourceLength = 0) := by
  cases source with
  | null => exact absurd rfl hinside
  | outside bytes => exact absurd rfl hinside
  | inside offset =>
    have hwithin : m.data ≠ none ∧ offset < m.actuallyAllocatedBytes := by
      by_contra houtside
      exact hinside (if_neg houtside)
    obtain ⟨-,-,-,hroom,-⟩ := measured_inside h hstring hwidth hrange hwithin hmeasure
    exact ⟨hwithin.1,hroom⟩

theorem memCoreString_cases {s : State} (h : Sound s.memory) (allocator : Allocator) (mode : SourceMode)
    (transfer : TransferMode) (rangeBytes : ℕ) (source : Source) :
    memCoreString allocator mode transfer rangeBytes source s = s.fail ∨
    (memCoreString allocator mode transfer rangeBytes source s = s.succeed ∧ s.memory.isString = true ∧
      transfer = .append ∧ visibleSource s.memory mode rangeBytes source = []) ∨
    ∃ inside sourceLength, s.memory.isString = true ∧ s.memory.singleElementSize ≠ 0 ∧
      (inside ≠ none → s.memory.data ≠ none ∧
        (sourceLength < s.memory.length ∨ s.memory.length = 0 ∧ sourceLength = 0)) ∧
      (Terminated s.memory → ValidSource s.memory mode rangeBytes source →
        Measured s.memory source inside sourceLength ∧
        (source.bytesFrom s.memory).take (s.memory.singleElementSize * sourceLength) =
          visibleSource s.memory mode rangeBytes source) ∧
      (FixedRange s.memory mode rangeBytes source → Measured s.memory source inside sourceLength) ∧
      memCoreString allocator mode transfer rangeBytes source s =
        transferMeasured allocator transfer source inside sourceLength s := by
  rw [memCoreString]
  split_ifs with hdata hwidth hmode hnull haligned hnothing hempty
  · exact .inl rfl
  · exact .inl rfl
  · exact .inl rfl
  · exact .inr (.inl ⟨rfl,by simpa using hmode,hnull.2,visibleSource_empty (.inl hnull.1)⟩)
  · exact .inl rfl
  · exact .inr (.inl ⟨rfl,by simpa using hmode,hnothing.2.2,visibleSource_empty (.inr ⟨hnothing.1,hnothing.2.1⟩)⟩)
  · have hmeasured : Measured s.memory source none 0 := ⟨fun _ => by simp,fun _ hsome => by cases hsome⟩
    refine .inr (.inr ⟨none,0,by simpa using hmode,hwidth,fun hne => absurd rfl hne,fun _ _ => ⟨hmeasured,?_⟩,
      fun _ => hmeasured,rfl⟩)
    rw [visibleSource_empty hempty,Nat.mul_zero,List.take_zero]
  · have hnotNull : source ≠ .null := fun heq => hempty (.inl heq)
    have hrange : mode ≠ .unbounded → rangeBytes % s.memory.singleElementSize = 0 ∧ rangeBytes ≠ 0 := by
      intro hne
      exact ⟨by_contra fun hrest => haligned ⟨hnotNull,hne,hrest⟩,fun hzero => hempty (.inr ⟨hne,hzero⟩)⟩
    have hstring : s.memory.isString = true := by simpa using hmode
    cases hmeasure : measureSource s.memory mode rangeBytes source with
    | none => exact .inl rfl
    | some sourceLength =>
      exact .inr (.inr ⟨source.offsetWithin s.memory,sourceLength,hstring,hwidth,
        measured_room h hstring hwidth hrange hmeasure,
        fun hterminated hvalid => measured_source h hterminated hstring hwidth hnotNull hrange hmeasure hvalid,
        measured_fixed h hstring hwidth hnotNull hrange hmeasure,rfl⟩)

section
variable {s : State} (h : Sound s.memory) (hterminated : Terminated s.memory) {allocator : Allocator} {mode : SourceMode}
  {transfer : TransferMode} {rangeBytes : ℕ} {source : Source}
include h hterminated

theorem memCoreString_succeeded (hvalid : ValidSource s.memory mode rangeBytes source)
    (hsucceeded : (memCoreString allocator mode transfer rangeBytes source s).succeeded = true) :
    Transferred s.memory transfer (visibleSource s.memory mode rangeBytes source)
      (memCoreString allocator mode transfer rangeBytes source s).state.memory := by
  rcases memCoreString_cases h allocator mode transfer rangeBytes source with
    hanswer | ⟨hanswer,hstring,rfl,hnothing⟩ | ⟨inside,sourceLength,hstring,hwidth,-,hmeasured,-,hanswer⟩
  · rw [hanswer] at hsucceeded
    cases hsucceeded
  · rw [hanswer,hnothing]
    exact transferred_nothing h hterminated hstring
  · obtain ⟨hmeasured,hvisible⟩ := hmeasured hterminated hvalid
    rw [hanswer] at hsucceeded ⊢
    rw [← hvisible]
    exact transferMeasured_succeeded h hterminated hstring hwidth hmeasured hsucceeded

theorem memCoreString_failed
    (hfailed : (memCoreString allocator mode transfer rangeBytes source s).succeeded = false) :
    (memCoreString allocator mode transfer rangeBytes source s).state.memory = s.memory := by
  rcases memCoreString_cases h allocator mode transfer rangeBytes source with
    hanswer | ⟨hanswer,-⟩ | ⟨inside,sourceLength,hstring,hwidth,hroom,-,-,hanswer⟩
  · rw [hanswer]
    rfl
  · rw [hanswer]
    rfl
  · rw [hanswer] at hfailed ⊢
    exact transferMeasured_failed h hterminated hstring hwidth hroom hfailed

theorem memCoreString_keeps (hvalid : ValidSource s.memory mode rangeBytes source ∨ FixedRange s.memory mode rangeBytes source) :
    Sound (memCoreString allocator mode transfer rangeBytes source s).state.memory ∧
      Terminated (memCoreString allocator mode transfer rangeBytes source s).state.memory := by
  cases hsucceeded : (memCoreString allocator mode transfer rangeBytes source s).succeeded with
  | false =>
    rw [memCoreString_failed h hterminated hsucceeded]
    exact ⟨h,hterminated⟩
  | true =>
    rcases memCoreString_cases h allocator mode transfer rangeBytes source with
      hanswer | ⟨hanswer,-⟩ | ⟨inside,sourceLength,hstring,hwidth,-,hmeasured,hfixed,hanswer⟩
    · rw [hanswer]
      exact ⟨h,hterminated⟩
    · rw [hanswer]
      exact ⟨h,hterminated⟩
    · have hmeasured : Measured s.memory source inside sourceLength :=
        hvalid.elim (fun hvalid => (hmeasured hterminated hvalid).1) hfixed
      rw [hanswer] at hsucceeded ⊢
      have htransferred := transferMeasured_succeeded h hterminated hstring hwidth hmeasured hsucceeded
      exact ⟨htransferred.sound,htransferred.terminated⟩

end

/-- A string after its first transfer, in a block that was filled with the byte 7. -/
def writtenString (singleElementSize : ℕ) (bytes : List UInt8) : State :=
  (memCoreString (fun _ _ => some fun _ => 7) .unbounded .replace 0 (.outside bytes)
    ⟨memInit singleElementSize true,.start,.start⟩).state

theorem writtenString_keeps {singleElementSize : ℕ} {bytes : List UInt8}
    (hvalid : firstZero singleElementSize (bytes.length / singleElementSize) bytes < bytes.length / singleElementSize) :
    Sound (writtenString singleElementSize bytes).memory ∧ Terminated (writtenString singleElementSize bytes).memory :=
  memCoreString_keeps (sound_memInit singleElementSize true) (terminated_memInit singleElementSize true) (.inl hvalid)

end Precizer.Libmem
