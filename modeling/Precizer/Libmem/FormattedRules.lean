import Precizer.Libmem.Formatted
import Precizer.Libmem.Reserves

/-! # What a formatted string leaves

A narrow text replaces the string or leaves it alone. A wide text that is given up may have been
printed over the terminator of the old string: whether it was can be told from the buffers that
were granted and from what the last of them was left with.
-/
namespace Precizer.Libmem
open General

section
variable {m : Memory} (h : Sound m) {count : ℕ} {bytes : List UInt8}
include h

theorem element_printed (hbytes : bytes.length = m.singleElementSize * count)
    (hroom : bytes.length ≤ m.actuallyAllocatedBytes) (index : ℕ) :
    element m.singleElementSize (m.written 0 bytes).block index =
      if index < count then element m.singleElementSize bytes index else element m.singleElementSize m.block index := by
  by_cases hdata : m.data = none
  · have hallocated : m.actuallyAllocatedBytes = 0 := h.allocated.mp hdata
    have hnothing : bytes = [] := List.eq_nil_of_length_eq_zero (by omega)
    have hblock : m.block = [] := by simp [Memory.block,hdata]
    have hwritten : (m.written 0 bytes).block = [] := by simp [Memory.block,Memory.written,hdata]
    rw [hwritten,hblock,hnothing,ite_self]
  · rw [Memory.block_written hdata]
    exact element_overwrite_front hbytes (by rwa [h.blockLength]) index

theorem printed_whole (hstring : m.isString = true) (hbytes : bytes.length = m.singleElementSize * count)
    (hcount : count < m.length) :
    let m' : Memory := { m.written 0 (bytes ++ zeroElement UInt8 m.singleElementSize) with stringLength := count }
    Sound m' ∧ Terminated m' := by
  have hlength : (bytes ++ zeroElement UInt8 m.singleElementSize).length = m.singleElementSize * (count + 1) := by
    rw [List.length_append,length_zeroElement,hbytes]
    ring
  have hroom : (bytes ++ zeroElement UInt8 m.singleElementSize).length ≤ m.actuallyAllocatedBytes := by
    rw [hlength]
    exact h.covers hcount
  have hsound : Sound (m.written 0 (bytes ++ zeroElement UInt8 m.singleElementSize)) := h.written (by omega)
  refine ⟨hsound.withStringLength hstring hcount,fun _ _ => ?_⟩
  have hlast : element m.singleElementSize (bytes ++ zeroElement UInt8 m.singleElementSize) count =
      zeroElement UInt8 m.singleElementSize := by
    rw [element,List.drop_left' hbytes]
    exact List.take_of_length_le (by simp)
  have hzero := element_printed h hlength hroom count
  rw [if_pos (Nat.lt_succ_self count),hlast] at hzero
  exact hzero

end

section
variable {s : State} (h : Sound s.memory) (allocator : Allocator)
include h

/-- A narrow text is printed whole, or the string is left as it is. -/
theorem memFormattedStringChar_keeps (format : Option NarrowFormat) :
    Sound (memFormattedStringChar allocator format s).state.memory ∧
      (Terminated s.memory → Terminated (memFormattedStringChar allocator format s).state.memory) := by
  by_cases hmode : s.memory.isString = false
  · rw [memFormattedStringChar.eq_def,if_pos hmode]
    exact ⟨h,id⟩
  have hstring : s.memory.isString = true := by simpa using hmode
  rw [memFormattedStringChar.eq_def,if_neg hmode]
  cases format with
  | none => exact ⟨h,id⟩
  | some rendered =>
    dsimp only
    split
    · exact ⟨h,id⟩
    next hwidth =>
    cases rendered with
    | none => exact ⟨h,id⟩
    | some text =>
      dsimp only
      obtain ⟨hsound,hsame,hmode,hlength⟩ := memResize_sound h allocator (text.length + 1) .plain
      cases hresized : (memResize allocator (text.length + 1) .plain s).succeeded with
      | false =>
        rw [Answer.run_failed hresized]
        dsimp only [State.fail]
        rw [(memResize_refused h hresized).1]
        exact ⟨h,id⟩
      | true =>
        rw [Answer.run_succeeded hresized]
        have hone : (memResize allocator (text.length + 1) .plain s).state.memory.singleElementSize = 1 := by
          rw [hsame]
          simpa using hwidth
        have hroom : text.length < (memResize allocator (text.length + 1) .plain s).state.memory.length := by
          rw [hlength hresized]
          exact Nat.lt_succ_self _
        have hbytes : text.length =
            (memResize allocator (text.length + 1) .plain s).state.memory.singleElementSize * text.length := by
          rw [hone,Nat.one_mul]
        have hprinted := printed_whole hsound (hmode.trans hstring) hbytes hroom
        rw [hone] at hprinted
        exact ⟨hprinted.1,fun _ => hprinted.2⟩

end

/-- The elements of the buffer after so many doublings, without its terminator. -/
def wideGuess (doublings : ℕ) : ℕ := 128 * 2 ^ doublings

def wideBufferBytes (doublings : ℕ) : ℕ := (roundUpToBlockSize (sizeofWchar * (wideGuess doublings + 1))).getD 0

/-- The reserve once the first buffers were granted. -/
def Reserve.widened (r : Reserve) : ℕ → Reserve
  | 0 => r
  | doublings + 1 => (r.widened doublings).grown (wideBufferBytes doublings)

/-- Whether the buffer after so many doublings is granted, once all smaller ones were. -/
def Reserve.GrantsWide (allocator : Allocator) (r : Reserve) (doublings : ℕ) : Prop :=
  (r.widened doublings).Granted allocator (wideBufferBytes doublings)

/-- The text is given up with the buffer after so many doublings. -/
structure WideFormat.GivenUpAt (format : WideFormat) (allocator : Allocator) (r : Reserve) (doublings : ℕ) : Prop where
  within : doublings ≤ maxDoublings
  granted : ∀ i ≤ doublings, r.GrantsWide allocator i
  unfit : ∀ i ≤ doublings, format.fits (wideGuess i + 1) = false
  last : doublings = maxDoublings ∨ ¬r.GrantsWide allocator (doublings + 1)

/-- A buffer is left with a zero element at an index, or not written that far. -/
def LeftZero (bytes : List UInt8) (index : ℕ) : Prop :=
  index < bytes.length / sizeofWchar → element sizeofWchar bytes index = zeroElement UInt8 sizeofWchar

/-- Wherever the text is given up, the old string, of which 128 elements are kept, still ends at a zero. -/
def WideFormat.Harmless (format : WideFormat) (allocator : Allocator) (r : Reserve) (stringLength : ℕ) : Prop :=
  ∀ doublings, format.GivenUpAt allocator r doublings →
    LeftZero (format.leftover (wideGuess doublings + 1)) (min stringLength 128)

theorem wideGuess_succ (doublings : ℕ) : wideGuess (doublings + 1) = wideGuess doublings * 2 := by
  rw [wideGuess,wideGuess,Nat.pow_succ]
  ring

theorem wideGuess_le {doublings : ℕ} (h : doublings ≤ maxDoublings) : 128 ≤ wideGuess doublings ∧ wideGuess doublings ≤ 2 ^ 27 := by
  have hlow : 2 ^ 0 ≤ 2 ^ doublings := Nat.pow_le_pow_right (by decide) (Nat.zero_le _)
  have hhigh : 2 ^ doublings ≤ 2 ^ 20 := Nat.pow_le_pow_right (by decide) h
  rw [wideGuess]
  omega

theorem roundUp_wideBuffer {doublings : ℕ} (h : doublings ≤ maxDoublings) :
    roundUpToBlockSize (sizeofWchar * (wideGuess doublings + 1)) = some (wideBufferBytes doublings) := by
  obtain ⟨-,hle⟩ := wideGuess_le h
  have hsome : sizeofWchar * (wideGuess doublings + 1) ≤ memoryBlockBytes * 2 ^ 20 := by
    simp only [sizeofWchar,memoryBlockBytes]
    omega
  obtain ⟨slabBytes,-,hslab⟩ := roundUpToBlockSize_of_le (Nat.dvd_mul_right memoryBlockBytes (2 ^ 20)) hsome (by decide)
  rw [wideBufferBytes,hslab]
  rfl

/-- The state before an attempt, when all smaller buffers were granted in vain. -/
structure Widened (format : WideFormat) (allocator : Allocator) (start : State) (doublings : ℕ) (s : State) : Prop where
  sound : Sound s.memory
  string : s.memory.isString = true
  width : s.memory.singleElementSize = sizeofWchar
  reserve : s.reserve = start.reserve.widened doublings
  granted : ∀ i < doublings, start.reserve.GrantsWide allocator i
  unfit : ∀ i < doublings, format.fits (wideGuess i + 1) = false
  first : doublings = 0 → s = start
  later : ∀ before, doublings = before + 1 → s.memory.length = wideGuess before + 1 ∧
    s.memory.stringLength = min start.memory.stringLength 128 ∧
    (Terminated start.memory → (Terminated s.memory ↔
      LeftZero (format.leftover (wideGuess before + 1)) (min start.memory.stringLength 128)))

/-- What a granted buffer is like before the text is printed to it. -/
structure WideBuffer (allocator : Allocator) (start : State) (doublings : ℕ) (s : State) : Prop where
  sound : Sound s.memory
  terminated : Terminated start.memory → Terminated s.memory
  string : s.memory.isString = true
  width : s.memory.singleElementSize = sizeofWchar
  length : s.memory.length = wideGuess doublings + 1
  stringLength : s.memory.stringLength = min start.memory.stringLength 128
  reserve : s.reserve = start.reserve.widened (doublings + 1)

section
variable {format : WideFormat} {allocator : Allocator} {start s : State} {doublings : ℕ}

theorem wideResize_granted (hw : Widened format allocator start doublings s) (hdoublings : doublings ≤ maxDoublings) :
    (memResize allocator (wideGuess doublings + 1) .plain s).succeeded = true ↔
      start.reserve.GrantsWide allocator doublings := by
  obtain ⟨-,hle⟩ := wideGuess_le hdoublings
  have hsize : s.memory.singleElementSize * (wideGuess doublings + 1) ≤ sizeMax := by
    rw [hw.width]
    simp only [sizeofWchar,sizeMax]
    omega
  have hwidth : s.memory.singleElementSize ≠ 0 := by
    rw [hw.width]
    decide
  have hslab := roundUp_wideBuffer hdoublings
  rw [← hw.width] at hslab
  have hgranted := (memResize_granted hw.sound allocator hwidth (Nat.succ_ne_zero _) hsize hslab).1
  rw [hw.reserve] at hgranted
  exact hgranted

theorem wideResize_buffer (hw : Widened format allocator start doublings s) (hdoublings : doublings ≤ maxDoublings)
    (hresized : (memResize allocator (wideGuess doublings + 1) .plain s).succeeded = true) :
    WideBuffer allocator start doublings (memResize allocator (wideGuess doublings + 1) .plain s).state := by
  obtain ⟨hlow,hle⟩ := wideGuess_le hdoublings
  have hsize : s.memory.singleElementSize * (wideGuess doublings + 1) ≤ sizeMax := by
    rw [hw.width]
    simp only [sizeofWchar,sizeMax]
    omega
  have hwidth : s.memory.singleElementSize ≠ 0 := by
    rw [hw.width]
    decide
  have hslab := roundUp_wideBuffer hdoublings
  rw [← hw.width] at hslab
  have hgrown := (memResize_granted hw.sound allocator hwidth (Nat.succ_ne_zero _) hsize hslab).2 hresized
  rw [hw.reserve] at hgrown
  have hkept (hterminated : Terminated start.memory) : wideGuess doublings + 1 = s.memory.length → Terminated s.memory := by
    intro hsame
    cases doublings with
    | zero =>
      rw [hw.first rfl]
      exact hterminated
    | succ before =>
      have hlength := (hw.later before rfl).1
      rw [wideGuess_succ] at hsame
      have hpos : 0 < wideGuess before := Nat.mul_pos (by decide) (Nat.pow_pos (by decide))
      omega
  have hstart : min s.memory.stringLength (wideGuess doublings) = min start.memory.stringLength 128 := by
    cases doublings with
    | zero =>
      rw [hw.first rfl]
      rfl
    | succ before =>
      have hstringLength := (hw.later before rfl).2.1
      omega
  obtain ⟨hterm,hformat,hlength,hstringLength⟩ := memResize_string hw.sound hw.string (Nat.succ_ne_zero _) hresized
  exact ⟨(memResize_sound hw.sound _ _ _).1,fun hterminated => hterm (hkept hterminated),hformat.2.trans hw.string,
    hformat.1.trans hw.width,hlength,hstringLength.trans hstart,hgrown⟩

theorem vswprintf_unfit {capacity : ℕ} (h : format.fits capacity = false) :
    format.vswprintf capacity = (none,format.leftover capacity) := by
  rw [WideFormat.fits.eq_def] at h
  rw [WideFormat.vswprintf.eq_def]
  cases hrendered : format.rendered with
  | none => rfl
  | some text =>
    rw [hrendered] at h
    exact if_neg (by simpa using h)

theorem vswprintf_fits {capacity : ℕ} (h : format.fits capacity = true) :
    ∃ text count, text.length = sizeofWchar * count ∧ count < capacity ∧
      format.vswprintf capacity = (some count,text ++ zeroElement UInt8 sizeofWchar) := by
  rw [WideFormat.fits.eq_def] at h
  rw [WideFormat.vswprintf.eq_def]
  cases hrendered : format.rendered with
  | none =>
    rw [hrendered] at h
    cases h
  | some text =>
    rw [hrendered] at h
    have hfits : text.length / sizeofWchar < capacity := by simpa using h
    exact ⟨text,text.length / sizeofWchar,(Nat.mul_div_cancel' (format.renderedWhole text hrendered)).symm,hfits,
      if_pos hfits⟩

/-- The buffer was too small: what the next attempt finds. -/
theorem widened_succ (hw : Widened format allocator start doublings s) (hgranted : start.reserve.GrantsWide allocator doublings)
    {b : State} (hb : WideBuffer allocator start doublings b) (hunfit : format.fits (wideGuess doublings + 1) = false) :
    Widened format allocator start (doublings + 1)
      { b with memory := b.memory.written 0 (format.leftover (wideGuess doublings + 1)) } := by
  have hfits := format.leftoverFits (wideGuess doublings + 1)
  have hcovered := hb.sound.covered
  rw [hb.width,hb.length] at hcovered
  have hbytes : (format.leftover (wideGuess doublings + 1)).length =
      b.memory.singleElementSize * ((format.leftover (wideGuess doublings + 1)).length / sizeofWchar) := by
    rw [hb.width]
    exact (Nat.mul_div_cancel' (format.leftoverWhole _)).symm
  have hpos : 0 < b.memory.length := by
    rw [hb.length]
    exact Nat.succ_pos _
  refine ⟨hb.sound.written (by omega),hb.string,hb.width,hb.reserve,?_,?_,nofun,?_⟩
  · intro i hi
    rcases Nat.lt_succ_iff_lt_or_eq.mp hi with hless | rfl
    · exact hw.granted i hless
    · exact hgranted
  · intro i hi
    rcases Nat.lt_succ_iff_lt_or_eq.mp hi with hless | rfl
    · exact hw.unfit i hless
    · exact hunfit
  · intro before hbefore
    obtain rfl : doublings = before := by omega
    refine ⟨hb.length,hb.stringLength,fun hterminated => ?_⟩
    have helement := element_printed hb.sound hbytes (by omega) b.memory.stringLength
    have hzero := hb.terminated hterminated hb.string hpos
    rw [hzero,hb.stringLength,hb.width] at helement
    have hterm : Terminated (b.memory.written 0 (format.leftover (wideGuess doublings + 1))) ↔
        element sizeofWchar (b.memory.written 0 (format.leftover (wideGuess doublings + 1))).block
          (min start.memory.stringLength 128) = zeroElement UInt8 sizeofWchar := by
      rw [Terminated,Memory.written_isString,Memory.written_length,Memory.written_singleElementSize,
        Memory.written_stringLength,hb.width,hb.stringLength]
      exact ⟨fun hall => hall hb.string hpos,fun hzero _ _ => hzero⟩
    rw [hterm,helement,LeftZero]
    split
    · next hless => exact ⟨fun hleft _ => hleft,fun hleft => hleft hless⟩
    · next hmore => exact ⟨fun _ hless => absurd hless hmore,fun _ => rfl⟩

theorem Widened.givenUp {before : ℕ} (hw : Widened format allocator start (before + 1) s) (hbefore : before ≤ maxDoublings)
    (hlast : before = maxDoublings ∨ ¬start.reserve.GrantsWide allocator (before + 1)) :
    format.GivenUpAt allocator start.reserve before :=
  ⟨hbefore,fun i hi => hw.granted i (Nat.lt_succ_of_le hi),fun i hi => hw.unfit i (Nat.lt_succ_of_le hi),hlast⟩

inductive WideEnd (format : WideFormat) (allocator : Allocator) (start : State) : Option ℕ × Answer → Prop
  | refused {answer : Answer} (hfailed : answer.succeeded = false) (hsame : answer.state.memory = start.memory)
      (hrefused : ¬start.reserve.GrantsWide allocator 0) : WideEnd format allocator start (none,answer)
  | givenUp {answer : Answer} (hfailed : answer.succeeded = false) (hsound : Sound answer.state.memory) (doublings : ℕ)
      (hgivenUp : format.GivenUpAt allocator start.reserve doublings)
      (hleft : Terminated start.memory → (Terminated answer.state.memory ↔
        LeftZero (format.leftover (wideGuess doublings + 1)) (min start.memory.stringLength 128))) :
      WideEnd format allocator start (none,answer)
  | printed {state : State} (count doublings : ℕ) (hgranted : ∀ i ≤ doublings, start.reserve.GrantsWide allocator i)
      (hfits : format.fits (wideGuess doublings + 1) = true)
      (hsound : Sound { state.memory with stringLength := count })
      (hterminated : Terminated { state.memory with stringLength := count })
      (hwithin : doublings ≤ maxDoublings) :
      WideEnd format allocator start (some count,state.succeed)

theorem wideEnd_refused (hw : Widened format allocator start doublings s) (hdoublings : doublings ≤ maxDoublings)
    (hresized : (memResize allocator (wideGuess doublings + 1) .plain s).succeeded = false) :
    WideEnd format allocator start (none,memResize allocator (wideGuess doublings + 1) .plain s) := by
  have hsame := (memResize_refused hw.sound hresized).1
  have hrefused : ¬start.reserve.GrantsWide allocator doublings := by
    intro hgranted
    rw [(wideResize_granted hw hdoublings).mpr hgranted] at hresized
    cases hresized
  cases doublings with
  | zero =>
    refine .refused hresized ?_ hrefused
    rw [hsame,hw.first rfl]
  | succ before =>
    refine .givenUp hresized ?_ before (hw.givenUp (by omega) (.inr hrefused)) ?_
    · rw [hsame]
      exact hw.sound
    · rw [hsame]
      exact (hw.later before rfl).2.2

theorem wideEnd_printed (hw : Widened format allocator start doublings s) (hdoublings : doublings ≤ maxDoublings)
    (hgranted : start.reserve.GrantsWide allocator doublings) {b : State} (hb : WideBuffer allocator start doublings b)
    (hfits : format.fits (wideGuess doublings + 1) = true) :
    ∃ text count, format.vswprintf (wideGuess doublings + 1) = (some count,text) ∧
      WideEnd format allocator start (some count,({ b with memory := b.memory.written 0 text } : State).succeed) := by
  obtain ⟨text,count,htext,hcount,hprinted⟩ := vswprintf_fits hfits
  have hlength : count < b.memory.length := by
    rw [hb.length]
    exact hcount
  obtain ⟨hsound,hterm⟩ := printed_whole hb.sound hb.string (by rw [hb.width,htext]) hlength
  rw [hb.width] at hsound hterm
  refine ⟨_,count,hprinted,.printed count doublings ?_ hfits hsound hterm hdoublings⟩
  intro i hi
  rcases Nat.lt_or_eq_of_le hi with hless | rfl
  · exact hw.granted i hless
  · exact hgranted

/-- An attempt ends the attempts or leaves its buffer to the next one. -/
theorem wideAttempts_step (hw : Widened format allocator start doublings s) (hdoublings : doublings ≤ maxDoublings) (left : ℕ) :
    WideEnd format allocator start (wideAttempts allocator format left (wideGuess doublings) s) ∨
    ∃ s', Widened format allocator start (doublings + 1) s' ∧
      wideAttempts allocator format left (wideGuess doublings) s =
        if left = 0 then (none,s'.fail) else wideAttempts allocator format (left - 1) (wideGuess (doublings + 1)) s' := by
  have hdoubled : ¬sizeMax / 2 < wideGuess doublings := by
    have hguess := (wideGuess_le hdoublings).2
    simp only [sizeMax]
    omega
  cases hresized : (memResize allocator (wideGuess doublings + 1) .plain s).succeeded with
  | false =>
    rw [wideAttempts.eq_def,if_pos hresized]
    exact .inl (wideEnd_refused hw hdoublings hresized)
  | true =>
    have hb := wideResize_buffer hw hdoublings hresized
    have hgranted := (wideResize_granted hw hdoublings).mp hresized
    rw [wideAttempts.eq_def,if_neg (by simp [hresized])]
    cases hfits : format.fits (wideGuess doublings + 1) with
    | true =>
      obtain ⟨text,count,hprinted,hend⟩ := wideEnd_printed hw hdoublings hgranted hb hfits
      rw [hprinted]
      exact .inl hend
    | false =>
      rw [vswprintf_unfit hfits]
      refine .inr ⟨_,widened_succ hw hgranted hb hfits,?_⟩
      cases left with
      | zero => rfl
      | succ left =>
        dsimp only
        rw [if_neg hdoubled,if_neg (Nat.succ_ne_zero left),wideGuess_succ,Nat.add_sub_cancel]

theorem wideAttempts_end (hw : Widened format allocator start doublings s) {left : ℕ}
    (hleft : doublings + left = maxDoublings) :
    WideEnd format allocator start (wideAttempts allocator format left (wideGuess doublings) s) := by
  induction left generalizing doublings s with
  | zero =>
    rcases wideAttempts_step hw (by omega) 0 with hend | ⟨s',hnext,hanswer⟩
    · exact hend
    · rw [hanswer,if_pos rfl]
      exact .givenUp rfl hnext.sound doublings (hnext.givenUp (by omega) (.inl hleft)) (hnext.later doublings rfl).2.2
  | succ left ih =>
    rcases wideAttempts_step hw (by omega) (left + 1) with hend | ⟨s',hnext,hanswer⟩
    · exact hend
    · rw [hanswer,if_neg (Nat.succ_ne_zero left),Nat.add_sub_cancel]
      exact ih hnext (by omega)

theorem wideAttempts_from_start (h : Sound start.memory) (hstring : start.memory.isString = true)
    (hwidth : start.memory.singleElementSize = sizeofWchar) (allocator : Allocator) (format : WideFormat) :
    WideEnd format allocator start (wideAttempts allocator format maxDoublings 128 start) := by
  have hstart : Widened format allocator start 0 start := ⟨h,hstring,hwidth,rfl,nofun,nofun,fun _ => rfl,nofun⟩
  exact wideAttempts_end hstart (Nat.zero_add maxDoublings)

/-- The attempts end with one buffer only. -/
theorem WideFormat.GivenUpAt.unique {i j : ℕ} (hi : format.GivenUpAt allocator start.reserve i)
    (hj : format.GivenUpAt allocator start.reserve j) : i = j := by
  have hle {i j : ℕ} (hi : format.GivenUpAt allocator start.reserve i)
      (hj : format.GivenUpAt allocator start.reserve j) : j ≤ i := by
    by_contra hless
    rcases hi.last with hmax | hrefused
    · have hwithin := hj.within
      omega
    · exact hrefused (hj.granted (i + 1) (by omega))
  exact Nat.le_antisymm (hle hj hi) (hle hi hj)

end

section
variable {s : State} (h : Sound s.memory) (allocator : Allocator)
include h

theorem memFormattedStringWchar_keeps (format : Option WideFormat) :
    Sound (memFormattedStringWchar allocator format s).state.memory ∧ (Terminated s.memory →
      (Terminated (memFormattedStringWchar allocator format s).state.memory ↔
        (s.memory.isString = true → s.memory.singleElementSize = sizeofWchar → ∀ wide, format = some wide →
          wide.Harmless allocator s.reserve s.memory.stringLength))) := by
  by_cases hmode : s.memory.isString = false
  · rw [memFormattedStringWchar.eq_def,if_pos hmode]
    refine ⟨h,fun hterminated => ⟨fun _ hstring => ?_,fun _ => hterminated⟩⟩
    rw [hmode] at hstring
    cases hstring
  have hstring : s.memory.isString = true := by simpa using hmode
  rw [memFormattedStringWchar.eq_def,if_neg hmode]
  cases format with
  | none => exact ⟨h,fun hterminated => ⟨fun _ _ _ wide hnone => (by cases hnone),fun _ => hterminated⟩⟩
  | some wide =>
    dsimp only
    by_cases hwidth : s.memory.singleElementSize = sizeofWchar
    · rw [if_neg (not_not.mpr hwidth)]
      have hend := wideAttempts_from_start h hstring hwidth allocator wide
      generalize wideAttempts allocator wide maxDoublings 128 s = attempts at hend
      have hall : (s.memory.isString = true → s.memory.singleElementSize = sizeofWchar → ∀ wide', some wide = some wide' →
          wide'.Harmless allocator s.reserve s.memory.stringLength) ↔
          wide.Harmless allocator s.reserve s.memory.stringLength :=
        ⟨fun hharmless => hharmless hstring hwidth wide rfl,fun hharmless _ _ wide' hsome => Option.some.inj hsome ▸ hharmless⟩
      rw [hall]
      cases hend with
      | refused hfailed hsame hrefused =>
        dsimp only
        rw [hsame]
        exact ⟨h,fun hterminated =>
          ⟨fun _ doublings hgivenUp => absurd (hgivenUp.granted 0 (Nat.zero_le _)) hrefused,fun _ => hterminated⟩⟩
      | givenUp hfailed hsound doublings hgivenUp hleft =>
        refine ⟨hsound,fun hterminated => ⟨fun hterm other hother => ?_,
          fun hharmless => (hleft hterminated).mpr (hharmless doublings hgivenUp)⟩⟩
        rw [hother.unique hgivenUp]
        exact (hleft hterminated).mp hterm
      | @printed state count doublings hgranted hfits hsound hterm hwithin =>
        have hnever : wide.Harmless allocator s.reserve s.memory.stringLength := by
          intro other hother
          have hless : other < doublings := by
            by_contra hmore
            have hunfit := hother.unfit doublings (by omega)
            rw [hfits] at hunfit
            cases hunfit
          rcases hother.last with hmax | hrefused
          · omega
          · exact absurd (hgranted (other + 1) hless) hrefused
        have htrimmed := memResize_keeps (s := { state with memory := { state.memory with stringLength := count } })
          hsound hterm allocator (count + 1) .plain
        exact ⟨htrimmed.1,fun _ => ⟨fun _ => hnever,fun _ => htrimmed.2⟩⟩
    · rw [if_pos hwidth]
      exact ⟨h,fun hterminated => ⟨fun _ _ hsame => absurd hsame hwidth,fun _ => hterminated⟩⟩

end

end Precizer.Libmem
