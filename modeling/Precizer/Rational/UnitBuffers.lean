import Precizer.Rational.RenderedUnits

/-! # Texts in buffers of any size

Both functions append one count after another. A buffer that is too small holds the first bytes
of the text, without a space at their end.
-/
namespace Precizer.Rational
open General

/-- A text without the space at its end. -/
def hidden (text : List UInt8) : List UInt8 := if text.getLast? = some 32 then text.dropLast else text

theorem hidden_append (text : List UInt8) (byte : UInt8) : hidden (text ++ [byte]) = if byte = 32 then text else text ++ [byte] := by
  simp [hidden]

theorem length_hidden_le (text : List UInt8) : (hidden text).length ≤ text.length := by
  rw [hidden]
  split <;> simp

theorem snprintf_append (kept token after : List UInt8) :
    snprintf (kept ++ 0 :: after) kept.length (after.length + 1) token =
      some (kept ++ token.take after.length ++ 0 :: after.drop token.length) := by
  have hroom : (token.take after.length ++ [0]).length ≤ (0 :: after).length := by
    simp
  have hwrite : write? (kept ++ 0 :: after) kept.length (token.take after.length ++ [0]) =
      some (kept ++ (token.take after.length ++ [0]) ++ (0 :: after).drop (token.take after.length ++ [0]).length) :=
    write?_append hroom
  have hrest : (0 :: after).drop (token.take after.length ++ [0]).length = after.drop token.length := by
    rw [List.length_append,List.length_singleton,List.drop_succ_cons,List.length_take]
    rcases Nat.le_total after.length token.length with hle | hle
    · rw [Nat.min_eq_left hle,List.drop_length,List.drop_of_length_le hle]
    · rw [Nat.min_eq_right hle]
  rw [snprintf,if_neg (Nat.succ_ne_zero _),Nat.add_sub_cancel,hwrite,hrest]
  simp

/-- The terminator takes the place of the space, if there is one. -/
theorem hideSpace_eq {text : List UInt8} (hne : text ≠ []) (after : List UInt8) :
    hideSpace (text ++ 0 :: after) (text.length - 1) =
      some (hidden text ++ 0 :: (List.replicate (text.length - (hidden text).length) 0 ++ after)) := by
  rcases List.eq_nil_or_concat text with rfl | ⟨front,byte,rfl⟩
  · exact absurd rfl hne
  have hposition : (front.concat byte).length - 1 = front.length := by simp
  have hlist : front.concat byte ++ 0 :: after = front ++ byte :: 0 :: after := by simp
  have hbyte : (front ++ byte :: 0 :: after)[front.length]? = some byte := by simp
  have hwrite : write? (front ++ byte :: 0 :: after) front.length [0] =
      some (front ++ [0] ++ (byte :: 0 :: after).drop 1) := write?_append (by simp)
  rw [hposition,hlist,hideSpace,hbyte]
  dsimp only
  rw [List.concat_eq_append,hidden_append]
  split
  · rw [hwrite]
    simp
  · simp

theorem write?_terminator (text : List UInt8) :
    write? (text ++ [0]) ((text ++ [0]).length - 1) [0] = some (text ++ [0]) := by
  have hwrite : write? (text ++ [0]) text.length [0] = some (text ++ [0] ++ [0].drop 1) := write?_append le_rfl
  simpa using hwrite

/-- An append to a buffer, with what it keeps true of the buffer and of the text so far. -/
structure AppendRule (append : Filled → ℤ → List UInt8 → Option Filled) (Holds : ℕ → List UInt8 → Filled → Prop) : Prop where
  start : ∀ after : List UInt8, Holds (after.length + 1) [] ⟨0 :: after,0⟩
  skip : ∀ state name, append state 0 name = some state
  step : ∀ {size text state} {count : ℕ} (name : List UInt8), Holds size text state → 0 < count →
    ∃ state', append state count name = some state' ∧ Holds size (text ++ (decimalText count ++ name ++ [32])) state'
  finish : ∀ {size text state}, Holds size text state → text ≠ [] →
    ∃ after, (if 0 < state.usedLen then (hideSpace state.buffer (state.usedLen - 1)).map some else some (some state.buffer)) =
      some (some (hidden (text.take (size - 1)) ++ 0 :: after)) ∧
      (hidden (text.take (size - 1)) ++ 0 :: after).length = size

/-- A buffer with the first bytes of a text. -/
structure DateHolds (size : ℕ) (text : List UInt8) (state : Filled) : Prop where
  used : state.usedLen = min text.length (size - 1)
  buffer : ∃ after, state.buffer = text.take (size - 1) ++ 0 :: after
  length : state.buffer.length = size

theorem take_longer {text token after : List UInt8} {size : ℕ} (h : (text.take (size - 1) ++ 0 :: after).length = size) :
    (text ++ token).take (size - 1) = text.take (size - 1) ++ token.take after.length := by
  have hafter : size - 1 - text.length = after.length := by
    simp only [List.length_append,List.length_take,List.length_cons] at h
    omega
  rw [List.take_append,hafter]

/-- What `snprintf` makes of a buffer with the first bytes of a text. -/
theorem snprintf_take {text token after : List UInt8} {size : ℕ}
    (h : (text.take (size - 1) ++ 0 :: after).length = size) :
    snprintf (text.take (size - 1) ++ 0 :: after) (text.take (size - 1)).length (after.length + 1) token =
      some ((text ++ token).take (size - 1) ++ 0 :: after.drop token.length) := by
  rw [snprintf_append,take_longer h]

theorem catdateR_rule : AppendRule catdateR DateHolds where
  start after := ⟨by simp,⟨after,by simp⟩,by simp⟩
  skip state name := by rw [catdateR,if_pos (.inl le_rfl)]
  step := by
    rintro size text ⟨buffer,usedLen⟩ count name ⟨hused,⟨after,hbuffer⟩,hlength⟩ hcount
    dsimp only at hused hbuffer hlength
    subst hbuffer
    have hkept : usedLen = (text.take (size - 1)).length := by
      rw [List.length_take,hused,Nat.min_comm]
    have hrest : (text.take (size - 1) ++ 0 :: after).length - usedLen = after.length + 1 := by
      simp [hkept]
    have hroom : (text.take (size - 1)).length + after.length + 1 = size := by
      simpa [Nat.add_assoc] using hlength
    have hpositive : ¬((count : ℤ) ≤ 0 ∨ (text.take (size - 1) ++ 0 :: after).length ≤ usedLen) := by
      omega
    have htoken : 0 < (decimalText count ++ name ++ [32]).length := by simp
    rw [catdateR,if_neg hpositive]
    dsimp only
    rw [Int.toNat_natCast,hrest]
    generalize decimalText count ++ name ++ [32] = token at htoken
    rw [hkept,snprintf_take hlength,Option.bind_some]
    rw [List.length_take] at hroom
    split
    · next hfull =>
      have hnothing : after.drop token.length = [] := List.drop_of_length_le (by omega)
      rw [hnothing,write?_terminator,Option.map_some]
      refine ⟨_,rfl,?_,⟨[],rfl⟩,?_⟩
      · simp
        omega
      · simp
        omega
    · next hshort =>
      refine ⟨_,rfl,?_,⟨_,rfl⟩,?_⟩
      · simp
        omega
      · simp
        omega
  finish := by
    rintro size text ⟨buffer,usedLen⟩ ⟨hused,⟨after,hbuffer⟩,hlength⟩ hne
    dsimp only at hused hbuffer hlength ⊢
    subst hbuffer
    have hpos := List.length_pos_iff.mpr hne
    by_cases hempty : text.take (size - 1) = []
    · have hzero : usedLen = 0 := by
        rw [hused,Nat.min_comm,← List.length_take,hempty]
        rfl
      refine ⟨after,?_,?_⟩
      · rw [if_neg (by omega),hempty]
        rfl
      · rw [hempty] at hlength ⊢
        exact hlength
    · have hkept : usedLen = (text.take (size - 1)).length := by
        rw [List.length_take,hused,Nat.min_comm]
      have hkeptPos := List.length_pos_iff.mpr hempty
      rw [if_pos (by omega),hkept,hideSpace_eq hempty,Option.map_some]
      refine ⟨_,rfl,?_⟩
      have hle := length_hidden_le (text.take (size - 1))
      simp only [List.length_append,List.length_cons,List.length_replicate] at hlength ⊢
      omega

/-- A buffer with a text, or a full one, in which the space at the end is hidden. -/
inductive ByteHolds (size : ℕ) (text : List UInt8) : Filled → Prop
  | room (after : List UInt8) (hlength : (text ++ 0 :: after).length = size) :
      ByteHolds size text ⟨text ++ 0 :: after,text.length⟩
  | full (zeros : ℕ) (hfull : size ≤ text.length)
      (hlength : (hidden (text.take (size - 1)) ++ List.replicate (zeros + 1) 0).length = size) :
      ByteHolds size text ⟨hidden (text.take (size - 1)) ++ List.replicate (zeros + 1) 0,size⟩

theorem catbyteR_rule : AppendRule catbyteR ByteHolds where
  start after := .room after (by simp)
  skip state name := by rw [catbyteR,if_pos (.inl rfl)]
  step := by
    rintro size text state count name h hcount
    have hne : (count : ℤ) ≠ 0 := by omega
    cases h with
    | full zeros hfull hlength =>
      refine ⟨⟨hidden (text.take (size - 1)) ++ List.replicate (zeros + 1) 0,size⟩,?_,?_⟩
      · rw [catbyteR,if_pos (.inr hlength.le)]
      · have hsame : (text ++ (decimalText count ++ name ++ [32])).take (size - 1) = text.take (size - 1) :=
          List.take_append_of_le_length (by omega)
        rw [← hsame] at hlength ⊢
        exact .full zeros (by simp; omega) hlength
    | room after hlength =>
      have hroom : text.length + after.length + 1 = size := by
        simpa [Nat.add_assoc] using hlength
      have hrest : (text ++ 0 :: after).length - text.length = after.length + 1 := by simp
      have hused : ¬((count : ℤ) = 0 ∨ (text ++ 0 :: after).length ≤ text.length) := by
        simp
        omega
      rw [catbyteR,if_neg hused]
      dsimp only
      rw [Int.toNat_natCast,hrest]
      generalize decimalText count ++ name ++ [32] = token
      rw [snprintf_append,Option.bind_some]
      split
      · next hfull =>
        have hnothing : after.drop token.length = [] := List.drop_of_length_le (by omega)
        have htake : text ++ token.take after.length = (text ++ token).take (size - 1) := by
          have hbefore : text.take (size - 1) = text := List.take_of_length_le (by omega)
          have hafter : size - 1 - text.length = after.length := by omega
          rw [List.take_append,hbefore,hafter]
        have htoken : size ≤ (text ++ token).length := by
          rw [List.length_append]
          omega
        have hp : ((text ++ token).take (size - 1)).length + 1 = size := by
          rw [List.length_take]
          omega
        rw [hnothing,htake,write?_terminator,Option.bind_some]
        by_cases hone : 1 < size
        · have hne' : (text ++ token).take (size - 1) ≠ [] := by
            rw [← List.length_pos_iff]
            omega
          have hposition : ((text ++ token).take (size - 1) ++ [0]).length - 2 = ((text ++ token).take (size - 1)).length - 1 := by
            simp only [List.length_append,List.length_singleton]
            omega
          have hlength' : ((text ++ token).take (size - 1) ++ [0]).length = size := by
            rw [List.length_append,List.length_singleton,hp]
          have hle := length_hidden_le ((text ++ token).take (size - 1))
          rw [hposition,hlength',if_pos hone,hideSpace_eq hne',Option.map_some,List.append_nil,← List.replicate_succ]
          refine ⟨_,rfl,?_⟩
          have hkept : (hidden ((text ++ token).take (size - 1)) ++ List.replicate (((text ++ token).take (size - 1)).length -
              (hidden ((text ++ token).take (size - 1))).length + 1) (0 : UInt8)).length = size := by
            rw [List.length_append,List.length_replicate]
            omega
          rw [hkept]
          exact .full _ htoken hkept
        · obtain rfl : size = 1 := by omega
          refine ⟨⟨[0],1⟩,by simp,?_⟩
          exact .full 0 htoken rfl
      · next hshort =>
        have htake : token.take after.length = token := List.take_of_length_le (by omega)
        rw [htake,← List.length_append]
        refine ⟨_,rfl,.room _ ?_⟩
        simp
        omega
  finish := by
    rintro size text state h hne
    cases h with
    | room after hlength =>
      have hpos := List.length_pos_iff.mpr hne
      have htake : text.take (size - 1) = text := by
        apply List.take_of_length_le
        simp at hlength
        omega
      dsimp only
      rw [if_pos hpos,hideSpace_eq hne,Option.map_some,htake]
      refine ⟨_,rfl,?_⟩
      have hle := length_hidden_le text
      simp only [List.length_append,List.length_cons,List.length_replicate] at hlength ⊢
      omega
    | full zeros hfull hlength =>
      have hsum : (hidden (text.take (size - 1))).length + (zeros + 1) = size := by
        simpa using hlength
      have hlast : (hidden (text.take (size - 1)) ++ List.replicate (zeros + 1) 0)[size - 1]? = some (0 : UInt8) := by
        rw [List.getElem?_append_right (by omega),List.getElem?_replicate,if_pos (by omega)]
      dsimp only
      refine ⟨List.replicate zeros 0,?_,?_⟩
      · rw [if_pos (by omega),hideSpace,hlast]
        rfl
      · exact hlength

/-- The tokens, each with a space behind it. -/
def trailing (tokens : List (List UInt8)) : List UInt8 := (tokens.map (· ++ [32])).flatten

def shownTokens (format : ByteFormat) (units : List TextUnit) (value : ℕ) : List (List UInt8) :=
  match format with
  | .fullView => unitTokens units (splitUnits units value)
  | .majorView => (unitTokens units (splitUnits units value)).take 1

def shownText (format : ByteFormat) (units : List TextUnit) (value : ℕ) : List UInt8 :=
  if value = 0 then decimalText 0 ++ (units.getLast?.map TextUnit.name).getD []
  else [32].intercalate (shownTokens format units value)

/-- A text of tokens does not end in a space; with one behind it it is what is appended. -/
theorem trailing_eq {tokens : List (List UInt8)} (hne : tokens ≠ []) (htokens : ∀ token ∈ tokens, token ≠ [] ∧ 32 ∉ token) :
    trailing tokens = [32].intercalate tokens ++ [32] ∧ ([32].intercalate tokens).getLast? ≠ some 32 ∧
      [32].intercalate tokens ≠ [] := by
  induction tokens with
  | nil => exact absurd rfl hne
  | cons token tokens ih =>
    obtain ⟨hnonempty,hspace⟩ := htokens token List.mem_cons_self
    cases tokens with
    | nil =>
      rw [List.intercalate_singleton]
      refine ⟨by simp [trailing],?_,hnonempty⟩
      intro hlast
      exact hspace (List.mem_of_getLast? hlast)
    | cons next tokens =>
      obtain ⟨htrailing,hlast,hrest⟩ := ih (List.cons_ne_nil _ _) fun other hother => htokens other (List.mem_cons_of_mem token hother)
      have hcons : [32].intercalate (token :: next :: tokens) = token ++ [32] ++ [32].intercalate (next :: tokens) := by
        simp [List.intercalate]
      rw [hcons]
      refine ⟨?_,?_,by simp⟩
      · rw [List.append_assoc,← htrailing]
        simp [trailing]
      · rwa [List.getLast?_append_of_ne_nil _ hrest]

/-- Any number of bytes of what is appended leaves a beginning of the text. -/
theorem hidden_take {text : List UInt8} (hlast : text.getLast? ≠ some 32) (count : ℕ) :
    hidden ((text ++ [32]).take count) <+: text ∧ (text.length ≤ count → hidden ((text ++ [32]).take count) = text) := by
  have hself : hidden text = text := if_neg hlast
  rcases Nat.lt_or_ge text.length count with hlong | hshort
  · have hall : (text ++ [32]).take count = text ++ [32] := by
      apply List.take_of_length_le
      simp
      omega
    rw [hall,hidden_append,if_pos rfl]
    exact ⟨List.prefix_refl _,fun _ => rfl⟩
  · rw [List.take_append_of_le_length hshort]
    constructor
    · apply List.IsPrefix.trans _ (List.take_prefix count text)
      rw [hidden]
      split
      · exact List.dropLast_prefix _
      · exact List.prefix_refl _
    · intro hcount
      rw [List.take_of_length_le hcount,hself]

section
variable {append : Filled → ℤ → List UInt8 → Option Filled} {Holds : ℕ → List UInt8 → Filled → Prop}
  (rule : AppendRule append Holds)
include rule

theorem AppendRule.fold (units : List TextUnit) (counts : List ℕ) {size : ℕ} {text : List UInt8} {state : Filled}
    (h : Holds size text state) :
    ∃ state', ((counts.map Int.ofNat).zip (units.map TextUnit.name)).foldlM
        (fun state part => append state part.1 part.2) state = some state' ∧
      Holds size (text ++ trailing (unitTokens units counts)) state' := by
  induction units generalizing counts text state with
  | nil => exact ⟨state,by simp,by cases counts <;> simpa [unitTokens,trailing] using h⟩
  | cons unit units ih =>
    cases counts with
    | nil => exact ⟨state,by simp,by simpa [unitTokens,trailing] using h⟩
    | cons count counts =>
      rw [List.map_cons,List.map_cons,List.zip_cons_cons,List.foldlM_cons,unitTokens]
      by_cases hzero : count = 0
      · rw [if_pos hzero,hzero]
        have hskip : append state (Int.ofNat 0) unit.name = some state := rule.skip state unit.name
        dsimp only
        rw [hskip]
        exact ih counts h
      · obtain ⟨next,hnext,hholds⟩ := rule.step unit.name h (Nat.pos_of_ne_zero hzero)
        obtain ⟨last,hlast,hholdsLast⟩ := ih counts hholds
        refine ⟨last,?_,?_⟩
        · have happend : append state (Int.ofNat count) unit.name = some next := hnext
          dsimp only
          rw [happend]
          exact hlast
        · rw [if_neg hzero]
          simpa [trailing] using hholdsLast

omit rule in
theorem find_positive (units : List TextUnit) (counts : List ℕ) (h : unitTokens units counts ≠ []) :
    ∃ count name, 0 < count ∧ (unitTokens units counts).take 1 = [decimalText count ++ name] ∧
      ((counts.map Int.ofNat).zip (units.map TextUnit.name)).find? (0 < ·.1) = some (Int.ofNat count,name) := by
  induction units generalizing counts with
  | nil => exact absurd (by cases counts <;> rfl) h
  | cons unit units ih =>
    cases counts with
    | nil => exact absurd rfl h
    | cons count counts =>
      rw [List.map_cons,List.map_cons,List.zip_cons_cons]
      rw [unitTokens] at h ⊢
      by_cases hzero : count = 0
      · rw [if_pos hzero] at h ⊢
        obtain ⟨first,name,hpos,htake,hfind⟩ := ih counts h
        refine ⟨first,name,hpos,htake,?_⟩
        rw [List.find?_cons_of_neg (by simp [hzero])]
        exact hfind
      · have hpos := Nat.pos_of_ne_zero hzero
        refine ⟨count,unit.name,hpos,by simp [hzero],?_⟩
        rw [List.find?_cons_of_pos (by simpa using hpos)]

theorem AppendRule.shown (format : ByteFormat) (units : List TextUnit) (value : ℕ) (after : List UInt8)
    (h : unitTokens units (splitUnits units value) ≠ []) :
    ∃ state, (shownParts format (((splitUnits units value).map Int.ofNat).zip (units.map TextUnit.name))).foldlM
        (fun state part => append state part.1 part.2) ⟨0 :: after,0⟩ = some state ∧
      Holds (after.length + 1) (trailing (shownTokens format units value)) state := by
  cases format with
  | fullView => exact rule.fold units (splitUnits units value) (rule.start after)
  | majorView =>
    obtain ⟨count,name,hpos,htake,hfind⟩ := find_positive units (splitUnits units value) h
    obtain ⟨state,hstate,hholds⟩ := rule.step name (rule.start after) hpos
    have happend : append ⟨0 :: after,0⟩ (Int.ofNat count) name = some state := hstate
    refine ⟨state,?_,?_⟩
    · rw [shownParts,hfind]
      simp only [List.foldlM_cons,List.foldlM_nil,happend]
      rfl
    · rw [shownTokens,htake]
      simpa [trailing] using hholds

/-- Every buffer with a byte gets a terminated beginning of a text, and the whole of it when there is room. -/
structure Fills (text : List UInt8) (render : Option (List UInt8) → Option (Option (List UInt8))) : Prop where
  nothing : render none = some none
  empty : render (some []) = some none
  fills : ∀ buffer ≠ [], ∃ written after, render (some buffer) = some (some (written ++ 0 :: after)) ∧
    (written ++ 0 :: after).length = buffer.length ∧ written <+: text ∧ (text.length < buffer.length → written = text)

omit rule in
theorem shownTokens_ne_nil {units : List TextUnit} (htable : UnitTable units) {value : ℕ} (hvalue : value ≠ 0) (format : ByteFormat) :
    shownTokens format units value ≠ [] := by
  have htokens := unitTokens_ne_nil htable hvalue
  cases format with
  | fullView => exact htokens
  | majorView =>
    rw [shownTokens]
    simpa using htokens

omit rule in
theorem mem_shownTokens {units : List TextUnit} (htable : UnitTable units) {format : ByteFormat} {value : ℕ} {token : List UInt8}
    (h : token ∈ shownTokens format units value) : token ≠ [] ∧ 32 ∉ token := by
  have htoken : token ∈ unitTokens units (splitUnits units value) := by
    cases format with
    | fullView => exact h
    | majorView => exact List.mem_of_mem_take h
  obtain ⟨unit,hunit,count,rfl⟩ := mem_unitTokens (List.Subset.refl units) _ htoken
  refine ⟨?_,space_notMem_token htable hunit count⟩
  simp [decimalText_ne_nil]

theorem AppendRule.formUnits_fills {units : List TextUnit} (htable : UnitTable units) {split : ℤ → Option (List ℤ)} {value : ℕ}
    (hsplit : split value = some ((splitUnits units value).map Int.ofNat)) {zeroText : List UInt8}
    (hzeroText : zeroText = decimalText 0 ++ (units.getLast?.map TextUnit.name).getD []) (format : ByteFormat) :
    Fills (shownText format units value) (formUnits zeroText split units append value format) where
  nothing := rfl
  empty := rfl
  fills := by
    intro buffer hbuffer
    obtain ⟨first,after,rfl⟩ := List.exists_cons_of_ne_nil hbuffer
    have hwrite : write? (first :: after) 0 [0] = some (0 :: after) := by simp [write?,overwrite]
    rw [formUnits,if_neg hbuffer,hwrite,Option.bind_some,shownText]
    by_cases hzero : value = 0
    · have hprint := snprintf_append [] zeroText after
      simp only [List.nil_append,List.length_nil] at hprint
      rw [if_pos hzero,if_pos (by exact_mod_cast hzero),List.length_cons,hprint,Option.map_some,← hzeroText]
      refine ⟨zeroText.take after.length,after.drop zeroText.length,rfl,?_,List.take_prefix _ _,?_⟩
      · simp
        omega
      · intro hroom
        rw [List.length_cons] at hroom
        exact List.take_of_length_le (by omega)
    · obtain ⟨htrailing,hlast,-⟩ := trailing_eq (shownTokens_ne_nil htable hzero format) fun token htoken =>
        mem_shownTokens htable htoken
      obtain ⟨state,hfold,hholds⟩ := rule.shown format units value after (unitTokens_ne_nil htable hzero)
      have hfilled : trailing (shownTokens format units value) ≠ [] := by
        rw [htrailing]
        simp
      obtain ⟨rest,hfinish,hlength⟩ := rule.finish hholds hfilled
      have hcut := hidden_take hlast after.length
      rw [htrailing,Nat.add_sub_cancel] at hfinish hlength
      rw [if_neg hzero,if_neg (by exact_mod_cast hzero),hsplit,Option.bind_some,hfold,Option.bind_some,hfinish]
      refine ⟨_,rest,rfl,hlength,hcut.1,?_⟩
      intro hroom
      rw [List.length_cons] at hroom
      exact hcut.2 (by omega)

end

end Precizer.Rational
