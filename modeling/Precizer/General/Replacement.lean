import Mathlib.Data.List.Infix
import Mathlib.Tactic

/-! # Literal replacement

Every occurrence of a pattern is replaced, from the left and without overlaps; what was
inserted is not searched again. Matches never cross a place whose next element occurs in the
pattern only as its first.
-/
namespace Precizer.General

variable {α : Type} [DecidableEq α]

def replaceAll (search replacement : List α) : List α → List α
  | [] => []
  | x :: text =>
    if search <+: x :: text then
      replacement ++ replaceAll search replacement (text.drop (search.length - 1))
    else x :: replaceAll search replacement text
termination_by text => text.length

variable {search replacement : List α}

@[simp] theorem replaceAll_nil : replaceAll search replacement [] = [] := by rw [replaceAll]

theorem replaceAll_matched {x : α} {text : List α} (h : search <+: x :: text) :
    replaceAll search replacement (x :: text) =
      replacement ++ replaceAll search replacement (text.drop (search.length - 1)) := by
  rw [replaceAll,if_pos h]

theorem replaceAll_unmatched {x : α} {text : List α} (h : ¬ search <+: x :: text) :
    replaceAll search replacement (x :: text) = x :: replaceAll search replacement text := by
  rw [replaceAll,if_neg h]

theorem replaceAll_search_append (hsearch : search ≠ []) (text : List α) :
    replaceAll search replacement (search ++ text) = replacement ++ replaceAll search replacement text := by
  cases search with
  | nil => exact absurd rfl hsearch
  | cons a rest =>
    have hstart : a :: rest <+: a :: (rest ++ text) := ⟨text,rfl⟩
    rw [List.cons_append,replaceAll_matched hstart,List.length_cons,Nat.add_sub_cancel,List.drop_left]

omit [DecidableEq α] in
/-- A match that starts before an element can only cross it inside the pattern. -/
theorem startsWith_append_cons {c : α} (hc : c ∉ search.tail) (x : α) (before text : List α) :
    search <+: x :: (before ++ c :: text) ↔ search <+: x :: before := by
  constructor
  · intro h
    cases search with
    | nil => exact List.nil_prefix
    | cons a rest =>
      obtain ⟨rfl,hrest⟩ := List.cons_prefix_cons.mp h
      have hupto : before ++ [c] <+: before ++ c :: text := ⟨text,by simp⟩
      refine List.cons_prefix_cons.mpr ⟨rfl,?_⟩
      rcases List.prefix_or_prefix_of_prefix hrest hupto with hwithin | hbeyond
      · rcases List.prefix_concat_iff.mp hwithin with heq | hbefore
        · exact absurd (heq ▸ List.mem_append_right before (List.mem_singleton_self c)) hc
        · exact hbefore
      · exact absurd (hbeyond.subset (List.mem_append_right before (List.mem_singleton_self c))) hc
  · intro h
    exact h.trans ⟨c :: text,rfl⟩

/-- A text may be cut before an element that the pattern does not contain after its start. -/
theorem replaceAll_append_cons {c : α} (hc : c ∉ search.tail) (before text : List α) :
    replaceAll search replacement (before ++ c :: text) =
      replaceAll search replacement before ++ replaceAll search replacement (c :: text) := by
  induction hlength : before.length using Nat.strong_induction_on generalizing before with
  | _ n ih =>
    cases before with
    | nil => simp
    | cons x rest =>
      rw [List.cons_append]
      by_cases hmatch : search <+: x :: rest
      · have hshort : search.length - 1 ≤ rest.length := by
          have hle := hmatch.length_le
          rw [List.length_cons] at hle
          omega
        rw [replaceAll_matched hmatch,replaceAll_matched ((startsWith_append_cons hc x rest text).mpr hmatch),
          List.drop_append_of_le_length hshort,ih _ (by simp [← hlength]) _ rfl,List.append_assoc]
      · rw [replaceAll_unmatched hmatch,
          replaceAll_unmatched (fun h => hmatch ((startsWith_append_cons hc x rest text).mp h)),
          ih _ (by simp [← hlength]) _ rfl,List.cons_append]

theorem replaceAll_append_cons_of_notMem {c : α} (hc : c ∉ search) (hsearch : search ≠ [])
    (before text : List α) : replaceAll search replacement (before ++ c :: text) =
      replaceAll search replacement before ++ c :: replaceAll search replacement text := by
  rw [replaceAll_append_cons (fun h => hc (List.mem_of_mem_tail h)),replaceAll_unmatched]
  intro h
  cases search with
  | nil => exact hsearch rfl
  | cons a rest => exact hc ((List.cons_prefix_cons.mp h).1 ▸ List.mem_cons_self)

/-- A text without the first element of the pattern is passed over. -/
theorem replaceAll_append_of_head_notMem {a : α} {rest skipped : List α} (h : a ∉ skipped) (text : List α) :
    replaceAll (a :: rest) replacement (skipped ++ text) =
      skipped ++ replaceAll (a :: rest) replacement text := by
  induction skipped with
  | nil => rfl
  | cons x skipped ih =>
    rw [List.mem_cons,not_or] at h
    rw [List.cons_append,replaceAll_unmatched,ih h.2,List.cons_append]
    intro hstart
    exact h.1 (List.cons_prefix_cons.mp hstart).1

theorem replaceAll_without {text : List α} (h : ¬ search <:+: text) :
    replaceAll search replacement text = text := by
  induction text with
  | nil => rw [replaceAll_nil]
  | cons x rest ih =>
    rw [replaceAll_unmatched (fun hstart => h hstart.isInfix),
      ih (fun hwithin => h (hwithin.trans (List.suffix_cons x rest).isInfix))]

theorem length_replaceAll_le (hne : search ≠ []) (hshort : replacement.length ≤ search.length) (text : List α) :
    (replaceAll search replacement text).length ≤ text.length := by
  induction hlength : text.length using Nat.strong_induction_on generalizing text with
  | _ n ih =>
    cases text with
    | nil => simp
    | cons x rest =>
      subst hlength
      by_cases hmatch : search <+: x :: rest
      · obtain ⟨tail,htail⟩ := id hmatch
        have hpos := List.length_pos_of_ne_nil hne
        have hcount := congrArg List.length htail
        rw [List.length_append] at hcount
        have hle := ih tail.length (by omega) tail rfl
        rw [← htail,replaceAll_search_append hne,List.length_append,List.length_append]
        omega
      · rw [replaceAll_unmatched hmatch,List.length_cons,List.length_cons]
        exact Nat.succ_le_succ (ih _ (by simp) rest rfl)

theorem length_removeAll_lt (hne : search ≠ []) {text : List α} (h : search <:+: text) :
    (replaceAll search [] text).length < text.length := by
  induction text with
  | nil => exact absurd (List.infix_nil.mp h) hne
  | cons x rest ih =>
    by_cases hmatch : search <+: x :: rest
    · rw [replaceAll_matched hmatch,List.nil_append]
      have hle := @length_replaceAll_le α _ search [] hne (Nat.zero_le _) (rest.drop (search.length - 1))
      rw [List.length_drop] at hle
      rw [List.length_cons]
      omega
    · rw [replaceAll_unmatched hmatch,List.length_cons,List.length_cons]
      exact Nat.succ_lt_succ (ih ((List.infix_cons_iff.mp h).resolve_left hmatch))

/-- The distance to the first occurrence of the pattern. -/
def firstMatch (search : List α) : List α → Option ℕ
  | [] => none
  | x :: text => if search <+: x :: text then some 0 else (firstMatch search text).map (· + 1)

/-- The first occurrence splits the text, and the part before it is passed over. -/
theorem firstMatch_some (hsearch : search ≠ []) {text : List α} {distance : ℕ}
    (h : firstMatch search text = some distance) :
    ∃ before after, text = before ++ search ++ after ∧ before.length = distance ∧
      replaceAll search replacement text = before ++ replacement ++ replaceAll search replacement after := by
  induction text generalizing distance with
  | nil => simp [firstMatch] at h
  | cons x rest ih =>
    by_cases hmatch : search <+: x :: rest
    · obtain ⟨after,hafter⟩ := hmatch
      have hzero : distance = 0 := by simpa [firstMatch,← hafter] using h.symm
      refine ⟨[],after,by simp [hafter],by simp [hzero],?_⟩
      rw [← hafter,replaceAll_search_append hsearch]
      rfl
    · simp only [firstMatch,hmatch,if_false,Option.map_eq_some_iff] at h
      obtain ⟨later,hlater,rfl⟩ := h
      obtain ⟨before,after,hsplit,hlength,hreplaced⟩ := ih hlater
      refine ⟨x :: before,after,by simp [hsplit],by simp [hlength],?_⟩
      rw [replaceAll_unmatched hmatch,hreplaced]
      rfl

/-- No occurrence starts before the first one. -/
theorem firstMatch_least {text : List α} {distance : ℕ} (h : firstMatch search text = some distance) :
    ∀ k < distance, ¬ search <+: text.drop k := by
  induction text generalizing distance with
  | nil => simp [firstMatch] at h
  | cons x rest ih =>
    by_cases hmatch : search <+: x :: rest
    · have hzero : distance = 0 := by simpa [firstMatch,hmatch] using h.symm
      intro k hk
      omega
    · simp only [firstMatch,hmatch,if_false,Option.map_eq_some_iff] at h
      obtain ⟨later,hlater,rfl⟩ := h
      intro k hk
      cases k with
      | zero => exact hmatch
      | succ k => exact ih hlater k (by omega)

theorem firstMatch_eq_none {text : List α} (hsearch : search ≠ []) :
    firstMatch search text = none ↔ ¬ search <:+: text := by
  induction text with
  | nil => simp [firstMatch,hsearch]
  | cons x rest ih =>
    by_cases hmatch : search <+: x :: rest
    · simp [firstMatch,hmatch,hmatch.isInfix]
    · simp only [firstMatch,hmatch,if_false,Option.map_eq_none_iff,ih,List.infix_cons_iff,false_or]

theorem firstMatch_none {text : List α} (h : firstMatch search text = none) :
    replaceAll search replacement text = text := by
  induction text with
  | nil => exact replaceAll_nil
  | cons x rest ih =>
    by_cases hmatch : search <+: x :: rest
    · simp [firstMatch,hmatch] at h
    · simp only [firstMatch,hmatch,if_false,Option.map_eq_none_iff] at h
      rw [replaceAll_unmatched hmatch,ih h]

/-- Every leftmost occurrence is replaced once, and what follows it is treated alike. -/
inductive Replaced (search replacement : List α) : List α → List α → Prop where
  | untouched {text : List α} (h : ¬ search <:+: text) : Replaced search replacement text text
  | leftmost {before after result : List α}
      (h : ∀ k < before.length, ¬ search <+: (before ++ search ++ after).drop k)
      (hrest : Replaced search replacement after result) :
      Replaced search replacement (before ++ search ++ after) (before ++ replacement ++ result)

theorem replaced_replaceAll (hsearch : search ≠ []) (text : List α) :
    Replaced search replacement text (replaceAll search replacement text) := by
  induction hlength : text.length using Nat.strong_induction_on generalizing text with
  | _ n ih =>
    cases hfirst : firstMatch search text with
    | none =>
      rw [firstMatch_none hfirst]
      exact .untouched ((firstMatch_eq_none hsearch).mp hfirst)
    | some distance =>
      obtain ⟨before,after,hsplit,hbefore,hreplaced⟩ := @firstMatch_some _ _ _ replacement hsearch _ _ hfirst
      have hcount := congrArg List.length hsplit
      have hpos := List.length_pos_of_ne_nil hsearch
      simp only [List.length_append] at hcount
      have hrest := ih after.length (by omega) after rfl
      rw [hreplaced,hsplit]
      refine .leftmost ?_ hrest
      rw [← hsplit,hbefore]
      exact firstMatch_least hfirst

omit [DecidableEq α] in
/-- Two texts are cut alike at the first place of an element. -/
theorem append_cons_cut {x : α} {a a' b b' : List α} (ha : x ∉ a) (ha' : x ∉ a')
    (h : a ++ x :: b = a' ++ x :: b') : a = a' ∧ b = b' := by
  induction a generalizing a' with
  | nil =>
    cases a' with
    | nil => exact ⟨rfl,(List.cons.inj h).2⟩
    | cons y a' => exact absurd (List.cons.inj h).1 (List.ne_of_not_mem_cons ha')
  | cons y a ih =>
    cases a' with
    | nil => exact absurd (List.cons.inj h).1.symm (List.ne_of_not_mem_cons ha)
    | cons y' a' =>
      obtain ⟨hhead,htail⟩ := List.cons.inj h
      obtain ⟨hbefore,hafter⟩ := ih (List.not_mem_of_not_mem_cons ha) (List.not_mem_of_not_mem_cons ha') htail
      exact ⟨by rw [hhead,hbefore],hafter⟩

end Precizer.General
