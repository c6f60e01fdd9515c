import Precizer.Settings.Ini

/-! # Texts of settings files

A text that holds neither a separator nor a comment is found whole, up to the separator or the
comment that follows it; what is found never holds one. Spaces around a value are not part of it.
-/
namespace Precizer.Settings

/-- No separator, and no `#` after a space; `wasSpace` tells whether a space stands before. -/
def Plain (chars : Text) : Bool → Text → Prop
  | _, [] => True
  | wasSpace, c :: s => c ∉ chars ∧ ¬(wasSpace = true ∧ c = numberSign) ∧ Plain chars (isSpace c) s

instance decidablePlain (chars : Text) : (wasSpace : Bool) → (s : Text) → Decidable (Plain chars wasSpace s)
  | _, [] => isTrue trivial
  | _, c :: s =>
    haveI := decidablePlain chars (isSpace c) s
    inferInstanceAs (Decidable (_ ∧ _ ∧ _))

def spaceAfter : Bool → Text → Bool
  | wasSpace, [] => wasSpace
  | _, c :: s => spaceAfter (isSpace c) s

structure Trimmed (s : Text) : Prop where
  first : ∀ c ∈ s.head?, isSpace c = false
  last : ∀ c ∈ s.getLast?, isSpace c = false

/-- The text stays on its line. -/
structure Inline (s : Text) : Prop where
  noTerminator : 0 ∉ s
  noNewline : newline ∉ s

def AllSpace (s : Text) : Prop := ∀ c ∈ s, isSpace c = true

instance : DecidablePred AllSpace := fun s => decidable_of_iff (s.all isSpace = true) List.all_eq_true

instance : DecidablePred Inline := fun s =>
  decidable_of_iff (0 ∉ s ∧ newline ∉ s) ⟨fun h => ⟨h.1,h.2⟩,fun h => ⟨h.noTerminator,h.noNewline⟩⟩

theorem notSpace_iff (bound : Option UInt8) : bound.all (fun c => !isSpace c) = true ↔ ∀ c ∈ bound, isSpace c = false := by
  rw [Option.all_eq_true]
  exact forall₂_congr fun c _ => by rw [Bool.not_eq_true']

instance : DecidablePred Trimmed := fun s =>
  decidable_of_iff (s.head?.all (fun c => !isSpace c) = true ∧ s.getLast?.all (fun c => !isSpace c) = true)
    ⟨fun h => ⟨(notSpace_iff _).mp h.1,(notSpace_iff _).mp h.2⟩,
      fun h => ⟨(notSpace_iff _).mpr h.first,(notSpace_iff _).mpr h.last⟩⟩

theorem Plain.append {chars : Text} {wasSpace : Bool} {s t : Text} :
    Plain chars wasSpace (s ++ t) ↔ Plain chars wasSpace s ∧ Plain chars (spaceAfter wasSpace s) t := by
  induction s generalizing wasSpace with
  | nil => exact ⟨fun h => ⟨trivial,h⟩,fun h => h.2⟩
  | cons c s ih =>
    rw [List.cons_append,Plain,ih,Plain,spaceAfter]
    tauto

theorem spaceAfter_append (wasSpace : Bool) (s t : Text) :
    spaceAfter wasSpace (s ++ t) = spaceAfter (spaceAfter wasSpace s) t := by
  induction s generalizing wasSpace with
  | nil => rfl
  | cons c s ih => exact ih (isSpace c)

theorem spaceAfter_concat {c : UInt8} (h : isSpace c = true) (wasSpace : Bool) (s : Text) :
    spaceAfter wasSpace (s ++ [c]) = true := by
  rw [spaceAfter_append]
  exact h

theorem spaceAfter_allSpace {s : Text} (h : AllSpace s) (hne : s ≠ []) (wasSpace : Bool) : spaceAfter wasSpace s = true := by
  rw [← List.dropLast_append_getLast hne]
  exact spaceAfter_concat (h _ (List.getLast_mem hne)) _ _

theorem Plain.spaces {chars s : Text} (hspace : AllSpace s) (hchars : ∀ c ∈ chars, isSpace c = false) (wasSpace : Bool) :
    Plain chars wasSpace s := by
  induction s generalizing wasSpace with
  | nil => trivial
  | cons c s ih =>
    have hc : isSpace c = true := hspace c List.mem_cons_self
    refine ⟨?_,?_,ih (fun d hd => hspace d (List.mem_cons_of_mem c hd)) _⟩
    · intro hmem
      rw [hchars c hmem] at hc
      cases hc
    · rintro ⟨-,rfl⟩
      cases hc

theorem Plain.weaken {chars s : Text} (h : Plain chars true s) (wasSpace : Bool) : Plain chars wasSpace s := by
  cases s with
  | nil => trivial
  | cons c s => exact ⟨h.1,fun hcomment => h.2.1 ⟨rfl,hcomment.2⟩,h.2.2⟩

theorem find_append (chars : Text) (wasSpace : Bool) (s : Text) :
    (iniFindCharsOrComment chars wasSpace s).1 ++ (iniFindCharsOrComment chars wasSpace s).2 = s := by
  fun_induction iniFindCharsOrComment chars wasSpace s with
  | case1 => rfl
  | case2 => rfl
  | case3 wasSpace c s _ ih => rw [List.cons_append,ih]

theorem find_plain (chars : Text) (wasSpace : Bool) (s : Text) :
    Plain chars wasSpace (iniFindCharsOrComment chars wasSpace s).1 := by
  fun_induction iniFindCharsOrComment chars wasSpace s with
  | case1 => trivial
  | case2 => trivial
  | case3 wasSpace c s h ih => exact ⟨fun hmem => h (.inl hmem),fun hcomment => h (.inr hcomment),ih⟩

theorem find_of_plain {chars : Text} {wasSpace : Bool} {s : Text} (h : Plain chars wasSpace s) :
    iniFindCharsOrComment chars wasSpace s = (s,[]) := by
  induction s generalizing wasSpace with
  | nil => rfl
  | cons c s ih =>
    rw [iniFindCharsOrComment,if_neg (not_or_intro h.1 h.2.1),ih h.2.2]

theorem find_of_plain_append {chars : Text} {wasSpace : Bool} {s : Text} (h : Plain chars wasSpace s) {c : UInt8}
    (hc : c ∈ chars ∨ (spaceAfter wasSpace s = true ∧ c = numberSign)) (rest : Text) :
    iniFindCharsOrComment chars wasSpace (s ++ c :: rest) = (s,c :: rest) := by
  induction s generalizing wasSpace with
  | nil => exact if_pos hc
  | cons d s ih =>
    rw [List.cons_append,iniFindCharsOrComment,if_neg (not_or_intro h.1 h.2.1),ih h.2.2 hc]

theorem head_of_start {s t : Text} (h : s <+: t) {c : UInt8} (hc : c ∈ s.head?) : c ∈ t.head? := by
  obtain ⟨rest,rfl⟩ := h
  rw [Option.mem_def] at hc
  rw [List.head?_append,hc]
  rfl

theorem lskip_append_spaces {s : Text} (h : AllSpace s) (t : Text) : iniLskip (s ++ t) = iniLskip t :=
  List.dropWhile_append_of_pos h

theorem rstrip_append_spaces {t : Text} (h : AllSpace t) (s : Text) : iniRstrip (s ++ t) = iniRstrip s := by
  unfold iniRstrip List.rdropWhile
  rw [List.reverse_append,List.dropWhile_append_of_pos]
  intro c hc
  exact h c (List.mem_reverse.mp hc)

theorem rstrip_split (s : Text) : ∃ spaces, AllSpace spaces ∧ s = iniRstrip s ++ spaces := by
  refine ⟨s.rtakeWhile isSpace,?_,?_⟩
  · intro c hc
    exact List.mem_rtakeWhile_imp hc
  · exact (List.rdropWhile_append_rtakeWhile).symm

theorem lskip_split (s : Text) : ∃ spaces, AllSpace spaces ∧ s = spaces ++ iniLskip s := by
  refine ⟨s.takeWhile isSpace,?_,(List.takeWhile_append_dropWhile).symm⟩
  intro c hc
  exact List.mem_takeWhile_imp hc

theorem rstrip_of_last {s : Text} (h : ∀ c ∈ s.getLast?, isSpace c = false) : iniRstrip s = s := by
  refine (List.rdropWhile_eq_self_iff).mpr fun hne => ?_
  rw [h _ (List.getLast?_eq_some_getLast hne)]
  exact Bool.false_ne_true

theorem lskip_of_first {s : Text} (h : ∀ c ∈ s.head?, isSpace c = false) : iniLskip s = s := by
  cases s with
  | nil => rfl
  | cons c s => exact List.dropWhile_cons_of_neg (by rw [h c rfl]; exact Bool.false_ne_true)

/-- Nothing before a character that is not a space is stripped. -/
theorem rstrip_append_cons {c : UInt8} (h : isSpace c = false) (s t : Text) :
    iniRstrip (s ++ c :: t) = s ++ c :: iniRstrip t := by
  obtain ⟨spaces,hspaces,heq⟩ := rstrip_split t
  have hsplit : s ++ c :: t = (s ++ c :: iniRstrip t) ++ spaces := by
    rw [List.append_assoc,List.cons_append,← heq]
  rw [hsplit,rstrip_append_spaces hspaces]
  apply rstrip_of_last
  intro d hd
  cases hlast : iniRstrip t with
  | nil =>
    rw [hlast] at hd
    simp only [List.getLast?_append,List.getLast?_singleton,Option.some_or,Option.mem_some_iff] at hd
    exact hd ▸ h
  | cons e u =>
    have hmem : d ∈ (iniRstrip t).getLast? := by
      rw [hlast] at hd ⊢
      simpa using hd
    have hdrop := List.rdropWhile_last_not isSpace t (by rw [← iniRstrip,hlast]; exact List.cons_ne_nil e u)
    rw [List.getLast?_eq_some_getLast (by rw [hlast]; exact List.cons_ne_nil e u)] at hmem
    cases hmem
    exact Bool.eq_false_iff.mpr hdrop

theorem last_rstrip (s : Text) : ∀ c ∈ (iniRstrip s).getLast?, isSpace c = false := by
  intro c hc
  have hne : iniRstrip s ≠ [] := by
    intro hnil
    rw [hnil] at hc
    cases hc
  rw [List.getLast?_eq_some_getLast hne] at hc
  cases hc
  exact Bool.eq_false_iff.mpr (List.rdropWhile_last_not isSpace s hne)

theorem first_lskip (s : Text) : ∀ c ∈ (iniLskip s).head?, isSpace c = false := by
  intro c hc
  have hne : iniLskip s ≠ [] := by
    intro hnil
    rw [hnil] at hc
    cases hc
  rw [List.head?_eq_some_head hne] at hc
  cases hc
  exact List.head_dropWhile_not isSpace hne

end Precizer.Settings
