import Mathlib.Data.List.Basic
import Mathlib.Tactic

/-! # Preorder walks that skip subtrees

A tree is listed in preorder, every node with its level. A walk that decides at a node to
skip what lies below it passes over the nodes that follow, up to the next node that is not
deeper. So a node is passed over exactly when one of its ancestors was skipped, also when
that ancestor was itself passed over.
-/
namespace Precizer.General

variable {α : Type} (level : α → ℕ) (skips : α → Prop)

/-- A node of the given level that comes next in the preorder lies below `d`. -/
def Above (listed : List α) (d : α) (n : ℕ) : Prop :=
  ∃ earlier later, listed = earlier ++ d :: later ∧ level d < n ∧ ∀ w ∈ later, level d < level w

/-- The next node is not deeper than the level below which the walk skips. -/
def reaches (below : Option ℕ) (n : ℕ) : Prop := ∀ l ∈ below, n ≤ l

instance (below : Option ℕ) (n : ℕ) : Decidable (reaches below n) := by
  unfold reaches
  infer_instance

variable [DecidablePred skips]

/-- The level below which the walk skips after the listed nodes. -/
def skipAfter : Option ℕ → List α → Option ℕ
  | below,[] => below
  | below,d :: rest =>
    if reaches below (level d) then skipAfter (if skips d then some (level d) else none) rest
    else skipAfter below rest

variable {level} {skips}

omit skips [DecidablePred skips] in
theorem above_cons {v d : α} {rest : List α} {n : ℕ} : Above level (v :: rest) d n ↔
    (v = d ∧ level d < n ∧ ∀ w ∈ rest, level d < level w) ∨ Above level rest d n := by
  constructor
  · rintro ⟨earlier,later,hlisted,hdeeper⟩
    cases earlier with
    | nil =>
      obtain ⟨rfl,rfl⟩ := List.cons.inj hlisted
      exact .inl ⟨rfl,hdeeper⟩
    | cons u earlier =>
      obtain ⟨-,hrest⟩ := List.cons.inj hlisted
      exact .inr ⟨earlier,later,hrest,hdeeper⟩
  · rintro (⟨rfl,hdeeper⟩ | ⟨earlier,later,rfl,hdeeper⟩)
    · exact ⟨[],rest,rfl,hdeeper⟩
    · exact ⟨v :: earlier,later,rfl,hdeeper⟩

omit skips [DecidablePred skips] in
/-- Lying below only depends on the levels. -/
theorem above_map {β : Type} {f : β → α} {listed : List β} {d : α} {n : ℕ} :
    Above level (listed.map f) d n ↔ ∃ e, f e = d ∧ Above (level ∘ f) listed e n := by
  constructor
  · rintro ⟨earlier,later,hlisted,hlt,hdeeper⟩
    obtain ⟨first,rest,rfl,rfl,hrest⟩ := List.map_eq_append_iff.mp hlisted
    obtain ⟨e,last,rfl,rfl,rfl⟩ := List.map_eq_cons_iff.mp hrest
    exact ⟨e,rfl,first,last,rfl,hlt,fun w hw => hdeeper _ (List.mem_map_of_mem hw)⟩
  · rintro ⟨e,rfl,earlier,later,rfl,hlt,hdeeper⟩
    refine ⟨earlier.map f,later.map f,by rw [List.map_append,List.map_cons],hlt,fun w hw => ?_⟩
    obtain ⟨u,hu,rfl⟩ := List.mem_map.mp hw
    exact hdeeper u hu

/-- The next node is passed over when it lies below the level skipped at first or below a
node that is skipped. -/
theorem not_reaches_skipAfter (listed : List α) (below : Option ℕ) (n : ℕ) :
    ¬ reaches (skipAfter level skips below listed) n ↔
      (∃ l ∈ below, l < n ∧ ∀ w ∈ listed, l < level w) ∨ ∃ d, Above level listed d n ∧ skips d := by
  induction listed generalizing below with
  | nil =>
    have hnone : ¬ ∃ d, Above level [] d n ∧ skips d := by
      rintro ⟨d,⟨earlier,later,hlisted,-⟩,-⟩
      cases earlier <;> cases hlisted
    unfold skipAfter reaches
    constructor
    · intro h
      push Not at h
      obtain ⟨l,hl,hlt⟩ := h
      exact .inl ⟨l,hl,hlt,fun w hw => by cases hw⟩
    · rintro (⟨l,hl,hlt,-⟩ | h) hreaches
      · have hle := hreaches l hl
        omega
      · exact hnone h
  | cons v rest ih =>
    unfold skipAfter
    split
    · rename_i hreaches
      rw [ih]
      constructor
      · rintro (⟨l,hl,hlt,hdeeper⟩ | ⟨d,habove,hskips⟩)
        · split at hl
          · rename_i hskips
            obtain rfl : level v = l := by simpa using hl
            exact .inr ⟨v,above_cons.mpr (.inl ⟨rfl,hlt,hdeeper⟩),hskips⟩
          · cases hl
        · exact .inr ⟨d,above_cons.mpr (.inr habove),hskips⟩
      · rintro (⟨l,hl,-,hdeeper⟩ | ⟨d,habove,hskips⟩)
        · have hle := hreaches l hl
          have hlt := hdeeper v List.mem_cons_self
          omega
        · rcases above_cons.mp habove with ⟨rfl,hlt,hdeeper⟩ | habove
          · exact .inl ⟨level v,by rw [if_pos hskips]; rfl,hlt,hdeeper⟩
          · exact .inr ⟨d,habove,hskips⟩
    · rename_i hpassed
      unfold reaches at hpassed
      push Not at hpassed
      obtain ⟨k,hk,hkv⟩ := hpassed
      rw [ih]
      constructor
      · rintro (⟨l,hl,hlt,hdeeper⟩ | ⟨d,habove,hskips⟩)
        · obtain rfl : k = l := Option.mem_unique hk hl
          refine .inl ⟨k,hl,hlt,fun w hw => ?_⟩
          rcases List.mem_cons.mp hw with rfl | hw
          · exact hkv
          · exact hdeeper w hw
        · exact .inr ⟨d,above_cons.mpr (.inr habove),hskips⟩
      · rintro (⟨l,hl,hlt,hdeeper⟩ | ⟨d,habove,hskips⟩)
        · exact .inl ⟨l,hl,hlt,fun w hw => hdeeper w (List.mem_cons_of_mem _ hw)⟩
        · rcases above_cons.mp habove with ⟨rfl,hlt,hdeeper⟩ | habove
          · exact .inl ⟨k,hk,hkv.trans hlt,fun w hw => hkv.trans (hdeeper w hw)⟩
          · exact .inr ⟨d,habove,hskips⟩

theorem reaches_skipAfter (listed : List α) (n : ℕ) :
    reaches (skipAfter level skips none listed) n ↔ ∀ d, Above level listed d n → ¬ skips d := by
  have h := @not_reaches_skipAfter α level skips _ listed none n
  constructor
  · intro hreaches d habove hskips
    exact h.mpr (.inr ⟨d,habove,hskips⟩) hreaches
  · intro hnone
    by_contra hpassed
    rcases h.mp hpassed with ⟨l,hl,-⟩ | ⟨d,habove,hskips⟩
    · cases hl
    · exact hnone d habove hskips

end Precizer.General
