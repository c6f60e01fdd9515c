import Mathlib.Logic.Function.Basic
import Mathlib.Tactic.Common

/-! # A cell rewritten by load, modify and store

Any number of calls load a cell, modify what they loaded and store the result back; in
between other steps leave it alone or store values of their own. A property of the stored value that the
modification neither creates nor destroys is lost exactly when a call stores what it
loaded before the property was there.
-/
namespace Precizer.General

/-- A call before its load, between its load and its store, and after its store. -/
inductive Call (V : Type*) where
  | idle
  | loaded (v : V)
  | stored
  deriving DecidableEq

structure Cell (V : Type*) where
  value : V
  call : ℕ → Call V

inductive CellStep (V : Type*) where
  | skip
  | assign (v : V)
  | load (i : ℕ)
  | store (i : ℕ)

namespace Cell

variable {V : Type*} (f : V → V)

def start (v : V) : Cell V := ⟨v,fun _ => .idle⟩

/-- One step; a call cannot load twice, nor store before it has loaded. -/
def step (s : Cell V) : CellStep V → Option (Cell V)
  | .skip => some s
  | .assign v => some { s with value := v }
  | .load i =>
    match s.call i with
    | .idle => some { s with call := Function.update s.call i (.loaded s.value) }
    | _ => none
  | .store i =>
    match s.call i with
    | .loaded v => some ⟨f v,Function.update s.call i .stored⟩
    | _ => none

def run (s : Cell V) : List (CellStep V) → Option (Cell V)
  | [] => some s
  | t :: rest => (s.step f t).bind fun s => s.run rest

theorem run_append (s : Cell V) (a b : List (CellStep V)) :
    s.run f (a ++ b) = (s.run f a).bind fun s => s.run f b := by
  induction a generalizing s with
  | nil => rfl
  | cons t rest ih =>
    change (s.step f t).bind _ = ((s.step f t).bind _).bind _
    rw [Option.bind_assoc]
    congr 1
    funext s'
    exact ih s'

variable {f} {Q : V → Prop}

/-- The property holds of the value and of everything a call still stores in the run. -/
structure Keeps (Q : V → Prop) (s : Cell V) (rest : List (CellStep V)) : Prop where
  value : Q s.value
  loaded : ∀ i v, s.call i = .loaded v → .store i ∈ rest → Q v

def AssignsOnly (Q : V → Prop) (steps : List (CellStep V)) : Prop := ∀ v, .assign v ∈ steps → Q v

theorem Keeps.step (hf : ∀ v, Q v → Q (f v)) {s s' : Cell V} {t : CellStep V} {rest : List (CellStep V)}
    (hassign : AssignsOnly Q (t :: rest)) (h : Keeps Q s (t :: rest)) (hstep : s.step f t = some s') :
    Keeps Q s' rest := by
  cases t with
  | skip =>
    cases hstep
    exact ⟨h.value,fun i v hi hmem => h.loaded i v hi (List.mem_cons_of_mem _ hmem)⟩
  | assign v =>
    cases hstep
    exact ⟨hassign v List.mem_cons_self,fun i v hi hmem => h.loaded i v hi (List.mem_cons_of_mem _ hmem)⟩
  | load i =>
    cases hcall : s.call i with
    | idle =>
      simp only [Cell.step,hcall,Option.some.injEq] at hstep
      subst hstep
      refine ⟨h.value,?_⟩
      intro j v hj hmem
      dsimp only at hj
      by_cases hij : j = i
      · subst hij
        rw [Function.update_self] at hj
        cases hj
        exact h.value
      · rw [Function.update_of_ne hij] at hj
        exact h.loaded j v hj (List.mem_cons_of_mem _ hmem)
    | loaded v => simp [Cell.step,hcall] at hstep
    | stored => simp [Cell.step,hcall] at hstep
  | store i =>
    cases hcall : s.call i with
    | idle => simp [Cell.step,hcall] at hstep
    | stored => simp [Cell.step,hcall] at hstep
    | loaded v =>
      simp only [Cell.step,hcall,Option.some.injEq] at hstep
      subst hstep
      refine ⟨hf v (h.loaded i v hcall List.mem_cons_self),?_⟩
      intro j w hj hmem
      dsimp only at hj
      by_cases hij : j = i
      · subst hij
        rw [Function.update_self] at hj
        cases hj
      · rw [Function.update_of_ne hij] at hj
        exact h.loaded j w hj (List.mem_cons_of_mem _ hmem)

theorem Keeps.run (hf : ∀ v, Q v → Q (f v)) {a b : List (CellStep V)} {s s' : Cell V}
    (hassign : AssignsOnly Q (a ++ b)) (h : Keeps Q s (a ++ b)) (hrun : s.run f a = some s') :
    Keeps Q s' b := by
  induction a generalizing s with
  | nil =>
    cases hrun
    exact h
  | cons t rest ih =>
    obtain ⟨s₁,hstep,hrest⟩ := Option.bind_eq_some_iff.mp hrun
    exact ih (fun v hv => hassign v (List.mem_cons_of_mem _ hv)) (h.step hf hassign hstep) hrest

theorem loaded_of_run {a : List (CellStep V)} {s s' : Cell V} {i : ℕ} {v : V}
    (hcall : s.call i = .loaded v) (hnot : .store i ∉ a) (hrun : s.run f a = some s') :
    s'.call i = .loaded v := by
  induction a generalizing s with
  | nil =>
    cases hrun
    exact hcall
  | cons t rest ih =>
    obtain ⟨s₁,hstep,hrest⟩ := Option.bind_eq_some_iff.mp hrun
    refine ih ?_ (fun hmem => hnot (List.mem_cons_of_mem _ hmem)) hrest
    cases t with
    | skip =>
      cases hstep
      exact hcall
    | assign w =>
      cases hstep
      exact hcall
    | load j =>
      have hij : i ≠ j := by
        rintro rfl
        simp [Cell.step,hcall] at hstep
      cases hj : s.call j with
      | idle =>
        simp only [Cell.step,hj,Option.some.injEq] at hstep
        subst hstep
        exact (Function.update_of_ne hij _ _).trans hcall
      | loaded w => simp [Cell.step,hj] at hstep
      | stored => simp [Cell.step,hj] at hstep
    | store j =>
      have hij : i ≠ j := by
        rintro rfl
        exact hnot List.mem_cons_self
      cases hj : s.call j with
      | idle => simp [Cell.step,hj] at hstep
      | stored => simp [Cell.step,hj] at hstep
      | loaded w =>
        simp only [Cell.step,hj,Option.some.injEq] at hstep
        subst hstep
        exact (Function.update_of_ne hij _ _).trans hcall

/-- From a value with the property, every later value has it exactly when no call stores a
value without it that it had loaded before. -/
theorem kept_iff (hf : ∀ v, Q (f v) ↔ Q v) {s s' : Cell V} {steps : List (CellStep V)}
    (hassign : AssignsOnly Q steps) (hvalue : Q s.value) (hrun : s.run f steps = some s') :
    (∀ a b t, steps = a ++ b → s.run f a = some t → Q t.value) ↔
      ∀ i v, s.call i = .loaded v → ¬ Q v → .store i ∉ steps := by
  constructor
  · intro hall i v hcall hbad hmem
    obtain ⟨a,b,hsplit,hfirst⟩ := List.eq_append_cons_of_mem hmem
    have hrun' := hrun
    rw [hsplit,run_append] at hrun'
    obtain ⟨t,ht,hrest⟩ := Option.bind_eq_some_iff.mp hrun'
    have hpending := loaded_of_run hcall hfirst ht
    have hstore : t.step f (.store i) = some ⟨f v,Function.update t.call i .stored⟩ := by
      simp [Cell.step,hpending]
    have hafter : s.run f (a ++ [.store i]) = some ⟨f v,Function.update t.call i .stored⟩ := by
      rw [run_append,ht]
      change (t.step f (.store i)).bind _ = _
      rw [hstore]
      rfl
    have hgood := hall (a ++ [.store i]) b _ (by rw [hsplit,List.append_assoc]; rfl) hafter
    exact hbad ((hf v).mp hgood)
  · intro hnone a b t hsplit ht
    subst hsplit
    have hkeeps : Keeps Q s (a ++ b) := by
      refine ⟨hvalue,?_⟩
      intro i v hcall hmem
      by_contra hbad
      exact hnone i v hcall hbad hmem
    exact (hkeeps.run (fun v h => (hf v).mpr h) hassign ht).value

end Cell
end Precizer.General
