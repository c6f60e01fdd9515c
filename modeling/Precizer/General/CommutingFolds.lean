import Mathlib.Tactic

/-! # Folds of commuting steps

An input that a later one overwrites may be left out of a fold, when the inputs between them do
not depend on it. Inputs that commute with all others may be moved behind them.
-/
namespace Precizer.General

variable {σ α : Type*} {step : σ → α → σ}

/-- The later input takes the place of the earlier one. -/
def Overwrites (step : σ → α → σ) (later earlier : α) : Prop := ∀ s, step (step s earlier) later = step s later

/-- The order of two inputs does not matter. -/
def Commutes (step : σ → α → σ) (a b : α) : Prop := ∀ s, step (step s a) b = step (step s b) a

theorem foldl_commutes {a : α} {inputs : List α} (h : ∀ b ∈ inputs, Commutes step a b) (s : σ) :
    inputs.foldl step (step s a) = step (inputs.foldl step s) a := by
  induction inputs generalizing s with
  | nil => rfl
  | cons b inputs ih =>
    rw [List.foldl_cons,List.foldl_cons,h b List.mem_cons_self s]
    exact ih (fun c hc => h c (List.mem_cons_of_mem b hc)) (step s b)

theorem foldl_overwritten {a : α} {inputs : List α} (h : ∀ b ∈ inputs, Overwrites step b a ∨ Commutes step a b)
    (hlater : ∃ b ∈ inputs, Overwrites step b a) (s : σ) : inputs.foldl step (step s a) = inputs.foldl step s := by
  induction inputs generalizing s with
  | nil =>
    obtain ⟨b,hb,-⟩ := hlater
    exact absurd hb List.not_mem_nil
  | cons b inputs ih =>
    rw [List.foldl_cons,List.foldl_cons]
    by_cases hfirst : Overwrites step b a
    · rw [hfirst s]
    · have hcommutes := (h b List.mem_cons_self).resolve_left hfirst
      rw [hcommutes s]
      refine ih (fun c hc => h c (List.mem_cons_of_mem b hc)) ?_ (step s b)
      obtain ⟨c,hc,hoverwrites⟩ := hlater
      rcases List.mem_cons.mp hc with rfl | hc
      · exact absurd hoverwrites hfirst
      · exact ⟨c,hc,hoverwrites⟩

theorem foldl_overwritten_all {early inputs : List α}
    (h : ∀ a ∈ early, (∀ b ∈ inputs, Overwrites step b a ∨ Commutes step a b) ∧ ∃ b ∈ inputs, Overwrites step b a) (s : σ) :
    inputs.foldl step (early.foldl step s) = inputs.foldl step s := by
  induction early generalizing s with
  | nil => rfl
  | cons a early ih =>
    obtain ⟨hothers,hlater⟩ := h a List.mem_cons_self
    rw [List.foldl_cons,ih (fun b hb => h b (List.mem_cons_of_mem a hb)),foldl_overwritten hothers hlater]

theorem foldl_partitioned (moved : α → Bool) {inputs : List α}
    (h : ∀ a ∈ inputs, ∀ b ∈ inputs, moved a = true → moved b = false → Commutes step a b) (s : σ) :
    inputs.foldl step s =
      (inputs.filter moved).foldl step ((inputs.filter fun a => !moved a).foldl step s) := by
  induction inputs generalizing s with
  | nil => rfl
  | cons a inputs ih =>
    have hrest := ih (fun b hb c hc => h b (List.mem_cons_of_mem a hb) c (List.mem_cons_of_mem a hc)) (step s a)
    rw [List.foldl_cons,hrest]
    cases hmoved : moved a with
    | false =>
      rw [List.filter_cons_of_neg (Bool.eq_false_iff.mp hmoved),List.filter_cons_of_pos (by rw [hmoved]; rfl),List.foldl_cons]
    | true =>
      rw [List.filter_cons_of_pos hmoved,List.filter_cons_of_neg (by rw [hmoved]; exact Bool.false_ne_true),List.foldl_cons]
      congr 1
      refine foldl_commutes (fun b hb => ?_) s
      obtain ⟨hmem,hkept⟩ := List.mem_filter.mp hb
      exact h a List.mem_cons_self b (List.mem_cons_of_mem a hmem) hmoved (by rwa [Bool.not_eq_true'] at hkept)

end Precizer.General
