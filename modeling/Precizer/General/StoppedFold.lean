import Mathlib.Tactic

/-! # Folds that stop

A step may refuse its input; the first refused input ends the fold, with the state that the
refusing step left. What every step preserves, the whole fold preserves, and steps that are
accepted and simulate others make the fold simulate theirs.
-/
namespace Precizer.General

variable {σ τ α : Type*}

/-- The state after the inputs and the input that was refused. -/
def stoppedFold (step : σ → α → σ × Bool) (s : σ) : List α → σ × Option α
  | [] => (s,none)
  | a :: inputs => if (step s a).2 then stoppedFold step (step s a).1 inputs else ((step s a).1,some a)

@[simp] theorem stoppedFold_nil (step : σ → α → σ × Bool) (s : σ) : stoppedFold step s [] = (s,none) := rfl

theorem stoppedFold_accepted {step : σ → α → σ × Bool} {s : σ} {a : α} (h : (step s a).2 = true) (inputs : List α) :
    stoppedFold step s (a :: inputs) = stoppedFold step (step s a).1 inputs := by
  rw [stoppedFold,if_pos h]

theorem stoppedFold_refused {step : σ → α → σ × Bool} {s : σ} {a : α} (h : (step s a).2 = false) (inputs : List α) :
    stoppedFold step s (a :: inputs) = ((step s a).1,some a) := by
  rw [stoppedFold,h,if_neg Bool.false_ne_true]

theorem stoppedFold_cons_accepted {step : σ → α → σ × Bool} {s : σ} {a : α} {inputs : List α}
    (h : (stoppedFold step s (a :: inputs)).2 = none) :
    (step s a).2 = true ∧ stoppedFold step s (a :: inputs) = stoppedFold step (step s a).1 inputs := by
  cases haccepted : (step s a).2 with
  | true => exact ⟨rfl,stoppedFold_accepted haccepted inputs⟩
  | false =>
    rw [stoppedFold_refused haccepted] at h
    cases h

theorem stoppedFold_append {step : σ → α → σ × Bool} {s : σ} {first : List α}
    (h : (stoppedFold step s first).2 = none) (second : List α) :
    stoppedFold step s (first ++ second) = stoppedFold step (stoppedFold step s first).1 second := by
  induction first generalizing s with
  | nil => rfl
  | cons a first ih =>
    obtain ⟨haccepted,heq⟩ := stoppedFold_cons_accepted h
    rw [heq] at h
    rw [List.cons_append,stoppedFold_accepted haccepted,heq,ih h]

theorem stoppedFold_append_accepted {step : σ → α → σ × Bool} {s : σ} {first second : List α}
    (h : (stoppedFold step s (first ++ second)).2 = none) :
    (stoppedFold step s first).2 = none ∧ (stoppedFold step (stoppedFold step s first).1 second).2 = none ∧
      (stoppedFold step s (first ++ second)).1 = (stoppedFold step (stoppedFold step s first).1 second).1 := by
  induction first generalizing s with
  | nil => exact ⟨rfl,h,rfl⟩
  | cons a first ih =>
    rw [List.cons_append] at h ⊢
    obtain ⟨haccepted,heq⟩ := stoppedFold_cons_accepted h
    rw [heq] at h
    rw [stoppedFold_accepted haccepted,stoppedFold_accepted haccepted]
    exact ih h

/-- A refused input stands after an accepted part. -/
theorem stoppedFold_split {step : σ → α → σ × Bool} {s : σ} {inputs : List α} {a : α}
    (h : (stoppedFold step s inputs).2 = some a) :
    ∃ first second, inputs = first ++ a :: second ∧ (stoppedFold step s first).2 = none ∧
      stoppedFold step s inputs = ((step (stoppedFold step s first).1 a).1,some a) ∧
      (step (stoppedFold step s first).1 a).2 = false := by
  induction inputs generalizing s with
  | nil => cases h
  | cons b inputs ih =>
    cases haccepted : (step s b).2 with
    | false =>
      rw [stoppedFold_refused haccepted] at h
      cases h
      exact ⟨[],inputs,rfl,rfl,stoppedFold_refused haccepted inputs,haccepted⟩
    | true =>
      rw [stoppedFold_accepted haccepted] at h ⊢
      obtain ⟨first,second,rfl,hfirst,heq,hrefused⟩ := ih h
      refine ⟨b :: first,second,rfl,?_,?_,?_⟩
      · rw [stoppedFold_accepted haccepted,hfirst]
      · rw [heq,stoppedFold_accepted haccepted]
      · rw [stoppedFold_accepted haccepted,hrefused]

theorem stoppedFold_preserves {step : σ → α → σ × Bool} {P : σ → Prop} {inputs : List α}
    (hstep : ∀ s, ∀ a ∈ inputs, P s → P (step s a).1) {s : σ} (hs : P s) : P (stoppedFold step s inputs).1 := by
  induction inputs generalizing s with
  | nil => exact hs
  | cons a inputs ih =>
    have hnext := hstep s a List.mem_cons_self hs
    cases haccepted : (step s a).2 with
    | false => rwa [stoppedFold_refused haccepted]
    | true =>
      rw [stoppedFold_accepted haccepted]
      exact ih (fun s b hb => hstep s b (List.mem_cons_of_mem a hb)) hnext

theorem stoppedFold_simulates {step : σ → α → σ × Bool} {act : τ → α → τ} {R : σ → τ → Prop} {inputs : List α}
    (hstep : ∀ s t, ∀ a ∈ inputs, R s t → (step s a).2 = true ∧ R (step s a).1 (act t a)) {s : σ} {t : τ} (hs : R s t) :
    (stoppedFold step s inputs).2 = none ∧ R (stoppedFold step s inputs).1 (inputs.foldl act t) := by
  induction inputs generalizing s t with
  | nil => exact ⟨rfl,hs⟩
  | cons a inputs ih =>
    obtain ⟨haccepted,hnext⟩ := hstep s t a List.mem_cons_self hs
    rw [stoppedFold_accepted haccepted,List.foldl_cons]
    exact ih (fun s t b hb => hstep s t b (List.mem_cons_of_mem a hb)) hnext

theorem foldl_last {step : σ → α → σ} {part : σ → τ} {written : α → Option τ} {inputs : List α}
    (hstep : ∀ s, ∀ a ∈ inputs, part (step s a) = (written a).getD (part s)) (s : σ) :
    part (inputs.foldl step s) = ((inputs.filterMap written).getLast?).getD (part s) := by
  induction inputs generalizing s with
  | nil => rfl
  | cons a inputs ih =>
    rw [List.foldl_cons,ih (fun s b hb => hstep s b (List.mem_cons_of_mem a hb)),hstep s a List.mem_cons_self]
    cases hwritten : written a with
    | none => rw [List.filterMap_cons_none hwritten,Option.getD_none]
    | some new =>
      rw [List.filterMap_cons_some hwritten,Option.getD_some,List.getLast?_cons]
      rfl

theorem foldl_collected {step : σ → α → σ} {part : σ → List τ} {added : α → List τ} {inputs : List α}
    (hstep : ∀ s, ∀ a ∈ inputs, part (step s a) = part s ++ added a) (s : σ) :
    part (inputs.foldl step s) = part s ++ inputs.flatMap added := by
  induction inputs generalizing s with
  | nil => rw [List.flatMap_nil,List.append_nil]; rfl
  | cons a inputs ih =>
    rw [List.foldl_cons,ih (fun s b hb => hstep s b (List.mem_cons_of_mem a hb)),hstep s a List.mem_cons_self,
      List.flatMap_cons,List.append_assoc]

theorem foldl_switched {step : σ → α → σ} {part : σ → Bool} {switches : α → Bool} {inputs : List α}
    (hstep : ∀ s, ∀ a ∈ inputs, part (step s a) = (part s || switches a)) (s : σ) :
    part (inputs.foldl step s) = (part s || inputs.any switches) := by
  induction inputs generalizing s with
  | nil => rw [List.any_nil,Bool.or_false]; rfl
  | cons a inputs ih =>
    rw [List.foldl_cons,ih (fun s b hb => hstep s b (List.mem_cons_of_mem a hb)),hstep s a List.mem_cons_self,
      List.any_cons,Bool.or_assoc]

end Precizer.General
