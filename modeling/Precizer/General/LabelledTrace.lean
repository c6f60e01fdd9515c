import Mathlib.Data.List.Basic

/-! # Traces with labels

A step may leave labels behind, and a trace collects them in order. What every step keeps, given
the labels before it, holds at the end of a trace.
-/
namespace Precizer.General

variable {S L : Type*} {step : S → List L → S → Prop} {s s' s'' : S} {labels added : List L}

/-- Any number of steps, with all their labels. -/
inductive LabelledTrace (step : S → List L → S → Prop) (s : S) : List L → S → Prop where
  | refl : LabelledTrace step s [] s
  | tail {labels added : List L} {s' s'' : S} (h : LabelledTrace step s labels s') (hstep : step s' added s'') :
      LabelledTrace step s (labels ++ added) s''

namespace LabelledTrace

theorem single (h : step s labels s') : LabelledTrace step s labels s' := by
  have hone := (@LabelledTrace.refl S L step s).tail h
  rwa [List.nil_append] at hone

theorem silent (h : LabelledTrace step s labels s') (hstep : step s' [] s'') : LabelledTrace step s labels s'' := by
  have hlonger := h.tail hstep
  rwa [List.append_nil] at hlonger

theorem trans (h : LabelledTrace step s labels s') (h' : LabelledTrace step s' added s'') :
    LabelledTrace step s (labels ++ added) s'' := by
  induction h' with
  | refl => rwa [List.append_nil]
  | tail h' hstep ih =>
    rw [← List.append_assoc]
    exact ih.tail hstep

theorem keeps {P : List L → S → Prop}
    (hstep : ∀ before s added s', step s added s' → P before s → P (before ++ added) s') {before : List L}
    (h : LabelledTrace step s labels s') (hs : P before s) : P (before ++ labels) s' := by
  induction h with
  | refl => rwa [List.append_nil]
  | tail h hlast ih =>
    rw [← List.append_assoc]
    exact hstep _ _ _ _ hlast ih

end LabelledTrace
end Precizer.General
