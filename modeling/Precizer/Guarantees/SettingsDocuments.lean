import Precizer.Settings.ConfigFile

/-! # Reading settings files

A written document is read back as what its author meant, and whatever a file holds, a handler
is given only texts that fit the arrays they are copied to.
-/
namespace Precizer.Settings
open General

/-- Reading a document feeds the handler the calls that the document means, in order; the first
refused one is the error. -/
theorem document_read_back {σ : Type*} (handler : Handler σ) (user : σ) (d : Document) :
    match stoppedFold handler user d.calls with
    | (after,none) => (iniParseFile handler user ⟨d.render,false⟩).1.error = 0 ∧
        (iniParseFile handler user ⟨d.render,false⟩).1.readFailed = false ∧
        (iniParseFile handler user ⟨d.render,false⟩).2 = after
    | (after,some call) => (iniParseFile handler user ⟨d.render,false⟩).1.error = call.lineno ∧
        (iniParseFile handler user ⟨d.render,false⟩).2 = after := by
  have hconcludes := iniParseStream_concludes handler {} user ⟨d.render,false⟩ rfl
  have hreads := reads_document d
  rw [hreads.calls_eq] at hconcludes
  cases hfold : stoppedFold handler user d.calls with
  | mk after refused =>
    rw [hfold] at hconcludes
    cases refused with
    | none =>
      have hresult : iniParseFile handler user ⟨d.render,false⟩ = ((iniCalls {} ⟨d.render,false⟩).1,after) := hconcludes
      rw [hresult]
      exact ⟨hreads.error,hreads.readFailed,rfl⟩
    | some call => exact hconcludes

theorem length_unquote {value text : Text} (h : unquote value = some text) : text.length ≤ value.length := by
  unfold unquote at h
  split at h
  · cases h
    exact le_rfl
  · split at h
    · split at h
      · cases h
        rw [List.length_dropLast,List.length_cons]
        omega
      · cases h
    · cases h
      exact le_rfl

/-- Whatever a file holds and whatever the handler does, the handler is given well-formed texts
from later and later lines, and an unquoted value fits its array with the terminator. -/
theorem handler_texts_fit (file : Stream) :
    (∀ call ∈ (iniCalls {} file).2, call.WellFormed) ∧
      (iniCalls {} file).2.Pairwise (fun call later => call.lineno < later.lineno) ∧
      ((iniCalls {} file).1.error ≠ 0 → ∀ call ∈ (iniCalls {} file).2, call.lineno ≤ (iniCalls {} file).1.error) ∧
      (∀ call ∈ (iniCalls {} file).2, ∀ name value text, call.entry = some (name,value) → unquote value = some text →
        text.length + 1 ≤ iniMaxLine) ∧
      ∀ {σ : Type} (handler : Handler σ) (user : σ),
        Concludes (iniCalls {} file).1 (stoppedFold handler user (iniCalls {} file).2) (iniParseFile handler user file) := by
  have hwell := wellFormed_iniCalls rfl sound_start file
  obtain ⟨hincreasing,-,hlast⟩ := iniCalls_increasing {} file rfl
  refine ⟨hwell,hincreasing,fun herror => (hlast herror).2,?_,?_⟩
  · intro call hcall name value text hentry hunquote
    have hfits := ((hwell call hcall).value name value hentry).fits
    have hshorter := length_unquote hunquote
    omega
  · intro σ handler user
    exact iniParseStream_concludes handler {} user file rfl

end Precizer.Settings
