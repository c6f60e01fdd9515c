import Precizer.Settings.FileVerdict

/-! # What a settings file decides

A file is accepted entry by entry, and a refused file is reported once, with its first line in
error. The settings after an accepted file are the ones that it declares.
-/
namespace Precizer.Settings
open General Logger

def blankSpace : Padding := ⟨[32],by decide,by decide⟩

def bareTail : Tail := ⟨Padding.none,none,fun h => absurd rfl h,fun text h => by cases h⟩

/-- `path = /m` with a comment. -/
def pathSetting : Setting where
  name := ascii "path"
  value := ascii "/m"
  before := blankSpace
  separator := equalsSign
  after := blankSpace
  tail := ⟨blankSpace,some (ascii " root"),fun _ => by decide,fun text h => by cases h; decide⟩
  name_ne_nil := by decide
  nameText := by decide
  name_trimmed := by decide
  isSeparator := .inl rfl
  value_inline := by decide
  value_trimmed := by decide
  value_plain := by decide

/-- `/n` on a line of its own, indented. -/
def pathContinuation : Continuation where
  indent := blankSpace
  value := ascii "/n"
  tail := bareTail
  indented := by decide
  value_ne_nil := by decide
  value_inline := by decide
  value_trimmed := by decide
  value_plain := by decide

/-- `dry-run:yes` -/
def dryRunSetting : Setting where
  name := ascii "dry-run"
  value := ascii "yes"
  before := Padding.none
  separator := colon
  after := Padding.none
  tail := bareTail
  name_ne_nil := by decide
  nameText := by decide
  name_trimmed := by decide
  isSeparator := .inr rfl
  value_inline := by decide
  value_trimmed := by decide
  value_plain := by decide

def rootsDocument : Document where
  items := [.setting pathSetting,.continuation pathContinuation,.setting dryRunSetting]
  marked := false
  terminated := true
  placed := ⟨rfl,trivial⟩
  fits := by decide
  fits_marked := by decide
  unmarked := by decide

example : rootsDocument.render = ascii "path = /m # root\n /n\ndry-run:yes\n" := by decide

/-- A file that can be opened is accepted if it is read to its end without a syntax error and every
entry on its own means something. A refusal is one diagnostic, which names the first such line. -/
theorem file_verdict (path : Text) (required : Bool) (file : Stream) (readError : Text) (closeError : Option Text)
    {s : ParseState} (hs : s.config.configFileErrorLine = -1) :
    let answer := readConfigFile path required (.opened file readError closeError) s
    let parser := (iniCalls {} file).1
    let calls := (iniCalls {} file).2
    (answer.success = true ↔
      (∀ call ∈ calls, call.Meaningful) ∧ parser.readFailed = false ∧ parser.error = 0 ∧ closeError = none) ∧
    (answer.success = true → answer.parse.diagnostics = s.diagnostics ∧
      answer.parse.config = (calls.filterMap Call.assignment).foldl assignEntry s.config) ∧
    (answer.success = false → ∃ message, answer.parse.diagnostics = s.diagnostics ++ [message]) ∧
    (∀ call, calls.find? (fun call => ¬call.Meaningful) = some call →
      ∃ text, answer.parse.diagnostics = s.diagnostics ++ [fileError call.lineno text]) ∧
    ((∀ call ∈ calls, call.Meaningful) → parser.readFailed = false → parser.error ≠ 0 →
      ∃ text, answer.parse.diagnostics = s.diagnostics ++ [fileError parser.error text]) := by
  intro answer parser calls
  cases hfind : calls.find? (fun call => ¬call.Meaningful) with
  | some call =>
    obtain ⟨hfalse,text,hreported⟩ := readConfigFile_refused path readError required closeError hs hfind
    have hmeaningless : ¬∀ call ∈ calls, call.Meaningful := by
      intro hall
      have hnot := List.find?_some hfind
      rw [decide_eq_true_iff] at hnot
      exact hnot (hall call (List.mem_of_find?_eq_some hfind))
    have hsuccess : answer.success = true → False := by
      intro h
      exact absurd (h.symm.trans hfalse) (fun heq => by cases heq)
    refine ⟨⟨fun h => (hsuccess h).elim,fun h => absurd h.1 hmeaningless⟩,fun h => (hsuccess h).elim,fun _ => ⟨_,hreported⟩,
      ?_,fun hall => absurd hall hmeaningless⟩
    intro call' heq
    cases heq
    exact ⟨text,hreported⟩
  | none =>
    have hall : ∀ call ∈ calls, call.Meaningful := by
      intro call hcall
      have hmeaningful := List.find?_eq_none.mp hfind call hcall
      rw [decide_eq_true_iff,not_not] at hmeaningful
      exact hmeaningful
    obtain ⟨context,hfailed,hdiagnostics,hconfig,hanswer⟩ := readConfigFile_meaningful path readError required closeError hs hall
    obtain ⟨hsuccess,hparse,hreport,hinvalid⟩ := finishConfigFile_cases path readError closeError parser hfailed
    rw [← hanswer] at hsuccess hparse hreport hinvalid
    refine ⟨⟨fun h => ⟨hall,hsuccess.mp h⟩,fun h => hsuccess.mpr h.2⟩,fun h => ?_,fun h => ?_,?_,fun _ hread herror => ?_⟩
    · have heq : answer.parse = context.parse := hparse h
      rw [heq]
      exact ⟨hdiagnostics,hconfig⟩
    · obtain ⟨message,heq⟩ := hreport h
      have heq : answer.parse = argpFailure context.parse message := heq
      rw [heq,argpFailure_diagnostics,hdiagnostics]
      exact ⟨message,rfl⟩
    · intro call heq
      cases heq
    · obtain ⟨text,heq⟩ := hinvalid hread herror
      have heq : answer.parse = argpFailure context.parse (fileError parser.error text) := heq
      rw [heq,argpFailure_diagnostics,hdiagnostics]
      exact ⟨text,rfl⟩

theorem file_verdict_roots :
    (readConfigFile [] true (.opened ⟨rootsDocument.render,false⟩ [] none) initConfig).success = true := by
  have hreads := reads_document rootsDocument
  have hall : ∀ call ∈ (iniCalls {} ⟨rootsDocument.render,false⟩).2, call.Meaningful := by
    rw [hreads.calls_eq]
    decide
  exact (file_verdict [] true ⟨rootsDocument.render,false⟩ [] none rfl).1.mpr ⟨hall,hreads.readFailed,hreads.error,rfl⟩

/-- An accepted document gives every setting the value that the document declares for it. -/
theorem document_settings (path readError : Text) (required : Bool) {s : ParseState}
    (hs : s.config.configFileErrorLine = -1) (d : Document) (h : ∀ call ∈ d.calls, call.Meaningful) :
    (readConfigFile path required (.opened ⟨d.render,false⟩ readError none) s).success = true ∧
      Declared (d.calls.filterMap Call.assignment) s.config
        (readConfigFile path required (.opened ⟨d.render,false⟩ readError none) s).parse.config := by
  obtain ⟨hsuccess,hconfig,-⟩ := readConfigFile_document path readError required hs d h
  rw [hconfig]
  exact ⟨hsuccess,declared_foldl (fileAssignment_calls d.calls) s.config⟩

theorem document_settings_roots :
    (readConfigFile [] true (.opened ⟨rootsDocument.render,false⟩ [] none) initConfig).success = true ∧
      Declared [(.path,some (ascii "/m")),(.path,some (ascii "/n")),(.dryRun,none)] initConfig.config
        (readConfigFile [] true (.opened ⟨rootsDocument.render,false⟩ [] none) initConfig).parse.config := by
  have hassignments : rootsDocument.calls.filterMap Call.assignment =
      [(.path,some (ascii "/m")),(.path,some (ascii "/n")),(.dryRun,none)] := by decide
  have hsettings := document_settings [] [] true (s := initConfig) rfl rootsDocument (by decide)
  rwa [hassignments] at hsettings

end Precizer.Settings
