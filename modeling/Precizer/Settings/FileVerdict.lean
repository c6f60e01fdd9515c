import Precizer.Settings.ArgumentRules

/-! # Verdicts on settings files

The entries of an open file decide together with its last line; what is done after the parsing
follows from them.
-/
namespace Precizer.Settings
open General Logger

variable (path readError : Text) (required : Bool) {file : Stream} (closeError : Option Text) {s : ParseState}

theorem readConfigFile_refused (hs : s.config.configFileErrorLine = -1) {call : Call}
    (h : (iniCalls {} file).2.find? (fun call => ¬call.Meaningful) = some call) :
    (readConfigFile path required (.opened file readError closeError) s).success = false ∧
      ∃ text, (readConfigFile path required (.opened file readError closeError) s).parse.diagnostics =
        s.diagnostics ++ [fileError call.lineno text] := by
  have hbetween : BetweenEntries { parse := s } := hs
  have hfold := stoppedFold_readConfigEntry hbetween (lineno_iniCalls file)
  rw [h] at hfold
  obtain ⟨-,hfailed,text,hdiagnostics⟩ := hfold
  have hstate := (iniParseStream_concludes readConfigEntry {} ({ parse := s } : ConfigFileReadContext) file rfl).state
  have hanswer : readConfigFile path required (.opened file readError closeError) s =
      ⟨false,(iniParseFile readConfigEntry { parse := s } file).2.hasEntries,
        (iniParseFile readConfigEntry { parse := s } file).2.parse⟩ := by
    refine if_pos ?_
    rw [iniParseFile,hstate]
    exact hfailed
  rw [hanswer]
  refine ⟨rfl,text,?_⟩
  rw [iniParseFile,hstate]
  exact hdiagnostics

theorem readConfigFile_meaningful (hs : s.config.configFileErrorLine = -1)
    (h : ∀ call ∈ (iniCalls {} file).2, call.Meaningful) :
    ∃ context : ConfigFileReadContext, context.failed = false ∧ context.parse.diagnostics = s.diagnostics ∧
      context.parse.config = ((iniCalls {} file).2.filterMap Call.assignment).foldl assignEntry s.config ∧
      readConfigFile path required (.opened file readError closeError) s =
        finishConfigFile path readError closeError (iniCalls {} file).1 context := by
  have hbetween : BetweenEntries { parse := s } := hs
  have hfold := stoppedFold_readConfigEntry hbetween (lineno_iniCalls file)
  have hnone : (iniCalls {} file).2.find? (fun call => ¬call.Meaningful) = none := by
    refine List.find?_eq_none.mpr fun call hcall => ?_
    rw [decide_eq_true_iff,not_not]
    exact h call hcall
  rw [hnone] at hfold
  obtain ⟨haccepted,hfailed,hconfig,hdiagnostics⟩ := hfold
  refine ⟨(stoppedFold readConfigEntry { parse := s } (iniCalls {} file).2).1,hfailed,hdiagnostics,hconfig,?_⟩
  have hconcludes := iniParseStream_concludes readConfigEntry {} ({ parse := s } : ConfigFileReadContext) file rfl
  have hpair : stoppedFold readConfigEntry ({ parse := s } : ConfigFileReadContext) (iniCalls {} file).2 =
      ((stoppedFold readConfigEntry { parse := s } (iniCalls {} file).2).1,none) := Prod.ext rfl haccepted
  rw [hpair] at hconcludes
  have hparsed : iniParseFile readConfigEntry { parse := s } file =
      ((iniCalls {} file).1,(stoppedFold readConfigEntry { parse := s } (iniCalls {} file).2).1) := hconcludes
  unfold readConfigFile
  dsimp only
  rw [hparsed]

variable (parser : Parser) {context : ConfigFileReadContext}

theorem finishConfigFile_cases (h : context.failed = false) :
    ((finishConfigFile path readError closeError parser context).success = true ↔
      parser.readFailed = false ∧ parser.error = 0 ∧ closeError = none) ∧
    ((finishConfigFile path readError closeError parser context).success = true →
      (finishConfigFile path readError closeError parser context).parse = context.parse) ∧
    ((finishConfigFile path readError closeError parser context).success = false →
      ∃ message, (finishConfigFile path readError closeError parser context).parse = argpFailure context.parse message) ∧
    (parser.readFailed = false → parser.error ≠ 0 → ∃ text,
      (finishConfigFile path readError closeError parser context).parse = argpFailure context.parse (fileError parser.error text)) := by
  unfold finishConfigFile
  rw [h,if_neg Bool.false_ne_true]
  cases hread : parser.readFailed with
  | true =>
    rw [if_pos rfl]
    simp
  | false =>
    rw [if_neg Bool.false_ne_true]
    by_cases herror : parser.error = 0
    · rw [if_neg (not_not.mpr herror)]
      cases closeError <;> simp [herror]
    · rw [if_pos herror]
      refine ⟨by simp [herror],by simp,by simp,?_⟩
      exact fun _ _ => ⟨_,rfl⟩

theorem readConfigFile_document (hs : s.config.configFileErrorLine = -1)
    (d : Document) (h : ∀ call ∈ d.calls, call.Meaningful) :
    (readConfigFile path required (.opened ⟨d.render,false⟩ readError none) s).success = true ∧
      (readConfigFile path required (.opened ⟨d.render,false⟩ readError none) s).parse.config =
        (d.calls.filterMap Call.assignment).foldl assignEntry s.config ∧
      (readConfigFile path required (.opened ⟨d.render,false⟩ readError none) s).parse.diagnostics = s.diagnostics := by
  have hreads := reads_document d
  have hall : ∀ call ∈ (iniCalls {} ⟨d.render,false⟩).2, call.Meaningful := by
    rw [hreads.calls_eq]
    exact h
  obtain ⟨context,hfailed,hdiagnostics,hconfig,hanswer⟩ :=
    readConfigFile_meaningful path readError required none hs hall
  obtain ⟨hsuccess,hparse,-,-⟩ := finishConfigFile_cases path readError none (iniCalls {} ⟨d.render,false⟩).1 hfailed
  have htrue := hsuccess.mpr ⟨hreads.readFailed,hreads.error,rfl⟩
  rw [hanswer]
  refine ⟨htrue,?_,?_⟩
  · rw [hparse htrue,hconfig,hreads.calls_eq]
  · rw [hparse htrue,hdiagnostics]

theorem fileAssignment_calls (calls : List Call) : ∀ a ∈ calls.filterMap Call.assignment, FileAssignment a := by
  intro a ha
  obtain ⟨call,-,hassignment⟩ := List.mem_filterMap.mp ha
  obtain ⟨entry,-,hentry⟩ := Option.bind_eq_some_iff.mp hassignment
  exact fileAssignment_of_entry hentry

end Precizer.Settings
