import Precizer.Pipeline.Run
import Precizer.Database.CleanupRules

/-! # Properties of runs and histories

A stable property survives a run when the save points of the files it meets and the
deletions of its cleanup keep it, and a history when it survives every run.
-/
namespace Precizer.Pipeline
open General Rational Traversal Database

/-- The regular files the content pass of the run meets. -/
def runMet (r : RunScript) (s : Session) : List (Visit × Pass) :=
  if r.before.skip then [] else passMet r.config r.pass s

/-- The deletion of a row the cleanup may delete keeps the property. -/
def DeletionsKeep (P : List Event → FilesTable → Prop) (c : Config) : Prop :=
  ∀ access (e : Entry RelativePath FileColumns) (start t : FilesTable) log, Deletable c access e.key →
    e ∈ start.rows → t.rows ⊆ start.rows → P log t → P log (t.erase e.ident)

variable {P : List Event → FilesTable → Prop}

theorem runFileList_always (hP : Store.Stable P) {r : RunScript} {s : Session}
    (hkeep : ∀ m ∈ runMet r s, m.2.session.Always P → SavesKeep P r.config m.1 m.2) (h : s.Always P) :
    (runFileList r s).session.Always P := by
  unfold runFileList
  split
  · exact h
  · rename_i hskip
    rw [runMet,if_neg hskip] at hkeep
    exact fileList_always hP r.pass h hkeep

theorem runCleanup_always (hP : Store.Stable P) {r : RunScript} {st : RunState}
    (hdelete : DeletionsKeep P r.config) (h : st.session.Always P) :
    (runCleanup r st).session.Always P := by
  unfold runCleanup
  split
  · exact h
  · refine dbDeleteMissingMetadata_always hP h ?_
    intro accessOf e _ he hdeletable log t hsub hPt
    exact hdelete (accessOf e.key) e st.session.table t log hdeletable he hsub hPt

theorem runProgram_always (hP : Store.Stable P) {r : RunScript} {s : Session}
    (hkeep : ∀ m ∈ runMet r s, m.2.session.Always P → SavesKeep P r.config m.1 m.2)
    (hdelete : DeletionsKeep P r.config) (h : s.Always P) : (runProgram r s).session.Always P :=
  runCleanup_always hP hdelete (runFileList_always hP hkeep h)

theorem openSession_always {t : FilesTable} {log : List Event} (h : P log t) :
    (openSession t log).Always P := Store.always_opened h

theorem History.always {allowed : RunScript → FilesTable → List Event → Prop} {start t : FilesTable}
    {log : List Event} (hstart : P [] start)
    (hrun : ∀ r t log, allowed r t log → P log t → (runFrom r t log).session.Always P)
    (h : History allowed start t log) : P log t := by
  induction h with
  | start => exact hstart
  | run h r hallowed hdisk ih => exact (hrun r _ _ hallowed ih).durable _ hdisk

end Precizer.Pipeline
