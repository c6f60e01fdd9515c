import Precizer.Pipeline.RunRules

/-! # The state a partial hash is resumed from

A row of a file that was constant during each run either holds the context of a prefix of
the content, together with the length of that prefix, or the digest of the whole content.
The invariant ties every row to a file that was met with the row's metadata.
-/
namespace Precizer.Guarantees
open General Rational Digest Database Traversal Pipeline

/-- Two contexts that no later call tells apart: equal but for unused bytes of the buffer. -/
def SameHash (md md' : SHA512Context) : Prop :=
  md.length = md'.length ∧ md.state = md'.state ∧ md.curlen = md'.curlen ∧ md.pending = md'.pending

/-- The columns resume the content after its first `k` bytes. -/
structure ResumesAt (content : List UInt8) (columns : FileColumns) (k : ℕ) (context : SHA512Context) :
    Prop where
  positive : 0 < k
  within : k ≤ content.length
  offset : columns.offset = some k
  sha512 : columns.sha512 = none
  mdContext : columns.mdContext = some context
  absorbed : Streamed context (content.take k)

/-- The columns carry the digest of the whole content. -/
structure Completes (content : List UInt8) (columns : FileColumns) : Prop where
  offset : columns.offset = none
  sha512 : columns.sha512 = some (sha512 content)
  mdContext : columns.mdContext = none

def Exact (content : List UInt8) (columns : FileColumns) : Prop :=
  (∃ k context, ResumesAt content columns k context) ∨ Completes content columns

/-- The row was written for a file met with its metadata, and is exact for its content. -/
def ExactRow (path : RelativePath) (log : List Event) (columns : FileColumns) : Prop :=
  ∃ stat disk, .met path stat disk ∈ log ∧ columns.stat = some stat.toBytes ∧
    (stat.stSize ≠ 0 → Exact disk.content columns)

/-- The file is seekable and constant while it is read. If it is met with the size and the
modification time stored in its row, its bytes are those for which that row was saved: the bytes
met with the stored metadata and described by the row. -/
structure Faithful (v : Visit) (p : Pass) : Prop where
  constant : v.disk.Constant
  seekable : ∀ start, v.disk.seekable start = true
  tracked : ∀ e, p.session.table.find v.entry.path = some e → ∀ stat disk,
    .met v.entry.path stat disk ∈ p.session.events → e.value.stat = some stat.toBytes → Exact disk.content e.value →
    stat.contentKey = (statCopy v.entry.statp).contentKey → disk.content = v.disk.content

def FaithfulRun (path : RelativePath) (r : RunScript) (t : FilesTable) (log : List Event) : Prop :=
  ∀ m ∈ runMet r (openSession t log), m.1.entry.path = path → Faithful m.1 m.2

/-- The row was written for a file the run meets, and is exact for its content. -/
def WrittenBy (path : RelativePath) (r : RunScript) (t : FilesTable) (log : List Event) (columns : FileColumns) : Prop :=
  ∃ m ∈ runMet r (openSession t log), m.1.entry.path = path ∧
    columns.stat = some (statCopy m.1.entry.statp).toBytes ∧
    ((statCopy m.1.entry.statp).stSize ≠ 0 → Exact m.1.disk.content columns)

def ResumeExact (path : RelativePath) (log : List Event) (t : FilesTable) : Prop :=
  ∀ e, t.find path = some e → ExactRow path log e.value

/-- The row of the path is exact, and the one the run found or one it has written. -/
structure RunExact (path : RelativePath) (r : RunScript) (t : FilesTable) (log now : List Event) (t' : FilesTable) :
    Prop where
  exact : ResumeExact path now t'
  origin : ∀ e, t'.find path = some e → t.find path = some e ∨ WrittenBy path r t log e.value

theorem ExactRow.extend {path : RelativePath} {log : List Event} {columns : FileColumns}
    (h : ExactRow path log columns) (extra : List Event) : ExactRow path (log ++ extra) columns := by
  obtain ⟨stat,disk,hmet,hstat,hexact⟩ := h
  exact ⟨stat,disk,List.mem_append_left _ hmet,hstat,hexact⟩

section RunExact

variable {path : RelativePath} {r : RunScript} {t : FilesTable} {log : List Event}

theorem runExact_stable : Store.Stable (RunExact path r t log) := fun _ event _ h =>
  ⟨fun e hfind => (h.exact e hfind).extend [event],h.origin⟩

theorem runExact_deletions (c : Config) : DeletionsKeep (RunExact path r t log) c := by
  intro access e start t' now _ _ _ h
  exact ⟨fun e' hfind => h.exact e' (UniqueTable.find_erase_some.mp hfind).1,
    fun e' hfind => h.origin e' (UniqueTable.find_erase_some.mp hfind).1⟩

end RunExact

theorem SameHash.of_streamed {md md' : SHA512Context} {m : List UInt8} (h : Streamed md m)
    (h' : Streamed md' m) : SameHash md md' := h.represents.unique h'.represents

section SavePoint

variable {c : Config} {v : Visit} {p : Pass} {log : List Event}

theorem row_of_known (h : (p.row v).relativePathWasInDbBeforeProcessing = true) :
    ∃ e, p.session.table.find v.entry.path = some e ∧ p.row v = DBrow.ofEntry e := by
  obtain ⟨e,he⟩ := readRow_known_iff.mp h
  exact ⟨e,he,readRow_some he⟩

/-- A known row with the size and modification time of the file is exact for the content
the file has now. -/
theorem exact_of_key (hfaithful : Faithful v p)
    (hrows : ResumeExact v.entry.path p.session.events p.session.table)
    (hknown : (p.row v).relativePathWasInDbBeforeProcessing = true)
    (hkey : (p.row v).savedStat.contentKey = (statCopy v.entry.statp).contentKey)
    (hsize : emptyFile (decidedFile c v (p.row v)) = false) :
    ∃ e, p.session.table.find v.entry.path = some e ∧ p.row v = DBrow.ofEntry e ∧
      Exact v.disk.content e.value := by
  obtain ⟨e,hfind,hrow⟩ := row_of_known hknown
  obtain ⟨stat,disk,hmet,hstat,hexact⟩ := hrows e hfind
  have hsaved : (p.row v).savedStat = stat := by
    rw [hrow]
    simp [DBrow.ofEntry,hstat]
  rw [hsaved] at hkey
  have hnonempty : stat.stSize ≠ 0 := by
    have hsame : stat.stSize = v.entry.statp.stSize := congrArg Prod.fst hkey
    rw [hsame]
    exact of_decide_eq_false hsize
  have hcontent : disk.content = v.disk.content :=
    hfaithful.tracked e hfind stat disk hmet hstat (hexact hnonempty) hkey
  refine ⟨e,hfind,hrow,?_⟩
  rw [← hcontent]
  exact hexact hnonempty

theorem start_streamed (hfaithful : Faithful v p)
    (hrows : ResumeExact v.entry.path p.session.events p.session.table)
    (hsize : emptyFile (decidedFile c v (p.row v)) = false) :
    (decidedFile c v (p.row v)).checksumOffset ≤ v.disk.content.length ∧
      Streamed (preparedContext (decidedFile c v (p.row v))).mdContext
        (v.disk.content.take (decidedFile c v (p.row v)).checksumOffset) := by
  rcases decidedFile_start c v (p.row v) with ⟨hresume,hoffset,hcontext⟩ | ⟨-,hoffset⟩
  · simp only [canResumePartialHash,hasSavedOffset,decidedFile_db,Bool.and_eq_true,decide_eq_true_eq]
      at hresume
    obtain ⟨hpositive,hidentical⟩ := hresume
    have hknown : (p.row v).relativePathWasInDbBeforeProcessing = true :=
      known_of_savedOffset (Nat.pos_iff_ne_zero.mp hpositive)
    have hsame := of_decide_eq_true hidentical
    rw [decidedFile_changes c v _ hknown] at hsame
    obtain ⟨e,-,hrow,hexact⟩ := exact_of_key hfaithful hrows hknown (contentKey_of_identical hsame)
      hsize
    have hprepared : preparedContext (decidedFile c v (p.row v)) =
        decidedFile c v (p.row v) := by
      rw [preparedContext,if_neg]
      omega
    rcases hexact with ⟨k,context,hat⟩ | hdone
    · have hk : (p.row v).savedOffset = k := by
        rw [hrow]
        simp [DBrow.ofEntry,hat.offset]
      have hctx : (p.row v).savedMdContext = context := by
        rw [hrow]
        simp [DBrow.ofEntry,hat.mdContext]
      rw [hprepared,hoffset,hcontext,hk,hctx]
      exact ⟨hat.within,hat.absorbed⟩
    · rw [hrow] at hpositive
      simp [DBrow.ofEntry,hdone.offset] at hpositive
  · rw [preparedContext,if_pos hoffset,hoffset]
    exact ⟨Nat.zero_le _,.init _⟩

theorem take_readBytes {file : File} (hconstant : v.disk.Constant)
    (hwithin : file.checksumOffset ≤ v.disk.content.length) (k : ℕ) :
    file.checksumOffset + (readBytes v file k).length ≤ v.disk.content.length ∧
      v.disk.content.take file.checksumOffset ++ readBytes v file k =
        v.disk.content.take (file.checksumOffset + (readBytes v file k).length) := by
  have hpiece : readBytes v file k <+: v.disk.content.drop file.checksumOffset := by
    refine List.IsPrefix.trans ?_ (hconstant.delivered_prefix _ hwithin)
    rw [DiskFile.delivered]
    conv_rhs => rw [← List.take_append_drop k (v.disk.turns file.checksumOffset)]
    rw [List.flatMap_append]
    exact List.prefix_append _ _
  have hlength := hpiece.length_le
  rw [List.length_drop] at hlength
  refine ⟨by omega,?_⟩
  rw [List.take_add,← List.prefix_iff_eq_take.mp hpiece]

theorem savePoint_exact {columns : FileColumns} (hfaithful : Faithful v p)
    (hrows : ResumeExact v.entry.path p.session.events p.session.table) (hpoint : SavePoint c v (p.row v) log columns) :
    columns.stat = some (statCopy v.entry.statp).toBytes ∧
      ((statCopy v.entry.statp).stSize ≠ 0 → Exact v.disk.content columns) := by
  refine ⟨by cases hpoint.columns <;> rfl,fun hsize => ?_⟩
  have hempty : emptyFile (decidedFile c v (p.row v)) = false := decide_eq_false hsize
  have hconstant := hfaithful.constant
  cases hpoint.columns with
  | empty hzero _ _ _ =>
    rw [hempty] at hzero
    cases hzero
  | reused _ hunwatched _ _ =>
    simp only [unwatchedMetadataOnlyChanged,decidedFile_db,Bool.and_eq_true,Bool.not_eq_true'] at hunwatched
    obtain ⟨⟨⟨⟨⟨hknown,-⟩,-⟩,hsame⟩,hmtime⟩,hnone⟩ := hunwatched
    have hkey : (p.row v).savedStat.contentKey = (statCopy v.entry.statp).contentKey := by
      rw [contentKey_eq_iff,← decidedFile_changes c v (p.row v) hknown]
      exact ⟨hsame,hmtime⟩
    obtain ⟨e,-,hread,hcase⟩ := exact_of_key hfaithful hrows hknown hkey hempty
    change p.row v = DBrow.ofEntry e at hread
    rcases hcase with ⟨k,context,hat⟩ | hdone
    · simp only [hasSavedOffset,decidedFile_db,hread,DBrow.ofEntry,hat.offset,Option.getD_some,
        decide_eq_false_iff_not] at hnone
      exact absurd hat.positive hnone
    · refine .inr ⟨rfl,?_,rfl⟩
      rw [hread]
      simp [DBrow.ofEntry,hdone.sha512]
  | wrongType hrehash hoffset hopen hseek _ _ _ _ =>
    rw [hfaithful.seekable 0] at hseek
    cases hseek
  | partway k context hrehash hruns habsorbs hreads hoffset hwhy =>
    obtain ⟨hwithin,hstreamed⟩ := start_streamed hfaithful hrows hempty
    obtain ⟨hlength,hpieces⟩ := take_readBytes hconstant hwithin k
    have habsorbed := habsorbs.streamed hstreamed
    refine .inl ⟨_,context,Nat.pos_of_ne_zero hoffset,hlength,rfl,rfl,rfl,?_⟩
    rw [← hpieces]
    exact habsorbed
  | complete context digest hrehash hruns herrno habsorbs hfinal hreads hlog hsame =>
    obtain ⟨hwithin,hstreamed⟩ := start_streamed hfaithful hrows hempty
    have habsorbed := habsorbs.streamed hstreamed
    change Streamed context (v.disk.content.take (decidedFile c v (p.row v)).checksumOffset ++
      v.disk.delivered (decidedFile c v (p.row v)).checksumOffset) at habsorbed
    rw [hconstant.delivered_all _ hwithin herrno,List.take_append_drop] at habsorbed
    obtain ⟨md,hfin⟩ := hfinal
    exact .inr ⟨rfl,congrArg some (habsorbed.final hfin),rfl⟩

end SavePoint

theorem runExact_keeps {path : RelativePath} {r : RunScript} {t : FilesTable} {log : List Event}
    (hfaithful : FaithfulRun path r t log) {m : Visit × Pass} (hm : m ∈ runMet r (openSession t log))
    (h : m.2.session.Always (RunExact path r t log)) : SavesKeep (RunExact path r t log) r.config m.1 m.2 := by
  rintro now columns t₁ t₂ - - hpoint ⟨⟨id,hrow⟩,hother⟩ hexact
  by_cases hpath : path = m.1.entry.path
  · subst hpath
    obtain ⟨hstat,hcolumns⟩ := savePoint_exact (hfaithful m hm rfl) h.working.exact hpoint
    constructor
    · intro e hfind
      rw [hrow] at hfind
      cases hfind
      exact ⟨_,m.1.disk,hpoint.met,hstat,hcolumns⟩
    · intro e hfind
      rw [hrow] at hfind
      cases hfind
      exact .inr ⟨m,hm,rfl,hstat,hcolumns⟩
  · exact ⟨fun e hfind => hexact.exact e ((hother path hpath) ▸ hfind),
      fun e hfind => hexact.origin e ((hother path hpath) ▸ hfind)⟩

theorem runExact_run {path : RelativePath} {r : RunScript} {t : FilesTable} {log : List Event}
    (hfaithful : FaithfulRun path r t log) (h : ResumeExact path log t) :
    (runFrom r t log).session.Always (RunExact path r t log) :=
  runProgram_always runExact_stable (fun _ hm => runExact_keeps hfaithful hm) (runExact_deletions r.config)
    (openSession_always ⟨h,fun _ hfind => .inl hfind⟩)

/-- What a save of the path's file leaves in its row, for the content it is met with. -/
def ResumeState (content : List UInt8) (columns : FileColumns) : Prop :=
  (∃ k context, ResumesAt content columns k context ∧ ∀ md md',
    sha512Update (sha512Init md) (content.take k) = (.cryptOk,md') → SameHash context md') ∨
  Completes content columns

theorem Exact.resumeState {content : List UInt8} {columns : FileColumns} (h : Exact content columns) :
    ResumeState content columns := by
  rcases h with ⟨k,context,hat⟩ | hdone
  · refine .inl ⟨k,context,hat,fun md md' hupd => ?_⟩
    have hone : Streamed md' ([] ++ content.take k) := (Streamed.init md).update hupd
    exact .of_streamed hat.absorbed hone
  · exact .inr hdone

/-- Wherever a history of runs has led that meet the file faithfully, every save of one more such
run leaves the row of the path exact for the content of a file met with the stored metadata; the
row is the one the run found, or it is exact for the content of a file the run has met. -/
theorem saves_exact {path : RelativePath} {start t : FilesTable} {log : List Event}
    (hstart : start.find path = none) (h : History (FaithfulRun path) start t log) {r : RunScript}
    (hfaithful : FaithfulRun path r t log) {saved : FilesTable} {savedLog : List Event}
    (hsaved : (saved,savedLog) ∈ (runFrom r t log).session.store.written) {e : Entry RelativePath FileColumns}
    (hrow : saved.find path = some e) :
    (∃ stat disk, .met path stat disk ∈ savedLog ∧ e.value.stat = some stat.toBytes ∧
      (stat.stSize ≠ 0 → ResumeState disk.content e.value)) ∧
    (t.find path = some e ∨ ∃ m ∈ runMet r (openSession t log), m.1.entry.path = path ∧
      e.value.stat = some (statCopy m.1.entry.statp).toBytes ∧
      ((statCopy m.1.entry.statp).stSize ≠ 0 → ResumeState m.1.disk.content e.value)) := by
  have hexact : ResumeExact path log t := by
    refine History.always (P := ResumeExact path) ?_ ?_ h
    · intro e he
      rw [hstart] at he
      cases he
    · exact fun r t log hfaithful hrows => (runExact_run hfaithful hrows).mono fun _ _ hrun => hrun.exact
  have hwritten : RunExact path r t log savedLog saved := (runExact_run hfaithful hexact).written _ hsaved
  constructor
  · obtain ⟨stat,disk,hmet,hstat,hcase⟩ := hwritten.exact e hrow
    exact ⟨stat,disk,hmet,hstat,fun hsize => (hcase hsize).resumeState⟩
  · rcases hwritten.origin e hrow with hfound | ⟨m,hm,hpath,hstat,hcase⟩
    · exact .inl hfound
    · exact .inr ⟨m,hm,hpath,hstat,fun hsize => (hcase hsize).resumeState⟩

def Event.content : Event → Option (List UInt8)
  | .met _ _ disk => some disk.content
  | _ => none

theorem runMet_plain {c : Config} {v : Visit} {access : RelativePath → FileAccessStatus} {t : FilesTable}
    {log : List Event} {m : Visit × Pass} (hm : m ∈ runMet (.plain c [v] access) (openSession t log)) :
    m.1 = v ∧ m.2.session.events = log := by
  simp only [runMet,RunScript.plain,passMet,PassScript.plain,rootsMet,visitsMet,List.append_nil,ite_self] at hm
  split_ifs at hm
  · cases hm
  · cases hm
  · cases hm
  · cases hm
  · obtain rfl := List.mem_singleton.mp hm
    exact ⟨rfl,rfl⟩
  · cases hm

theorem faithfulRun_same {c : Config} {v : Visit} {access : RelativePath → FileAccessStatus} {t : FilesTable}
    {log : List Event} (hconstant : v.disk.Constant) (hseekable : ∀ start, v.disk.seekable start = true)
    (hsame : log.all (fun e => Event.content e = none || Event.content e = some v.disk.content) = true) :
    FaithfulRun v.entry.path (.plain c [v] access) t log := by
  intro m hm _
  obtain ⟨hvisit,hevents⟩ := runMet_plain hm
  rw [← hvisit] at hconstant hseekable hsame
  refine ⟨hconstant,hseekable,fun e _ stat disk hmet _ _ _ => ?_⟩
  rw [hevents] at hmet
  have hcontent := List.all_eq_true.mp hsame _ hmet
  simpa [Event.content] using hcontent

/-- A first run that is interrupted after the only chunk of its only file. -/
def interruptedStart : RunScript :=
  .plain { update := true }
    [{ Visit.plain (.plain [97] 1 1) (.plain [7]) with signal := { arrival := some (.saved 0) } }]
    fun _ => .accessAllowed

/-- The run that resumes it. -/
def resumedRun : RunScript :=
  .plain { update := true } [.plain (.plain [97] 1 1) (.plain [7])] fun _ => .accessAllowed

def interruptedSession : Session := (runFrom interruptedStart .empty []).session

def resumedSave : FilesTable × List Event :=
  (runFrom resumedRun interruptedSession.store.committed interruptedSession.store.stamp).session.store.written.headD (.empty,[])

theorem resumedSave_exact : ∃ e, resumedSave.1.find [97] = some e ∧
    (∃ stat disk, .met [97] stat disk ∈ resumedSave.2 ∧ e.value.stat = some stat.toBytes ∧
      (stat.stSize ≠ 0 → ResumeState disk.content e.value)) ∧
    (interruptedSession.store.committed.find [97] = some e ∨
      ∃ m ∈ runMet resumedRun (openSession interruptedSession.store.committed interruptedSession.store.stamp),
        m.1.entry.path = [97] ∧ e.value.stat = some (statCopy m.1.entry.statp).toBytes ∧
        ((statCopy m.1.entry.statp).stSize ≠ 0 → ResumeState m.1.disk.content e.value)) := by
  have hfirst : FaithfulRun [97] interruptedStart .empty [] :=
    faithfulRun_same (DiskFile.plain_constant [7]) (fun _ => rfl) rfl
  have hsecond : FaithfulRun [97] resumedRun interruptedSession.store.committed interruptedSession.store.stamp :=
    faithfulRun_same (DiskFile.plain_constant [7]) (fun _ => rfl) (by decide +kernel)
  have hone : (runFrom resumedRun interruptedSession.store.committed
      interruptedSession.store.stamp).session.store.written.length = 1 := by decide +kernel
  obtain ⟨w,hw⟩ := List.length_eq_one_iff.mp hone
  have hsaved : (resumedSave.1,resumedSave.2) ∈ (runFrom resumedRun interruptedSession.store.committed
      interruptedSession.store.stamp).session.store.written := by
    rw [resumedSave,hw]
    exact List.mem_singleton_self _
  have hsome : (resumedSave.1.find [97]).isSome = true := by decide +kernel
  obtain ⟨e,he⟩ := Option.isSome_iff_exists.mp hsome
  have hhistory : History (FaithfulRun [97]) .empty interruptedSession.store.committed interruptedSession.store.stamp :=
    .run .start interruptedStart hfirst (List.mem_cons_self ..)
  exact ⟨e,he,saves_exact rfl hhistory hsecond hsaved he⟩

/-- The file after two changes: other bytes, and the modification time it had before them. -/
def restoredEntry : FtsEntry :=
  { FtsEntry.plain [97] 1 1 with statp := { (FtsEntry.plain [97] 1 1).statp with stCtim := ⟨3,0⟩ } }

def firstRun : RunScript := .plain { update := true } [.plain (.plain [97] 1 1) (.plain [7])] fun _ => .accessAllowed

/-- A run that an interrupt ends before it comes to the file. -/
def skippedRun : RunScript :=
  let r := RunScript.plain { update := true } [.plain (.plain [97] 1 2) (.plain [8])] fun _ => .accessAllowed
  { r with pass := { r.pass with raisedBefore := true } }

def restoredRun : RunScript := .plain { update := true } [.plain restoredEntry (.plain [9])] fun _ => .accessAllowed

def firstSession : Session := (runFrom firstRun .empty []).session
def skippedSession : Session := (runFrom skippedRun firstSession.store.committed firstSession.store.stamp).session
def restoredSession : Session := (runFrom restoredRun skippedSession.store.committed skippedSession.store.stamp).session

/-- Every change of the bytes changes the modification time, and the file is seekable and
constant; but the third run finds the time of the first and saves its digest again. -/
theorem stale_resave :
    (statCopy (FtsEntry.plain [97] 1 1).statp).contentKey ≠ (statCopy (FtsEntry.plain [97] 1 2).statp).contentKey ∧
    (statCopy (FtsEntry.plain [97] 1 2).statp).contentKey ≠ (statCopy restoredEntry.statp).contentKey ∧
    ((DiskFile.plain [7]).Constant ∧ (DiskFile.plain [8]).Constant ∧ (DiskFile.plain [9]).Constant) ∧
    History (fun _ _ _ => True) .empty skippedSession.store.committed skippedSession.store.stamp ∧
    ∃ saved savedLog, (saved,savedLog) ∈ restoredSession.store.written ∧
      ∃ e, saved.find [97] = some e ∧ e.value.stat = some (statCopy restoredEntry.statp).toBytes ∧
        ¬ ResumeState [9] e.value := by
  have hfirst : History (fun _ _ _ => True) .empty firstSession.store.committed firstSession.store.stamp :=
    .run .start firstRun trivial (List.mem_cons_self ..)
  refine ⟨by decide +kernel,by decide +kernel,⟨DiskFile.plain_constant _,DiskFile.plain_constant _,
    DiskFile.plain_constant _⟩,.run hfirst skippedRun trivial (List.mem_cons_self ..),?_⟩
  have hone : restoredSession.store.written.length = 1 := by decide +kernel
  obtain ⟨⟨saved,savedLog⟩,hw⟩ := List.length_eq_one_iff.mp hone
  have hrow : (restoredSession.store.written.head?.bind fun w => (w.1.find [97]).map (·.value)) =
      some ⟨none,some (sha512 [7]),some (statCopy restoredEntry.statp).toBytes,none⟩ := by decide +kernel
  rw [hw] at hrow
  obtain ⟨e,hfind,hvalue⟩ := Option.map_eq_some_iff.mp hrow
  refine ⟨saved,savedLog,hw ▸ List.mem_singleton_self _,e,hfind,by rw [hvalue],?_⟩
  have hdigest : sha512 [7] ≠ sha512 [9] := by decide +kernel
  rintro (⟨k,context,hat,-⟩ | hdone)
  · have hoffset := hat.offset
    rw [hvalue] at hoffset
    cases hoffset
  · have hsha := hdone.sha512
    rw [hvalue] at hsha
    exact hdigest (Option.some.inj hsha)

end Precizer.Guarantees
