import Precizer.Traversal.CompleteRow
import Precizer.Pipeline.InterruptedRuns

/-! # The rows of the files a run meets

A file that a run meets without an interrupt is processed in order. In a run over one tree
that does not fail, what its visit leaves in its row is what the run leaves there.
-/
namespace Precizer.Pipeline
open General Rational Digest Traversal Database

def Event.reads (path : RelativePath) : Event → Prop
  | .read path' _ _ => path' = path
  | .hashed path' _ _ _ _ => path' = path
  | _ => False

def Reads (c : Config) (v : Visit) (p : Pass) : Prop :=
  ∃ e ∈ p.session.since (processFile c v p).session, Event.reads v.entry.path e

def Hashed (c : Config) (v : Visit) (p : Pass) : Prop :=
  ∃ disk start bytes toEnd, .hashed v.entry.path disk start bytes toEnd ∈ p.session.since (processFile c v p).session

def Saved (c : Config) (v : Visit) (p : Pass) : Prop :=
  ∃ autocommit, .statement (.save v.entry.path) autocommit ∈ p.session.since (processFile c v p).session

theorem Hashed.reads {c : Config} {v : Visit} {p : Pass} (h : Hashed c v p) : Reads c v p := by
  obtain ⟨disk,start,bytes,toEnd,hmem⟩ := h
  exact ⟨_,hmem,rfl⟩

/-- A regular file that a writing run meets, while nothing fails and no interrupt arrives. -/
structure QuietMeeting (r : RunScript) (t : FilesTable) (log : List Event) (v : Visit) (p : Pass) : Prop where
  met : (v,p) ∈ runMet r (openSession t log)
  works : r.pass.Works
  quiet : v.signal.arrival = none
  writes : r.config.dryRun = false

section Meeting

variable {r : RunScript} {t : FilesTable} {log : List Event} {v : Visit} {p : Pass}

theorem QuietMeeting.inPass (h : QuietMeeting r t log v p) :
    (v,p) ∈ passMet r.config r.pass (openSession t log) ∧ ¬ r.before.skip = true := by
  have hmet := h.met
  unfold runMet at hmet
  split at hmet
  · cases hmet
  · rename_i hgoes
    exact ⟨hmet,hgoes⟩

theorem QuietMeeting.smooth (h : QuietMeeting r t log v p) : MetSmooth r.config (v,p) :=
  passMet_smooth h.works (synced_open t log) (v,p) h.inPass.1 h.quiet

theorem QuietMeeting.performs (h : QuietMeeting r t log v p) : performFileHashing r.config = true := by
  rw [performFileHashing,h.writes]
  rfl

theorem QuietMeeting.settled (h : QuietMeeting r t log v p) :
    VisitSettled r.config v (fileOutcome r.config v (contents p.session.table v.entry.path)) p
      (processFile r.config v p) :=
  processFile_smooth h.smooth.smooth h.smooth.info h.smooth.status h.smooth.synced

theorem met_row {c : Config} {columns : FileColumns} (hrow : contents p.session.table v.entry.path = some columns) :
    ∃ i, p.row v = { storedRow (some columns) with ID := i } ∧
      decidedFile c v (p.row v) = (decidedFile c v (storedRow (some columns))).withID i := by
  obtain ⟨i,hi⟩ := readRow_stored p.session.table v.entry.path
  rw [hrow] at hi
  have hi : p.row v = { storedRow (some columns) with ID := i } := hi
  exact ⟨i,hi,by rw [hi,decidedFile_withID]⟩

variable {columns : FileColumns}

theorem QuietMeeting.hashed (h : QuietMeeting r t log v p)
    (hrow : contents p.session.table v.entry.path = some columns) (hpatterns : patternsMatch r.config v.entry.path = true)
    (hready : Ready r.config v (storedRow (some columns)))
    (hrehash : (decidedFile r.config v (storedRow (some columns))).rehash = true)
    (hruns : HashRuns r.config v (decidedFile r.config v (storedRow (some columns)))) : Hashed r.config v p := by
  obtain ⟨i,-,hdecided⟩ := met_row (c := r.config) hrow
  have hmetReady : Ready r.config v (p.row v) := by
    refine ⟨?_,?_,?_⟩
    · rw [hdecided]
      exact hready.process
    · rw [hdecided]
      exact hready.changed
    · rw [hdecided]
      exact hready.watched
  have hmetRuns : HashRuns r.config v (decidedFile r.config v (p.row v)) := by
    rw [hdecided]
    exact ⟨hruns.openable,hruns.seekable,hruns.performed⟩
  have hmetRehash : (decidedFile r.config v (p.row v)).rehash = true := by
    rw [hdecided]
    exact hrehash
  obtain ⟨bytes,toEnd,hmem⟩ := hashed_since h.smooth.smooth h.smooth.status h.smooth.synced hpatterns
    hmetReady hmetRehash hmetRuns
  exact ⟨_,_,bytes,toEnd,hmem⟩

/-- A file that is not let through to a hash pass is not read. -/
theorem QuietMeeting.unread (hrow : contents p.session.table v.entry.path = some columns)
    (hno : Ready r.config v (storedRow (some columns)) →
      (decidedFile r.config v (storedRow (some columns))).rehash = false) : ¬ Reads r.config v p := by
  obtain ⟨i,hi,hdecided⟩ := met_row (c := r.config) hrow
  have hunhashed : Ready r.config v (p.row v) → (decidedFile r.config v (p.row v)).rehash = true → False := by
    intro hready hrehash
    rw [hi] at hready
    rw [hdecided] at hrehash
    have hunhashed := hno hready.withoutID
    rw [show (decidedFile r.config v (storedRow (some columns))).rehash = true from hrehash] at hunhashed
    cases hunhashed
  have hpermits : Permits (fun e => ¬ Event.reads v.entry.path e) r.config v (p.row v) := by
    refine ⟨?_,fun hready hrehash => (hunhashed hready hrehash).elim,
      fun hready hrehash => (hunhashed hready hrehash).elim⟩
    intro e he hreads
    cases e with
    | read => cases he
    | hashed => cases he
    | met => exact hreads
    | statement => exact hreads
    | reported => exact hreads
  rintro ⟨e,he,hreads⟩
  exact (adds_processFile hpermits fun _ _ hno => hno).since e he hreads

theorem QuietMeeting.unsaved (h : QuietMeeting r t log v p)
    (hrow : contents p.session.table v.entry.path = some columns)
    (hnone : (fileOutcome r.config v (some columns)).columns = none)
    (hno : Ready r.config v (storedRow (some columns)) →
      (decidedFile r.config v (storedRow (some columns))).rehash = true →
      lockChecksumReady (decidedFile r.config v (storedRow (some columns))) = true) : ¬ Saved r.config v p := by
  obtain ⟨i,hi,hdecided⟩ := met_row (c := r.config) hrow
  have hpermits : Permits (fun e => ∀ autocommit, e ≠ .statement (.save v.entry.path) autocommit) r.config v
      (p.row v) := by
    refine ⟨?_,fun _ _ => ⟨?_,?_⟩,?_⟩
    · rintro e he autocommit rfl
      cases he
    · rintro offset bytes autocommit hsame
      cases hsame
    · rintro disk start bytes toEnd autocommit hsame
      cases hsame
    · intro hready hrehash hfree _ _ _
      rw [hi] at hready
      rw [hdecided] at hrehash hfree
      have hsealed := hno hready.withoutID hrehash
      rw [show lockChecksumReady (decidedFile r.config v (storedRow (some columns))) = false from hfree] at hsealed
      cases hsealed
  rintro ⟨autocommit,hmem⟩
  rw [← hrow] at hnone
  exact (adds_processFile_unsaved h.smooth.smooth h.smooth.status h.smooth.synced hpermits hnone).since _
    hmem autocommit rfl

end Meeting

section Tree

variable {tree : Tree} {stored : List RootPath} {existed : Bool} {r : RunScript} {t : FilesTable} {log : List Event}
  {v : Visit} {p : Pass}

theorem TreeRun.before_success (h : TreeRun tree stored existed r) (hgoes : ¬ r.before.skip = true) :
    r.before = successStatus := by
  rcases dbValidatePaths_cases r.config [tree.root] stored with hvalid | hwarned
  · exact h.before.trans hvalid
  · rw [h.before.trans hwarned] at hgoes
    exact absurd rfl hgoes

theorem TreeRun.plan_goes (h : TreeRun tree stored existed r) (hsound : tree.Sound) (hbefore : r.before = successStatus)
    (hquiet : (runFrom r t log).interrupted = false) (hok : (runFrom r t log).status.failure = false) :
    planFailed (r.plan t) = false := by
  by_contra hfailed
  have hfailed : planFailed (r.plan t) = true := by simpa using hfailed
  have hstatus : planStatus (r.plan t) = failureStatus := planStatus_failure.mpr hfailed
  have hends := (h.ends_early hsound hbefore hquiet (by rw [hstatus]; decide)).1
  rw [hends,hstatus] at hok
  cases hok

/-- A file that the cleanup keeps has the columns its pass has left. -/
theorem TreeRun.kept_contents (h : TreeRun tree stored existed r) (hsound : tree.Sound)
    (hbefore : r.before = successStatus) (hquiet : (runFrom r t log).interrupted = false)
    (hok : (runFrom r t log).status.failure = false) (hwrites : r.config.dryRun = false)
    {access : RelativePath → FileAccessStatus} (hopen : tree.openRoot tree.root = some access) {path : RelativePath}
    (hkept : droppedPath r.config access path = false) :
    contents (runFrom r t log).session.table path = contents (passState r t log).session.table path := by
  by_cases hclean : planStatus (r.plan t) = successStatus
  · rw [contents_filter (h.cleaned_rows hsound hwrites hbefore hquiet hclean hok hopen),hkept]
    rfl
  · rw [(h.ends_early hsound hbefore hquiet hclean).2]

theorem TreeRun.visited_row (h : TreeRun tree stored existed r) (hsound : tree.Sound)
    (hmeeting : QuietMeeting r t log v p) (hquiet : (runFrom r t log).interrupted = false)
    (hok : (runFrom r t log).status.failure = false) (hlegible : v.Legible) (haccess : v.access = .accessAllowed)
    (hkept : (matchIncludeIgnore r.config false v.entry.path).ignored = false ∨ r.config.locked v.entry.path = true) :
    contents (runFrom r t log).session.table v.entry.path =
      contents (processFile r.config v p).session.table v.entry.path := by
  obtain ⟨hmet,hgoes⟩ := hmeeting.inPass
  have hbefore := h.before_success hgoes
  have hplan := h.plan_goes hsound hbefore hquiet hok
  have hnodup : (filePaths r.pass.visits).Nodup := by
    rw [← files_found h.entries]
    exact hsound.nodup
  have hsingle : planFailed (walkPlan r.config (contents t) none r.pass.visits) = false := by
    rw [← h.plan_eq]
    exact hplan
  obtain ⟨hmem,⟨o,ho⟩,hinfo,hdepth⟩ := passMet_processed (contents t) h.pass h.root h.compare (synced_open t log) hsingle
    (v,p) hmet
  obtain ⟨-,houtcome⟩ := mem_walkPlan r.pass.visits none _ ho
  rw [← h.plan_eq] at ho
  have hstored := passMet_stored h.pass h.root hnodup (synced_open t log) (v,p) hmet hmeeting.quiet
  have houtcome : o = fileOutcome r.config v (contents p.session.table v.entry.path) := by
    rw [hstored]
    dsimp only at houtcome
    rw [houtcome,visitOutcome,hdepth,if_neg (by decide),entryOutcome,hinfo]
    rfl
  obtain ⟨access,hopen,hagrees⟩ := hsound.access
  have haccessed : access v.entry.path = .accessAllowed :=
    (hagrees v.found (h.entries ▸ List.mem_map_of_mem hmem) hinfo).trans haccess
  have hundropped : droppedPath r.config access v.entry.path = false := by
    by_contra hdropped
    obtain ⟨hignored,hunlocked⟩ := dropped_accessible haccessed (by simpa using hdropped)
    rcases hkept with hvisible | hlocked
    · rw [hignored] at hvisible
      cases hvisible
    · rw [hunlocked] at hlocked
      cases hlocked
  rw [h.kept_contents hsound hbefore hquiet hok hmeeting.writes hopen hundropped]
  obtain ⟨hfollowed,-,hsession⟩ := h.pass_follows hsound hbefore (h.uninterrupted hquiet).1
  obtain ⟨first,walked,hfirst,hwalked,htable⟩ := hfollowed.walked
  have hsettled := hmeeting.settled
  rw [hsession,htable hplan]
  have hok : o.failed = false := by
    by_contra hfailed
    have hany : planFailed (r.plan t) = true := List.any_eq_true.mpr ⟨_,ho,by simpa using hfailed⟩
    rw [hplan] at hany
    cases hany
  cases hcolumns : o.columns with
  | some columns =>
    rw [hwalked.written hmeeting.writes hplan _ ho columns hcolumns]
    exact (hsettled.written hmeeting.writes columns (houtcome ▸ hcolumns)).symm
  | none =>
    rw [hwalked.unwritten hplan _ ho hinfo (hlegible.uncut _ _) hcolumns,hfirst]
    rw [hsettled.unwritten (houtcome ▸ hcolumns) (houtcome ▸ hok) fun _ => hlegible.uncut _ _,hstored]

end Tree

section Plain

/-- The state of a pass over one root before its first visit. -/
def plainStart (t : FilesTable) (log : List Event) : Pass :=
  { session := openSession t log, interrupted := false, halted := false }

theorem QuietMeeting.plain {c : Config} {v : Visit} {access : RelativePath → FileAccessStatus} (t : FilesTable)
    (log : List Event) (hcompare : c.compare = false) (hdry : c.dryRun = false) (hdepth : c.maxdepth = none)
    (hv : v.Smooth) (hinfo : v.entry.info = .file) :
    QuietMeeting (.plain c [v] access) t log v (plainStart t log) where
  met := by
    have hmeets : meetsFile c (plainStart t log) v = true := by
      have hbeyond : beyondMaxdepth c v.entry = false := by rw [beyondMaxdepth,hdepth]
      have hraised : v.signal.raised .top = false := Signal.raised_none hv.quiet _
      simp [meetsFile,plainStart,hbeyond,hraised,hinfo,Pass.delivers,metState,checkBatch,openSession,successStatus]
    have hmet : runMet (.plain c [v] access) (openSession t log) = visitsMet c [v] (plainStart t log) ++
        if (walkRoot c ⟨true,true,[v],true⟩ (plainStart t log)).interrupted ||
          !(walkRoot c ⟨true,true,[v],true⟩ (plainStart t log)).status.success then [] else [] := by
      unfold runMet passMet
      rw [show (RunScript.plain c [v] access).config.compare = false from hcompare]
      rfl
    rw [hmet,visitsMet,if_pos hmeets]
    exact List.mem_append_left _ (List.mem_append_left _ (List.mem_singleton_self _))
  works := PassScript.plain_works fun w hw => by
    rw [List.mem_singleton.mp hw]
    exact hv.toWorks
  quiet := hv.quiet
  writes := hdry

theorem Visit.plain_smooth (entry : FtsEntry) (content : List UInt8) : (Visit.plain entry (.plain content)).Smooth :=
  ⟨Visit.plain_works entry content,rfl⟩

theorem Visit.plain_readable {path : RelativePath} {size time : BitVec 64} (content : List UInt8) (h : size ≠ 0) :
    (Visit.plain (.plain path size time) (.plain content)).Readable where
  openable := rfl
  readable := fun _ => rfl
  access := rfl
  seekable := rfl
  nonempty := h

end Plain

end Precizer.Pipeline
