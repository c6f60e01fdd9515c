import Precizer.Pipeline.MetRows

/-! # The outcomes of locked files

Five rules say what an update makes of a locked file with a complete row. The code follows
them except where timestamps are watched and only the number of blocks has changed: then it
reads the file and prints a line, although it does not compare the digests.
-/
namespace Precizer.Guarantees
open General Rational Digest Traversal Database Pipeline

def newReports (c : Config) (v : Visit) (p : Pass) : List Report :=
  (processFile c v p).session.reports.drop p.session.reports.length

structure ViolationReported (c : Config) (v : Visit) (p : Pass) : Prop where
  printed : ∃ r ∈ newReports c v p, ViolationReport v.entry.path r
  detected : (processFile c v p).lockChecksumViolationDetected = true

def PrintsNothing (c : Config) (v : Visit) (p : Pass) : Prop := newReports c v p = []

def RowKept (c : Config) (v : Visit) (p : Pass) : Prop :=
  contents (processFile c v p).session.table v.entry.path = contents p.session.table v.entry.path

/-- The row keeps the digest and has the current timestamps. -/
def TimestampsStored (c : Config) (v : Visit) (p : Pass) (digest : Sha512Digest) : Prop :=
  ∃ columns, contents (processFile c v p).session.table v.entry.path = some columns ∧ Complete columns digest ∧
    (storedStat columns).SameMtime (statCopy v.entry.statp) ∧ (storedStat columns).SameCtime (statCopy v.entry.statp)

def SameTimes (stored current : CmpctStat) : Prop := stored.SameMtime current ∧ stored.SameCtime current

/-- The rules for a locked file with the given stored metadata and digest. -/
structure LockedRules (c : Config) (v : Visit) (p : Pass) (stored : CmpctStat) (digest : Sha512Digest) : Prop where
  resized : stored.stSize ≠ v.entry.statp.stSize → ViolationReported c v p ∧ RowKept c v p
  unwatched : stored.stSize = v.entry.statp.stSize → c.watchTimestamps = false → c.rehashLocked = false →
    PrintsNothing c v p ∧ RowKept c v p
  untouched : stored.stSize = v.entry.statp.stSize → SameTimes stored (statCopy v.entry.statp) →
    c.watchTimestamps = true → c.rehashLocked = false → PrintsNothing c v p ∧ ¬ Reads c v p
  touched : stored.stSize = v.entry.statp.stSize → ¬ SameTimes stored (statCopy v.entry.statp) →
    c.watchTimestamps = true → c.rehashLocked = false → ViolationReported c v p
  rehashed : stored.stSize = v.entry.statp.stSize → c.rehashLocked = true → 8 * (v.disk.delivered 0).length < 2 ^ 64 →
    (ViolationReported c v p ↔ sha512 (v.disk.delivered 0) ≠ digest) ∧
      (sha512 (v.disk.delivered 0) = digest → TimestampsStored c v p digest)

/-- Timestamps are watched and only a known number of blocks has changed. -/
def BlocksOnly (c : Config) (stored current : CmpctStat) : Prop :=
  c.watchTimestamps = true ∧ c.rehashLocked = false ∧ stored.stSize = current.stSize ∧ SameTimes stored current ∧
    stored.BlocksDiffer current

structure LockedFile (c : Config) (v : Visit) : Prop where
  readable : v.Readable
  patterns : patternsMatch c v.entry.path = true
  locked : c.locked v.entry.path = true

theorem LockedFile.shown {c : Config} {v : Visit} (h : LockedFile c v) : Shown c v.entry.path :=
  ⟨h.patterns,.inr h.locked⟩

section Rules

variable {r : RunScript} {t : FilesTable} {log : List Event} {v : Visit} {p : Pass} {columns : FileColumns}
  {digest : Sha512Digest}

theorem newReports_settled {o : VisitOutcome} (h : VisitSettled r.config v o p (processFile r.config v p)) :
    newReports r.config v p = o.reports := by
  rw [newReports,h.reports,List.drop_left]

theorem violation_reported {o : VisitOutcome} (h : VisitSettled r.config v o p (processFile r.config v p)) {x : Report}
    (hx : x ∈ o.reports) (hreport : ViolationReport v.entry.path x) (hviolation : o.violation = true) :
    ViolationReported r.config v p := by
  refine ⟨⟨x,?_,hreport⟩,?_⟩
  · rw [newReports_settled h]
    exact hx
  · rw [h.violation,hviolation,Bool.or_true]

theorem rowKept_settled {o : VisitOutcome} (h : VisitSettled r.config v o p (processFile r.config v p))
    (hlegible : v.Legible) (hcolumns : o.columns = none) (hok : o.failed = false) : RowKept r.config v p := by
  rw [RowKept,h.unwritten hcolumns hok fun _ => hlegible.uncut _ _]

variable (hmeeting : QuietMeeting r t log v p) (hfile : LockedFile r.config v)
  (hrow : contents p.session.table v.entry.path = some columns) (hcomplete : Complete columns digest)
include hmeeting hfile hrow hcomplete

theorem locked_violated (hviolates : Violates r.config (storedStat columns) (statCopy v.entry.statp)) :
    ViolationReported r.config v p ∧ RowKept r.config v p := by
  have hsettled := hmeeting.settled
  rw [hrow,locked_violation hcomplete hfile.readable hfile.shown hfile.locked hviolates] at hsettled
  exact ⟨violation_reported hsettled (List.mem_singleton_self _) ⟨_,rfl,rfl⟩ rfl,
    rowKept_settled hsettled hfile.readable.toLegible rfl rfl⟩

theorem locked_quiet (hkept : ¬ Violates r.config (storedStat columns) (statCopy v.entry.statp))
    (hrehash : r.config.rehashLocked = false)
    (hunread : (storedStat columns).Matches (statCopy v.entry.statp) ∨ r.config.watchTimestamps = false) :
    PrintsNothing r.config v p ∧ RowKept r.config v p := by
  have hsettled := hmeeting.settled
  rw [hrow,locked_unread hcomplete hfile.readable hfile.shown hfile.locked hkept hrehash hunread] at hsettled
  exact ⟨newReports_settled hsettled,rowKept_settled hsettled hfile.readable.toLegible rfl rfl⟩

theorem locked_rehashed (hsize : (storedStat columns).stSize = v.entry.statp.stSize)
    (hrehash : r.config.rehashLocked = true) (hcounts : 8 * (v.disk.delivered 0).length < 2 ^ 64) :
    (ViolationReported r.config v p ↔ sha512 (v.disk.delivered 0) ≠ digest) ∧
      (sha512 (v.disk.delivered 0) = digest → TimestampsStored r.config v p digest) := by
  have hkept : ¬ Violates r.config (storedStat columns) (statCopy v.entry.statp) := by
    rintro (hdiffers | ⟨-,hno,-⟩)
    · exact hdiffers hsize
    · rw [hrehash] at hno
      cases hno
  have hsettled := hmeeting.settled
  rw [hrow] at hsettled
  obtain ⟨hok,houtcome⟩ := locked_read hcomplete hfile.readable hfile.shown hfile.locked hmeeting.performs hkept
    (.inl hrehash) hcounts
  by_cases hsame : sha512 (v.disk.delivered 0) = digest
  · rw [if_neg (fun h => h.2 hsame)] at houtcome
    obtain ⟨hclean,hcolumns⟩ := houtcome
    refine ⟨⟨?_,fun hno => absurd hsame hno⟩,fun _ => ?_⟩
    · rintro ⟨⟨x,hx,hreport⟩,-⟩
      rw [newReports_settled hsettled] at hx
      exact absurd hreport (hclean x hx)
    · by_cases hmatches : (storedStat columns).Matches (statCopy v.entry.statp)
      · rw [if_neg (fun h => h.2 hmatches)] at hcolumns
        refine ⟨columns,?_,hcomplete,hmatches.mtime,hmatches.ctime⟩
        rw [hsettled.unwritten hcolumns hok fun _ => hfile.readable.toLegible.uncut _ _,hrow]
      · rw [if_pos ⟨hrehash,hmatches⟩,hsame] at hcolumns
        have hstat : storedStat (recorded v (some digest)) = statCopy v.entry.statp := by
          simp [storedStat,storedRow,DBrow.ofEntry,recorded]
        refine ⟨_,hsettled.written hmeeting.writes _ hcolumns,⟨rfl,rfl⟩,?_,?_⟩
        · rw [hstat]
          exact ⟨rfl,rfl⟩
        · rw [hstat]
          exact ⟨rfl,rfl⟩
  · rw [if_pos ⟨hrehash,hsame⟩] at houtcome
    obtain ⟨hreports,hviolation,-⟩ := houtcome
    refine ⟨⟨fun _ => hsame,fun _ => ?_⟩,fun h => absurd h hsame⟩
    refine violation_reported hsettled ?_ ⟨.lockedChecksumMismatch,rfl,rfl⟩ hviolation
    rw [hreports]
    exact List.mem_singleton_self _

/-- A change of the blocks alone is not a violation, but the file is hashed. -/
theorem blocksOnly_hashed (hblocks : BlocksOnly r.config (storedStat columns) (statCopy v.entry.statp)) :
    Hashed r.config v p := by
  obtain ⟨hwatch,-,hsize,htimes,hdiffer⟩ := hblocks
  have hkept : ¬ Violates r.config (storedStat columns) (statCopy v.entry.statp) := by
    rintro (hdiffers | ⟨-,-,hdiffers⟩)
    · exact hdiffers hsize
    · exact hdiffers htimes
  have hdiffers : ¬ (storedStat columns).Matches (statCopy v.entry.statp) := fun hsame => hsame.blocks hdiffer
  exact hmeeting.hashed hrow hfile.patterns
    (locked_ready hcomplete hfile.readable hfile.shown hfile.locked hkept (.inr ⟨hdiffers,hwatch⟩))
    ((hcomplete.rehash_iff hfile.readable.nonempty).mpr (.inr (.inl hwatch)))
    (hcomplete.runs hfile.readable hmeeting.performs)

/-- The code follows the rules unless only the blocks have changed, and what the visit leaves
in the row is what the run leaves there. -/
theorem locked_rules_iff :
    (LockedRules r.config v p (storedStat columns) digest ↔
      ¬ BlocksOnly r.config (storedStat columns) (statCopy v.entry.statp)) ∧
    (∀ tree stored existed, TreeRun tree stored existed r → tree.Sound → (runFrom r t log).interrupted = false →
      (runFrom r t log).status.failure = false → contents (runFrom r t log).session.table v.entry.path =
        contents (processFile r.config v p).session.table v.entry.path) := by
  refine ⟨⟨?_,?_⟩,?_⟩
  · intro hrules hblocks
    exact (hrules.untouched hblocks.2.2.1 hblocks.2.2.2.1 hblocks.1 hblocks.2.1).2
      (blocksOnly_hashed hmeeting hfile hrow hcomplete hblocks).reads
  · intro hblocks
    refine ⟨?_,?_,?_,?_,?_⟩
    · exact fun hsize => locked_violated hmeeting hfile hrow hcomplete (.inl hsize)
    · intro hsize hwatch hrehash
      refine locked_quiet hmeeting hfile hrow hcomplete ?_ hrehash (.inr hwatch)
      rintro (hdiffers | ⟨hno,-⟩)
      · exact hdiffers hsize
      · rw [hwatch] at hno
        cases hno
    · intro hsize htimes hwatch hrehash
      have hsame : (storedStat columns).Matches (statCopy v.entry.statp) :=
        ⟨hsize,htimes.1,htimes.2,fun h => hblocks ⟨hwatch,hrehash,hsize,htimes,h⟩⟩
      have hkept : ¬ Violates r.config (storedStat columns) (statCopy v.entry.statp) := by
        rintro (hdiffers | ⟨-,-,hdiffers⟩)
        · exact hdiffers hsize
        · exact hdiffers htimes
      refine ⟨(locked_quiet hmeeting hfile hrow hcomplete hkept hrehash (.inl hsame)).1,?_⟩
      refine QuietMeeting.unread hrow fun hready => ?_
      have hchanged := hready.changed
      rw [(hcomplete.leaves_iff (c := r.config)).mpr ⟨hsame,by simp [hrehash]⟩] at hchanged
      cases hchanged
    · exact fun hsize htimes hwatch hrehash =>
        (locked_violated hmeeting hfile hrow hcomplete (.inr ⟨hwatch,hrehash,htimes⟩)).1
    · exact locked_rehashed hmeeting hfile hrow hcomplete
  · intro tree stored existed hrun hsound hquiet hok
    exact hrun.visited_row hsound hmeeting hquiet hok hfile.readable.toLegible hfile.readable.access (.inr hfile.locked)

end Rules

/-- The locked file `x`, moved to other blocks of the disk since its row was sealed. -/
def relocatedVisit : Visit := .plain (.plain [120] 1 1) (.plain [7])

def sealedColumns : FileColumns :=
  ⟨none,some (sha512 [7]),some { statCopy (FtsEntry.plain [120] 1 1).statp with stBlocks := 16 }.toBytes,none⟩

def watchedRun : RunScript :=
  .plain { update := true, watchTimestamps := true, lockChecksumPatterns := [fun _ => .regexpMatch] } [relocatedVisit]
    fun _ => .accessAllowed

theorem relocated_meeting : QuietMeeting watchedRun (.singleton 1 [120] sealedColumns) [] relocatedVisit
    (plainStart (.singleton 1 [120] sealedColumns) []) :=
  QuietMeeting.plain _ _ rfl rfl rfl (Visit.plain_smooth _ _) rfl

theorem relocated_file : LockedFile watchedRun.config relocatedVisit := ⟨Visit.plain_readable [7] (by decide),rfl,rfl⟩

theorem relocated_rules :
    LockedRules watchedRun.config relocatedVisit (plainStart (.singleton 1 [120] sealedColumns) [])
        (storedStat sealedColumns) (sha512 [7]) ↔
      ¬ BlocksOnly watchedRun.config (storedStat sealedColumns) (statCopy relocatedVisit.entry.statp) :=
  (locked_rules_iff relocated_meeting relocated_file rfl ⟨rfl,rfl⟩).1

/-- With equal size and timestamps the file is read, and a line is printed. -/
theorem relocated_read :
    QuietMeeting watchedRun (.singleton 1 [120] sealedColumns) [] relocatedVisit
        (plainStart (.singleton 1 [120] sealedColumns) []) ∧
      LockedFile watchedRun.config relocatedVisit ∧ Complete sealedColumns (sha512 [7]) ∧
      SameTimes (storedStat sealedColumns) (statCopy relocatedVisit.entry.statp) ∧
      newReports watchedRun.config relocatedVisit (plainStart (.singleton 1 [120] sealedColumns) []) =
        [.file [120] (.lockedChecksumMatched { allocatedSizeChanged := true })] ∧
      ¬ LockedRules watchedRun.config relocatedVisit (plainStart (.singleton 1 [120] sealedColumns) [])
        (storedStat sealedColumns) (sha512 [7]) := by
  have htimes : SameTimes (storedStat sealedColumns) (statCopy relocatedVisit.entry.statp) :=
    ⟨⟨by decide,by decide⟩,⟨by decide,by decide⟩⟩
  have hblocks : BlocksOnly watchedRun.config (storedStat sealedColumns) (statCopy relocatedVisit.entry.statp) :=
    ⟨rfl,rfl,by decide,htimes,by decide⟩
  refine ⟨relocated_meeting,relocated_file,⟨rfl,rfl⟩,htimes,by decide +kernel,?_⟩
  intro hrules
  exact (hrules.untouched (by decide) htimes rfl rfl).2
    (blocksOnly_hashed relocated_meeting relocated_file rfl ⟨rfl,rfl⟩ hblocks).reads

end Precizer.Guarantees
