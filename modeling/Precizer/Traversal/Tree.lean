import Precizer.Traversal.SmoothPass

/-! # Directory trees

What two walks over one tree have in common: the entries, the answers of their access
checks and what the files yield. How the reads are cut into chunks, the clock and the
interrupts are left to each walk.
-/
namespace Precizer.Traversal
open General Rational Digest Database

/-- What reading a file yields from every start offset, in whatever chunks. -/
structure Reading where
  content : List UInt8
  openErrno : Option ℕ
  seekable : ℕ → Bool
  delivered : ℕ → List UInt8
  readErrno : ℕ → Option ℕ

def DiskFile.reading (d : DiskFile) : Reading := ⟨d.content,d.openErrno,d.seekable,d.delivered,d.readErrno⟩

structure TreeEntry where
  entry : FtsEntry
  access : FileAccessStatus
  reading : Reading

def Visit.found (v : Visit) : TreeEntry := ⟨v.entry,v.access,v.disk.reading⟩

/-- A readable, seekable file that does not change: every start yields the rest of it. -/
structure Reading.Constant (r : Reading) : Prop where
  openable : r.openErrno = none
  seekable : ∀ start, r.seekable start = true
  readable : ∀ start, r.readErrno start = none
  delivered : ∀ start, r.delivered start = r.content.drop start

theorem DiskFile.turns_eq_nil_iff {d : DiskFile} {start : ℕ} : d.turns start = [] ↔ d.delivered start = [] := by
  unfold delivered
  constructor
  · intro h
    rw [h]
    rfl
  · intro h
    cases hturns : d.turns start with
    | nil => rfl
    | cons t rest =>
      rw [hturns,List.flatMap_cons] at h
      exact absurd (List.append_eq_nil_iff.mp h).1 t.nonempty

theorem DiskFile.plain_reading (content : List UInt8) : (DiskFile.plain content).reading.Constant := by
  have hdelivered (start : ℕ) : (DiskFile.plain content).delivered start = content.drop start := by
    rcases Nat.le_total start content.length with hle | hge
    · exact (DiskFile.plain_constant content).delivered_all start hle rfl
    · have hnil : content.drop start = [] := List.drop_eq_nil_of_le hge
      rw [hnil,← DiskFile.turns_eq_nil_iff]
      exact dif_pos hnil
  exact ⟨rfl,fun _ => rfl,fun _ => rfl,hdelivered⟩

section Found

variable {c : Config} {v v' : Visit}

theorem decidedFile_found (h : v.found = v'.found) (row : DBrow) : decidedFile c v row = decidedFile c v' row := by
  have hentry : v.entry = v'.entry := congrArg TreeEntry.entry h
  have haccess : v.access = v'.access := congrArg TreeEntry.access h
  unfold decidedFile metFile accessedFile
  rw [hentry,haccess]

theorem hashPass_found (h : v.found = v'.found) (file : File) : hashPass c v file = hashPass c v' file := by
  have hreading : v.disk.reading = v'.disk.reading := congrArg TreeEntry.reading h
  have hopen : v.disk.openErrno = v'.disk.openErrno := congrArg Reading.openErrno hreading
  have hseek : v.disk.seekable = v'.disk.seekable := congrArg Reading.seekable hreading
  have hdelivered : v.disk.delivered = v'.disk.delivered := congrArg Reading.delivered hreading
  have herrno : v.disk.readErrno = v'.disk.readErrno := congrArg Reading.readErrno hreading
  have hturns : (v.disk.turns file.checksumOffset = []) = (v'.disk.turns file.checksumOffset = []) := by
    rw [DiskFile.turns_eq_nil_iff,DiskFile.turns_eq_nil_iff,hdelivered]
  unfold hashPass readRecord
  simp only [hopen,hseek,hdelivered,herrno,hturns]

theorem fileOutcome_found (h : v.found = v'.found) (stored : Option FileColumns) :
    fileOutcome c v stored = fileOutcome c v' stored := by
  have hentry : v.entry = v'.entry := congrArg TreeEntry.entry h
  have haccess : v.access = v'.access := congrArg TreeEntry.access h
  unfold fileOutcome processedOutcome unavailableLocked
  simp only [decidedFile_found h,hashPass_found h,hentry,haccess]

theorem directoryOutcome_found (h : v.found = v'.found) : directoryOutcome c v = directoryOutcome c v' := by
  have hentry : v.entry = v'.entry := congrArg TreeEntry.entry h
  have haccess : v.access = v'.access := congrArg TreeEntry.access h
  unfold directoryOutcome
  rw [hentry,haccess]

theorem visitOutcome_found (h : v.found = v'.found) (stored : Option FileColumns) :
    visitOutcome c v stored = visitOutcome c v' stored := by
  have hentry : v.entry = v'.entry := congrArg TreeEntry.entry h
  unfold visitOutcome entryOutcome
  rw [fileOutcome_found h,directoryOutcome_found h,hentry]

/-- Two walks over one tree have plans with the same entries and outcomes. -/
theorem walkPlan_found {stored : RelativePath → Option FileColumns} {visits visits' : List Visit}
    (h : visits.map Visit.found = visits'.map Visit.found) (skipBelow : Option ℕ) :
    (walkPlan c stored skipBelow visits).map (fun x => (x.1.found,x.2)) =
      (walkPlan c stored skipBelow visits').map fun x => (x.1.found,x.2) := by
  induction visits generalizing visits' skipBelow with
  | nil =>
    cases visits' with
    | nil => rfl
    | cons v' rest' => cases h
  | cons v rest ih =>
    cases visits' with
    | nil => cases h
    | cons v' rest' =>
      obtain ⟨hfirst,hrest⟩ := List.cons.inj h
      have hentry : v.entry = v'.entry := congrArg TreeEntry.entry hfirst
      unfold walkPlan
      rw [← hentry,visitOutcome_found hfirst]
      split
      · dsimp only
        rw [List.map_cons,List.map_cons,hfirst]
        split
        · rfl
        · rw [ih hrest]
      · exact ih hrest skipBelow

theorem plan_facts {plan plan' : List (Visit × VisitOutcome)}
    (h : plan.map (fun x => (x.1.found,x.2)) = plan'.map fun x => (x.1.found,x.2)) :
    planReports plan = planReports plan' ∧ planStatus plan = planStatus plan' := by
  have houtcomes : plan.map Prod.snd = plan'.map Prod.snd := by
    have hsnd := congrArg (List.map Prod.snd) h
    rw [List.map_map,List.map_map] at hsnd
    exact hsnd
  have hreports (plan : List (Visit × VisitOutcome)) :
      planReports plan = (plan.map Prod.snd).flatMap VisitOutcome.reports := by
    rw [planReports,List.flatMap_map]
  have hfailed (plan : List (Visit × VisitOutcome)) :
      planFailed plan = (plan.map Prod.snd).any VisitOutcome.failed := by
    rw [planFailed,List.any_map]
    rfl
  have hviolation (plan : List (Visit × VisitOutcome)) :
      planViolation plan = (plan.map Prod.snd).any VisitOutcome.violation := by
    rw [planViolation,List.any_map]
    rfl
  refine ⟨?_,?_⟩
  · rw [hreports,hreports,houtcomes]
  · rw [planStatus,planStatus,hfailed,hfailed,hviolation,hviolation,houtcomes]

end Found

section Complete

variable {c : Config} {stored : RelativePath → Option FileColumns}

theorem fileOutcome_skipBelow (v : Visit) (columns : Option FileColumns) :
    (fileOutcome c v columns).skipBelow = none := by
  unfold fileOutcome
  dsimp only
  split
  · rfl
  · split
    · rfl
    · split
      · rfl
      · unfold processedOutcome
        dsimp only
        split
        · split <;> exact settledOutcome_skipBelow _ _ _
        · exact settledOutcome_skipBelow _ _ _

theorem matchIncludeIgnore_unignored (h : c.ignorePatterns = []) (halted : Bool) (path : RelativePath) :
    (matchIncludeIgnore c halted path).ignored = false := by
  have hnone : matchIgnorePattern c halted path = .notMatch := by
    rw [matchIgnorePattern,h]
    rfl
  unfold matchIncludeIgnore
  rw [hnone]
  cases matchIncludePattern c halted path <;> rfl

/-- Without a depth limit, ignore patterns and inaccessible directories nothing is passed over. -/
theorem visitOutcome_skipBelow {v : Visit} (hdepth : c.maxdepth = none) (hignore : c.ignorePatterns = [])
    (haccess : v.access = .accessAllowed) (columns : Option FileColumns) :
    (visitOutcome c v columns).skipBelow = none := by
  have hnear : beyondMaxdepth c v.entry = false := by
    rw [beyondMaxdepth,hdepth]
  unfold visitOutcome entryOutcome
  rw [hnear]
  simp only [Bool.false_eq_true,↓reduceIte]
  cases v.entry.info with
  | directory =>
    unfold directoryOutcome
    dsimp only
    rw [matchIncludeIgnore_unignored hignore,if_neg (by decide : ¬ false = true),if_pos haccess]
    split <;> rfl
  | file => exact fileOutcome_skipBelow v columns
  | unreadableDirectory => rfl
  | error => rfl
  | noStat => rfl
  | other => rfl

theorem walkPlan_complete {visits : List Visit}
    (hskip : ∀ v ∈ visits, (visitOutcome c v (stored v.entry.path)).skipBelow = none)
    (hok : planFailed (walkPlan c stored none visits) = false) :
    walkPlan c stored none visits = visits.map fun v => (v,visitOutcome c v (stored v.entry.path)) := by
  induction visits with
  | nil => rfl
  | cons v rest ih =>
    have hnone := hskip v List.mem_cons_self
    have hdelivered : delivered none v.entry = true := rfl
    unfold walkPlan at hok ⊢
    rw [if_pos hdelivered] at hok ⊢
    dsimp only at hok ⊢
    rw [planFailed,List.any_cons,Bool.or_eq_false_iff] at hok
    obtain ⟨hfirst,hrest⟩ := hok
    dsimp only at hfirst
    rw [hfirst,hnone] at hrest ⊢
    rw [List.map_cons]
    exact congrArg _ (ih (fun w hw => hskip w (List.mem_cons_of_mem _ hw)) hrest)

end Complete

/-- What is stored for an unknown path of a readable file in scope is always written. -/
theorem fileOutcome_new {c : Config} {v : Visit} (hlegible : v.Legible) (haccess : v.access = .accessAllowed)
    (hvisible : (loadedFile c DBrow.zero v.entry.path).ignore = false) (hok : (fileOutcome c v none).failed = false) :
    ∃ columns, (fileOutcome c v none).columns = some columns := by
  have haccessed : accessedFile c v DBrow.zero =
      { loadedFile c DBrow.zero v.entry.path with isReadable := true } := by
    unfold accessedFile
    rw [hvisible,haccess]
    rfl
  have hunknown : lockChecksumReady (decidedFile c v DBrow.zero) = false := by
    simp [lockChecksumReady,DBrow.zero]
  have hprocess : shouldProcess (decidedFile c v DBrow.zero) = true := by
    have hreadable : (decidedFile c v DBrow.zero).isReadable = true := congrArg File.isReadable haccessed
    have hignore : (decidedFile c v DBrow.zero).ignore = false := (congrArg File.ignore haccessed).trans hvisible
    have hviolation : (decidedFile c v DBrow.zero).lockChecksumViolation = false := by
      have hdecided : (decidedFile c v DBrow.zero).lockChecksumViolation =
          lockViolation c (decidedFile c v DBrow.zero) := rfl
      rw [hdecided,lockViolation,hunknown,Bool.false_and]
    rw [shouldProcess,hreadable,hignore,hviolation]
    rfl
  have hsettled : ∀ file : File, file.shown = (decidedFile c v DBrow.zero).shown ∨
        file.shown = { (decidedFile c v DBrow.zero).shown with wrongFileType := true } →
      ∃ columns, (settledOutcome c v.entry.path false file).columns = some columns := by
    intro file hshown
    have hgeneral {q : File → Bool} (hq : ∀ f : File, q f.shown = q f)
        (hfree : ∀ f : File, q { f with wrongFileType := true } = q f) :
        q file = q (decidedFile c v DBrow.zero) := by
      rcases hshown with hsame | hwrong
      · exact shown_congr q hq hsame
      · rw [← hq file,hwrong,hfree,hq]
    have hready : lockChecksumReady file = false :=
      (hgeneral (fun _ => rfl) fun _ => rfl).trans hunknown
    have hcompared : comparedRecord c false file = file := by
      unfold comparedRecord
      rw [if_neg]
      simp [checksumMismatch,hready]
    have hblocked : blockedRecord false file = false := by
      rw [hgeneral (q := blockedRecord false) (fun _ => rfl) fun _ => rfl]
      simp only [shouldProcess,Bool.and_eq_true,Bool.not_eq_true'] at hprocess
      simp [blockedRecord,hprocess]
    have hknown : file.db.relativePathWasInDbBeforeProcessing = false :=
      (hgeneral (q := fun f => f.db.relativePathWasInDbBeforeProcessing) (fun _ => rfl) fun _ => rfl).trans
        (by rw [decidedFile_db]; rfl)
    unfold settledOutcome
    rw [hcompared]
    dsimp only
    rw [hblocked,unknown_update hknown]
    exact ⟨_,rfl⟩
  have hpatterns : patternsMatch c v.entry.path = true := by
    by_contra hno
    have hno : patternsMatch c v.entry.path = false := by simpa using hno
    unfold fileOutcome at hok
    rw [hno] at hok
    cases hok
  have houtcome : fileOutcome c v none = processedOutcome c v DBrow.zero := by
    have hunavailable : unavailableLocked c v DBrow.zero = false := rfl
    have hchanged : leavesUnchanged c (decidedFile c v DBrow.zero) = false := by
      rw [leavesUnchanged,unchangedAndComplete,decidedFile_db]
      rfl
    have hwatched : lockedTimestampDriftOnly c (decidedFile c v DBrow.zero) = false := by
      rw [lockedTimestampDriftOnly,hunknown]
      rfl
    unfold fileOutcome storedRow
    dsimp only
    rw [hpatterns,hunavailable,hchanged,hwatched]
    rfl
  rw [houtcome] at hok ⊢
  unfold processedOutcome at hok ⊢
  dsimp only at hok ⊢
  rw [if_pos hprocess] at hok ⊢
  by_cases hrehash : (decidedFile c v DBrow.zero).rehash = true
  · rw [if_pos hrehash] at hok ⊢
    rw [settledOutcome_failed] at hok
    rw [hok]
    apply hsettled
    have hread (file : File) : readRecord v file = file := by
      unfold readRecord
      rw [hlegible.readable]
    unfold hashPass at hok ⊢
    rw [hlegible.openable] at hok ⊢
    dsimp only at hok ⊢
    split
    · rename_i hseek
      rw [if_pos hseek] at hok
      split
      · rename_i hperform
        rw [if_pos hperform] at hok
        cases hdigest : sha512From (preparedContext (decidedFile c v DBrow.zero)).mdContext
            (v.disk.delivered (decidedFile c v DBrow.zero).checksumOffset) with
        | none =>
          rw [hdigest] at hok
          cases hok
        | some digest =>
          rw [hread]
          exact .inl rfl
      · exact .inl (preparedContext_shown _)
    · exact .inr rfl
  · rw [if_neg hrehash]
    exact hsettled _ (.inl rfl)

end Precizer.Traversal
