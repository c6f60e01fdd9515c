import Precizer.General.SkippedSubtrees
import Precizer.Traversal.MetFiles

/-! # What a walk reaches

Every turn of a walk that comes to its end decides about the subtree of its directory by the
patterns and the access check alone. So a regular file is met unless a directory above it was
skipped, and a met file is in scope by the patterns of its own path.
-/
namespace Precizer.Traversal
open General Rational Digest Database

/-- The walk does not descend into the directory. -/
def SkipsSubtree (c : Config) (v : Visit) : Prop :=
  v.entry.info = .directory ∧
    if (matchIncludeIgnore c false v.entry.path).ignored then
      c.includeSpecified = false ∧ c.lockChecksumSpecified = false
    else v.access ≠ .accessAllowed ∧ c.includeSpecified = false

instance (c : Config) : DecidablePred (SkipsSubtree c) := fun v => by
  unfold SkipsSubtree
  infer_instance

/-- The turn comes to a regular file whose path is in scope. -/
def Processes (c : Config) (p : Pass) (v : Visit) : Prop :=
  meetsFile c p v = true ∧ ∃ st, loadFile c v (metState v p) = .ok st ∧ st.file.ignore = false

def rootsWalked (c : Config) : List RootScript → Pass → List (RootScript × Pass)
  | [],_ => []
  | root :: rest,p =>
    if !root.opened then rootsWalked c rest p.reportRoot
    else if !root.ftsOpened then []
    else (root,p) ::
      if (walkRoot c root p).interrupted || !(walkRoot c root p).status.success then []
      else rootsWalked c rest (walkRoot c root p)

def passRoots (c : Config) (script : PassScript) (s : Session) : List (RootScript × Pass) :=
  if c.compare then []
  else if leave script.haltedBefore script.bufferReady ≠ successStatus then []
  else rootsWalked c script.roots (passStart script s)

section Turn

variable {c : Config} {v : Visit} {p : Pass}

theorem checkBatch_frame (v : Visit) (p : Pass) : (checkBatch v p).continueTheLoop = p.continueTheLoop ∧
    (checkBatch v p).interrupted = p.interrupted ∧ (checkBatch v p).skipBelow = p.skipBelow := by
  unfold checkBatch
  split <;> exact ⟨rfl,rfl,rfl⟩

theorem settleFile_skipBelow (st : HashStage) : (settleFile c v p st).skipBelow = p.skipBelow := by
  unfold settleFile
  dsimp only
  split
  · rfl
  · split
    · rfl
    · split <;> rfl

theorem hashStage_skipBelow {st : FileStage} {q : Pass} (h : hashStage c v p st = .error q) :
    q.skipBelow = p.skipBelow := by
  unfold hashStage at h
  dsimp only at h
  generalize (if st.status = successStatus then sha512sum c v v.entry.path st.file
    st.file.db.relativePathWasInDbBeforeProcessing st.session
    else ⟨st.status,st.session,st.file,st.file.db.relativePathWasInDbBeforeProcessing⟩) = r at h
  split at h
  · split at h
    · split at h
      · split at h
        · split at h
          · cases h
            rfl
          · cases h
        · cases h
      · cases h
    · cases h
  · cases h

theorem processFile_skipBelow : (processFile c v p).skipBelow = p.skipBelow := by
  rcases processFile_cases c v p with ⟨status,session,hstop,-⟩ | ⟨-,⟨-,hstop⟩ | ⟨-,hnext⟩⟩ | ⟨-,-,hnext⟩ |
    ⟨-,-,-,hsettled⟩
  · rw [hstop]
    rfl
  · rw [hstop]
    rfl
  · rw [hnext]
    rfl
  · rw [hnext]
    rfl
  · rw [hsettled]
    cases hstage : hashStage c v p (decidedStage c v p) with
    | error q => exact hashStage_skipBelow hstage
    | ok st => exact settleFile_skipBelow _

/-- A directory that lets the walk go on decides about its subtree. -/
theorem processDirectory_skipBelow (hinfo : v.entry.info = .directory) (hquiet : v.signal.arrival = none)
    (hnone : p.skipBelow = none) (hgoes : (processDirectory c v p).continueTheLoop = true) :
    (processDirectory c v p).skipBelow = if SkipsSubtree c v then some v.entry.level else none := by
  unfold processDirectory at hgoes ⊢
  simp only [Signal.halted_none hquiet,Bool.false_eq_true,↓reduceIte,leave_eq,outcome_triumph,Bool.or_false]
    at hgoes ⊢
  generalize run (globalReturnStatus false) p.status (outcome v.pathBuilt false) = built at hgoes ⊢
  cases hbuilt : built.triumph with
  | false =>
    rw [hbuilt] at hgoes
    cases hgoes
  | true =>
    rw [hbuilt] at hgoes
    simp only [Bool.not_true,Bool.false_eq_true,↓reduceIte] at hgoes ⊢
    cases hok : (matchIncludeIgnore c false v.entry.path).ok with
    | false =>
      rw [hok] at hgoes
      cases hgoes
    | true =>
      simp only [Bool.not_true,Bool.false_eq_true,↓reduceIte]
      by_cases hignored : (matchIncludeIgnore c false v.entry.path).ignored = true
      · have hskips : SkipsSubtree c v ↔ c.includeSpecified = false ∧ c.lockChecksumSpecified = false := by
          unfold SkipsSubtree
          rw [if_pos hignored]
          exact and_iff_right hinfo
        rw [if_pos hignored]
        simp only [hskips]
        cases c.includeSpecified <;> cases c.lockChecksumSpecified <;> rfl
      · have hskips : SkipsSubtree c v ↔ v.access ≠ .accessAllowed ∧ c.includeSpecified = false := by
          unfold SkipsSubtree
          rw [if_neg hignored]
          exact and_iff_right hinfo
        rw [if_neg hignored]
        simp only [hskips]
        by_cases haccess : v.access = .accessAllowed
        · rw [if_pos haccess,if_neg fun h => h.1 haccess]
          exact hnone
        · rw [if_neg haccess]
          cases c.includeSpecified <;> simp [haccess]

theorem processUnreadable_skipBelow (report : RelativePath → Report) :
    (processUnreadable v report p).skipBelow = p.skipBelow := by
  unfold processUnreadable
  dsimp only
  split <;> rfl

theorem visitEntry_goes (hdepth : c.maxdepth = none) (hquiet : v.signal.arrival = none) (hint : p.interrupted = false)
    (hnone : p.skipBelow = none) (hgoes : (visitEntry c v p).continueTheLoop = true) :
    (checkBatch v p).status.failure = false ∧
      (visitEntry c v p).skipBelow = if SkipsSubtree c v then some v.entry.level else none := by
  have hnear : beyondMaxdepth c v.entry = false := by rw [beyondMaxdepth,hdepth]
  have hskip : (checkBatch v p).skipBelow = none := (checkBatch_frame v p).2.2.trans hnone
  unfold visitEntry at hgoes ⊢
  rw [Signal.raised_none hquiet,hint] at hgoes ⊢
  simp only [Bool.or_self,Bool.false_eq_true,↓reduceIte,hnear] at hgoes ⊢
  generalize checkBatch v p = q at hgoes hskip ⊢
  cases hfailed : q.status.failure with
  | true =>
    rw [hfailed] at hgoes
    cases hgoes
  | false =>
    rw [hfailed] at hgoes
    simp only [Bool.false_eq_true,↓reduceIte] at hgoes ⊢
    refine ⟨trivial,?_⟩
    by_cases hinfo : v.entry.info = .directory
    · unfold processEntry at hgoes ⊢
      rw [hinfo] at hgoes ⊢
      exact processDirectory_skipBelow hinfo hquiet hskip hgoes
    · rw [if_neg fun hskips => hinfo hskips.1,← hskip]
      unfold processEntry
      cases hother : v.entry.info with
      | directory => exact absurd hother hinfo
      | file => exact processFile_skipBelow
      | unreadableDirectory => exact processUnreadable_skipBelow _
      | error => exact processUnreadable_skipBelow _
      | noStat => exact processUnreadable_skipBelow _
      | other => rfl

theorem traverseStep_goes (hdepth : c.maxdepth = none) (hdelivers : p.delivers v.entry = true)
    (hgoes : (traverseStep c p v).continueTheLoop = true) (hint : (traverseStep c p v).interrupted = false) :
    p.continueTheLoop = true ∧ p.interrupted = false ∧ v.signal.arrival = none ∧
      (metState v p).status.failure = false ∧
      (traverseStep c p v).skipBelow = if SkipsSubtree c v then some v.entry.level else none := by
  have hcontinue : p.continueTheLoop = true := by
    by_contra hno
    rw [traverseStep_stopped (by simpa using hno)] at hgoes
    exact hno hgoes
  have hbefore := traverseStep_interrupted hint
  have hquiet := traverseStep_quiet hcontinue hdelivers hint
  have hturn : (p.continueTheLoop && p.delivers v.entry) = true := by rw [hcontinue,hdelivers,Bool.and_self]
  unfold traverseStep at hgoes ⊢
  rw [if_pos hturn] at hgoes ⊢
  obtain ⟨hstatus,hskip⟩ := visitEntry_goes (p := { p with skipBelow := none }) hdepth hquiet hbefore rfl hgoes
  exact ⟨hcontinue,hbefore,hquiet,hstatus,hskip⟩

end Turn

section Walk

variable {c : Config} {p : Pass}

theorem walk_frame (visits : List Visit) (hgoes : (visits.foldl (traverseStep c) p).continueTheLoop = true) :
    p.continueTheLoop = true := by
  by_contra hno
  have hstopped : p.continueTheLoop = false := by simpa using hno
  rw [walk_stopped visits hstopped] at hgoes
  exact hno hgoes

theorem delivers_iff (v : Visit) : p.delivers v.entry = true ↔ reaches p.skipBelow v.entry.level := by
  unfold Pass.delivers reaches
  cases p.skipBelow with
  | none => simp
  | some l => simp

theorem walk_skipBelow (hdepth : c.maxdepth = none) (visits : List Visit)
    (hgoes : (visits.foldl (traverseStep c) p).continueTheLoop = true)
    (hint : (visits.foldl (traverseStep c) p).interrupted = false) :
    (visits.foldl (traverseStep c) p).skipBelow =
      skipAfter (fun v : Visit => v.entry.level) (SkipsSubtree c) p.skipBelow visits := by
  induction visits generalizing p with
  | nil => rfl
  | cons v rest ih =>
    rw [List.foldl_cons] at hgoes hint ⊢
    rw [ih hgoes hint]
    rw [skipAfter]
    by_cases hdelivers : p.delivers v.entry = true
    · have hstep := traverseStep_goes hdepth hdelivers (walk_frame rest hgoes) (walk_interrupted rest hint)
      rw [if_pos ((delivers_iff v).mp hdelivers),hstep.2.2.2.2]
    · rw [if_neg (mt (delivers_iff v).mpr hdelivers),traverseStep_undelivered (Bool.eq_false_of_not_eq_true hdelivers)]

/-- A delivered file that is met in a walk that goes on is in scope by the patterns of its path. -/
theorem processes_iff {v : Visit} (hmeets : meetsFile c p v = true)
    (hgoes : (traverseStep c p v).continueTheLoop = true) : Processes c p v ↔
      (c.locked v.entry.path = true ∨ (matchIncludeIgnore c false v.entry.path).ignored = false) := by
  have hload : loadFile c v (metState v p) = .ok ⟨successStatus,(metState v p).session,
      loadedFile c (readRow (metState v p).session.table v.entry.path) v.entry.path⟩ := by
    rcases loadFile_cases c v (metState v p) with ⟨status,session,hstop,-⟩ | hload
    · have hprocess : processFile c v (metState v p) = (metState v p).stop status session := by
        unfold processFile
        rw [hstop]
      have hstopped : (traverseStep c p v).continueTheLoop = false := by
        rw [(traverseStep_met hmeets).2.2,hprocess]
        rfl
      rw [hstopped] at hgoes
      cases hgoes
    · exact hload
  unfold Processes
  constructor
  · rintro ⟨-,st,hst,hvisible⟩
    obtain rfl := Except.ok.inj (hload.symm.trans hst)
    have hscope : ((matchIncludeIgnore c false v.entry.path).ignored && !c.locked v.entry.path) = false := hvisible
    cases hlocked : c.locked v.entry.path with
    | true => exact .inl rfl
    | false =>
      rw [hlocked] at hscope
      exact .inr (by simpa using hscope)
  · intro hscope
    refine ⟨hmeets,_,hload,?_⟩
    change ((matchIncludeIgnore c false v.entry.path).ignored && !c.locked v.entry.path) = false
    rcases hscope with hlocked | hvisible
    · simp [hlocked]
    · simp [hvisible]

/-- In a walk that was not cut short a regular file is processed unless its path is out of
scope or a directory above it was skipped. -/
theorem walk_processes {before after : List Visit} {v : Visit} (hdepth : c.maxdepth = none)
    (hgoes : ((before ++ v :: after).foldl (traverseStep c) p).continueTheLoop = true)
    (hint : ((before ++ v :: after).foldl (traverseStep c) p).interrupted = false) (hstart : p.skipBelow = none)
    (hinfo : v.entry.info = .file) : Processes c (before.foldl (traverseStep c) p) v ↔
      (c.locked v.entry.path = true ∨ (matchIncludeIgnore c false v.entry.path).ignored = false) ∧
        ∀ d, Above (fun w : Visit => w.entry.level) before d v.entry.level → ¬ SkipsSubtree c d := by
  rw [List.foldl_append,List.foldl_cons] at hgoes hint
  have hturnGoes := walk_frame after hgoes
  have hturnInt := walk_interrupted after hint
  generalize hq : before.foldl (traverseStep c) p = q at *
  have hskip : q.skipBelow = skipAfter (fun v : Visit => v.entry.level) (SkipsSubtree c) none before := by
    have hbeforeGoes : q.continueTheLoop = true := walk_frame [v] hturnGoes
    have hbeforeInt : q.interrupted = false := traverseStep_interrupted hturnInt
    rw [← hq] at hbeforeGoes hbeforeInt ⊢
    rw [walk_skipBelow hdepth before hbeforeGoes hbeforeInt,hstart]
  rw [← reaches_skipAfter,← hskip,← delivers_iff]
  constructor
  · intro hprocesses
    have hmeets := hprocesses.1
    refine ⟨(processes_iff hmeets hturnGoes).mp hprocesses,?_⟩
    unfold meetsFile at hmeets
    simp only [Bool.and_eq_true] at hmeets
    exact hmeets.1.1.1.1.2
  · rintro ⟨hscope,hdelivers⟩
    obtain ⟨hcontinue,hbefore,hquiet,hstatus,-⟩ := traverseStep_goes hdepth hdelivers hturnGoes hturnInt
    have hmeets : meetsFile c q v = true := by
      have hnear : beyondMaxdepth c v.entry = false := by rw [beyondMaxdepth,hdepth]
      simp [meetsFile,hcontinue,hdelivers,hbefore,Signal.raised_none hquiet,hstatus,hnear,hinfo]
    exact (processes_iff hmeets hturnGoes).mpr hscope

end Walk

section Roots

variable {c : Config}

theorem walkRoot_visits (root : RootScript) (p : Pass) :
    (walkRoot c root p).continueTheLoop = (root.visits.foldl (traverseStep c) { p with skipBelow := none }).continueTheLoop ∧
      (walkRoot c root p).interrupted = (root.visits.foldl (traverseStep c) { p with skipBelow := none }).interrupted := by
  unfold walkRoot
  dsimp only
  split <;> exact ⟨rfl,rfl⟩

theorem walkRoots_goes (roots : List RootScript) {p : Pass} (hgoes : (walkRoots c roots p).continueTheLoop = true)
    (hint : (walkRoots c roots p).interrupted = false) : (p.continueTheLoop = true ∧ p.interrupted = false) ∧
      ∀ x ∈ rootsWalked c roots p, (walkRoot c x.1 x.2).continueTheLoop = true ∧
        (walkRoot c x.1 x.2).interrupted = false := by
  induction roots generalizing p with
  | nil => exact ⟨⟨hgoes,hint⟩,fun x hx => by cases hx⟩
  | cons root rest ih =>
    unfold rootsWalked
    cases hopened : root.opened with
    | false =>
      rw [walkRoots,hopened] at hgoes hint
      exact ih (p := p.reportRoot) hgoes hint
    | true =>
      cases hfts : root.ftsOpened with
      | false =>
        rw [walkRoots,hopened,hfts] at hgoes hint
        exact ⟨⟨hgoes,hint⟩,fun x hx => by cases hx⟩
      | true =>
        rw [walkRoots_cons root rest p hopened hfts] at hgoes hint
        simp only [Bool.not_true,Bool.false_eq_true,↓reduceIte]
        have hwalked : ((walkRoot c root p).continueTheLoop = true ∧ (walkRoot c root p).interrupted = false) ∧
            ∀ x ∈ (if (walkRoot c root p).interrupted || !(walkRoot c root p).status.success then []
              else rootsWalked c rest (walkRoot c root p)), (walkRoot c x.1 x.2).continueTheLoop = true ∧
                (walkRoot c x.1 x.2).interrupted = false := by
          split
          · rename_i hends
            rw [if_pos hends] at hgoes hint
            exact ⟨⟨hgoes,hint⟩,fun x hx => by cases hx⟩
          · rename_i hmore
            rw [if_neg hmore] at hgoes hint
            exact ih hgoes hint
        obtain ⟨hfirst,hrest⟩ := hwalked
        obtain ⟨hcontinue,hquiet⟩ := walkRoot_visits (c := c) root p
        refine ⟨⟨?_,?_⟩,?_⟩
        · exact walk_frame (p := { p with skipBelow := none }) root.visits (hcontinue.symm.trans hfirst.1)
        · exact walk_interrupted (p := { p with skipBelow := none }) root.visits (hquiet.symm.trans hfirst.2)
        · intro x hx
          rcases List.mem_cons.mp hx with rfl | hx
          · exact hfirst
          · exact hrest x hx

theorem fileList_goes {script : PassScript} {s : Session} (hgoes : (fileList c script s).continueTheLoop = true)
    (hint : (fileList c script s).interrupted = false) : ∀ x ∈ passRoots c script s,
      (x.1.visits.foldl (traverseStep c) { x.2 with skipBelow := none }).continueTheLoop = true ∧
        (x.1.visits.foldl (traverseStep c) { x.2 with skipBelow := none }).interrupted = false := by
  intro x hx
  unfold passRoots at hx
  split at hx
  · cases hx
  · rename_i hcompare
    split at hx
    · cases hx
    · rename_i hready
      unfold fileList at hgoes hint
      dsimp only at hgoes hint
      rw [if_neg hcompare,if_neg hready] at hgoes hint
      have hwalked : (walkRoots c script.roots (passStart script s)).interrupted = false :=
        (Bool.or_eq_false_iff.mp hint).1
      obtain ⟨hcontinue,hquiet⟩ := (walkRoots_goes script.roots hgoes hwalked).2 x hx
      obtain ⟨hsame,hsame'⟩ := walkRoot_visits (c := c) x.1 x.2
      exact ⟨hsame.symm.trans hcontinue,hsame'.symm.trans hquiet⟩

end Roots

end Precizer.Traversal
