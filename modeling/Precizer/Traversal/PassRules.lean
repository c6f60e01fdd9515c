import Precizer.Traversal.FileWrites

/-! # Properties of a whole pass

A condition on the files a pass meets is read in the state in which each file is met.
A stable property whose save points survive wherever the condition holds survives the
pass.
-/
namespace Precizer.Traversal
open General Rational Digest Database

/-- The state in which the entry of a visit is looked at. -/
def metState (v : Visit) (p : Pass) : Pass := checkBatch v { p with skipBelow := none }

/-- The turn of the loop comes to the branch of a regular file. -/
def meetsFile (c : Config) (p : Pass) (v : Visit) : Bool :=
  p.continueTheLoop && p.delivers v.entry && !(p.interrupted || v.signal.raised .top) &&
    !(metState v p).status.failure && !beyondMaxdepth c v.entry && v.entry.info = .file

/-- The regular files the visits meet, each with the state in which it is met. -/
def visitsMet (c : Config) : List Visit → Pass → List (Visit × Pass)
  | [],_ => []
  | v :: rest,p =>
    (if meetsFile c p v then [(v,metState v p)] else []) ++ visitsMet c rest (traverseStep c p v)

def walkRoot (c : Config) (root : RootScript) (p : Pass) : Pass :=
  let p := root.visits.foldl (traverseStep c) { p with skipBelow := none }
  if root.closed then p else { p with status := failureStatus }

def Pass.reportRoot (p : Pass) : Pass :=
  { p with session := (p.session.report .rootUnavailable).requestReplay }

def rootsMet (c : Config) : List RootScript → Pass → List (Visit × Pass)
  | [],_ => []
  | root :: rest,p =>
    if !root.opened then rootsMet c rest p.reportRoot
    else if !root.ftsOpened then []
    else visitsMet c root.visits { p with skipBelow := none } ++
      if (walkRoot c root p).interrupted || !(walkRoot c root p).status.success then []
      else rootsMet c rest (walkRoot c root p)

def passStart (script : PassScript) (s : Session) : Pass :=
  { session := s, interrupted := script.raisedBefore, halted := script.haltedBefore }

def passMet (c : Config) (script : PassScript) (s : Session) : List (Visit × Pass) :=
  if c.compare then []
  else if leave script.haltedBefore script.bufferReady ≠ successStatus then []
  else rootsMet c script.roots (passStart script s)

variable {c : Config} {met : List (Visit × Pass)} {Φ : Pass → Prop}

theorem walkRoots_cons (root : RootScript) (rest : List RootScript) (p : Pass)
    (hopened : root.opened = true) (hfts : root.ftsOpened = true) :
    walkRoots c (root :: rest) p =
      if (walkRoot c root p).interrupted || !(walkRoot c root p).status.success then walkRoot c root p
      else walkRoots c rest (walkRoot c root p) := by
  rw [walkRoots,hopened,hfts]
  simp only [Bool.not_true,Bool.false_eq_true,↓reduceIte]
  rfl

/-- What every turn of the traversal and every change of the root keeps. -/
structure WalkInvariant (c : Config) (met : List (Visit × Pass)) (Φ : Pass → Prop) : Prop where
  turn : ∀ v p, Φ p → (meetsFile c p v = true → (v,metState v p) ∈ met) → Φ (traverseStep c p v)
  descend : ∀ p, Φ p → Φ { p with skipBelow := none }
  unavailable : ∀ p, Φ p → Φ p.reportRoot
  failed : ∀ p, Φ p → Φ { p with status := failureStatus }

namespace WalkInvariant

theorem visits (h : WalkInvariant c met Φ) (visits : List Visit) {p : Pass} (hp : Φ p)
    (hmet : visitsMet c visits p ⊆ met) : Φ (visits.foldl (traverseStep c) p) := by
  induction visits generalizing p with
  | nil => exact hp
  | cons v rest ih =>
    refine ih (h.turn v p hp ?_) ?_
    · intro hmeets
      apply hmet
      rw [visitsMet,if_pos hmeets]
      exact List.mem_append_left _ (List.mem_singleton_self _)
    · exact fun m hm => hmet (List.mem_append_right _ hm)

theorem root (h : WalkInvariant c met Φ) (root : RootScript) {p : Pass} (hp : Φ p)
    (hmet : visitsMet c root.visits { p with skipBelow := none } ⊆ met) : Φ (walkRoot c root p) := by
  have hvisits := h.visits root.visits (h.descend p hp) hmet
  unfold walkRoot
  dsimp only
  split
  · exact hvisits
  · exact h.failed _ hvisits

theorem roots (h : WalkInvariant c met Φ) (roots : List RootScript) {p : Pass} (hp : Φ p)
    (hmet : rootsMet c roots p ⊆ met) : Φ (walkRoots c roots p) := by
  induction roots generalizing p with
  | nil => exact hp
  | cons root rest ih =>
    unfold rootsMet at hmet
    cases hopened : root.opened with
    | false =>
      simp only [hopened,Bool.not_false,↓reduceIte] at hmet
      simp only [walkRoots,hopened,Bool.not_false,↓reduceIte]
      exact ih (h.unavailable p hp) hmet
    | true =>
      cases hfts : root.ftsOpened with
      | false =>
        simp only [walkRoots,hopened,hfts,Bool.not_true,Bool.false_eq_true,Bool.not_false,↓reduceIte]
        exact h.failed p hp
      | true =>
        simp only [hopened,hfts,Bool.not_true,Bool.false_eq_true,↓reduceIte] at hmet
        have hwalked := h.root root hp (fun m hm => hmet (List.mem_append_left _ hm))
        rw [walkRoots_cons root rest p hopened hfts]
        split
        · exact hwalked
        · rename_i hgoes
          refine ih hwalked (fun m hm => hmet (List.mem_append_right _ ?_))
          rw [if_neg hgoes]
          exact hm

def MetUnder (c : Config) (Φ : Pass → Prop) (m : Visit × Pass) : Prop :=
  ∃ p, Φ p ∧ meetsFile c p m.1 = true ∧ m.2 = metState m.1 p

theorem visits_met (h : WalkInvariant c met Φ) (visits : List Visit) {p : Pass} (hp : Φ p)
    (hmet : visitsMet c visits p ⊆ met) : ∀ m ∈ visitsMet c visits p, MetUnder c Φ m := by
  induction visits generalizing p with
  | nil => simp [visitsMet]
  | cons v rest ih =>
    have hturn : Φ (traverseStep c p v) := by
      refine h.turn v p hp ?_
      intro hmeets
      apply hmet
      rw [visitsMet,if_pos hmeets]
      exact List.mem_append_left _ (List.mem_singleton_self _)
    intro m hm
    rcases List.mem_append.mp hm with hm | hm
    · split at hm
      · rename_i hmeets
        rw [List.mem_singleton.mp hm]
        exact ⟨p,hp,hmeets,rfl⟩
      · cases hm
    · exact ih hturn (fun m hm => hmet (List.mem_append_right _ hm)) m hm

theorem roots_met (h : WalkInvariant c met Φ) (roots : List RootScript) {p : Pass} (hp : Φ p)
    (hmet : rootsMet c roots p ⊆ met) : ∀ m ∈ rootsMet c roots p, MetUnder c Φ m := by
  induction roots generalizing p with
  | nil => simp [rootsMet]
  | cons root rest ih =>
    unfold rootsMet at hmet ⊢
    cases hopened : root.opened with
    | false =>
      simp only [hopened,Bool.not_false,↓reduceIte] at hmet ⊢
      exact ih (h.unavailable p hp) hmet
    | true =>
      cases hfts : root.ftsOpened with
      | false => simp
      | true =>
        simp only [hopened,hfts,Bool.not_true,Bool.false_eq_true,↓reduceIte] at hmet ⊢
        have hwalked := h.root root hp (fun m hm => hmet (List.mem_append_left _ hm))
        intro m hm
        rcases List.mem_append.mp hm with hm | hm
        · exact h.visits_met root.visits (h.descend p hp) (fun m hm => hmet (List.mem_append_left _ hm)) m hm
        · split at hm
          · cases hm
          · rename_i hgoes
            refine ih hwalked (fun m hm => hmet (List.mem_append_right _ ?_)) m hm
            rw [if_neg hgoes]
            exact hm

end WalkInvariant

/-- Once an interrupt is pending no file is met any more. -/
theorem rootsMet_interrupted (roots : List RootScript) {p : Pass} (hp : p.interrupted = true) :
    rootsMet c roots p = [] := by
  have hwalk : WalkInvariant c (rootsMet c roots p) fun p => p.interrupted = true := by
    refine ⟨?_,fun _ hp => hp,fun _ hp => hp,fun _ hp => hp⟩
    rintro v p hp -
    unfold traverseStep
    split
    · simp [hp]
    · exact hp
  apply List.eq_nil_iff_forall_not_mem.mpr
  intro m hm
  obtain ⟨q,hq,hmeets,-⟩ := hwalk.roots_met roots hp (List.Subset.refl _) m hm
  simp [meetsFile,hq] at hmeets

section Always

variable {P : List Event → FilesTable → Prop} (hP : Store.Stable P)
include hP

theorem checkBatch_always (v : Visit) {p : Pass} (h : p.session.Always P) :
    (checkBatch v p).session.Always P := by
  unfold checkBatch
  split
  · exact always_check hP _ _ _ h
  · exact h

theorem directoryShow_always (path : RelativePath) (scope : Scope) {s : Session} (h : s.Always P) :
    (directoryShow c path scope s).Always P := by
  unfold directoryShow
  split
  · exact h
  · split
    · exact h.report hP _
    · split
      · exact h.report hP _
      · exact h

theorem processDirectory_always (v : Visit) {p : Pass} (h : p.session.Always P) :
    (processDirectory c v p).session.Always P := by
  unfold processDirectory
  dsimp only
  generalize (if v.signal.halted .path then v.staleText else v.entry.path) = path
  split
  · exact h
  · split
    · exact h
    · split
      · exact directoryShow_always hP _ _ h
      · split
        · exact directoryShow_always hP _ _ h
        · exact ((directoryShow_always hP _ _ h).report hP _).sideWrite _

theorem processUnreadable_always (v : Visit) (report : RelativePath → Report) {p : Pass}
    (h : p.session.Always P) : (processUnreadable v report p).session.Always P := by
  unfold processUnreadable
  dsimp only
  split
  · exact h
  · exact (h.report hP _).sideWrite _

theorem traverseStep_always (v : Visit) {p : Pass} (h : p.session.Always P)
    (hkeep : meetsFile c p v = true → (metState v p).session.Always P → SavesKeep P c v (metState v p)) :
    (traverseStep c p v).session.Always P := by
  have hmet : (metState v p).session.Always P := checkBatch_always hP v h
  unfold traverseStep
  split
  · rename_i hdelivered
    unfold visitEntry
    split
    · exact h
    · rename_i hraised
      rw [show checkBatch v { p with skipBelow := none } = metState v p from rfl]
      dsimp only
      split
      · exact hmet
      · rename_i hnofail
        split
        · split
          · exact hmet
          · exact hmet
        · rename_i hdepth
          unfold processEntry
          cases hinfo : v.entry.info with
          | directory => exact processDirectory_always hP v hmet
          | file =>
            refine processFile_always hP hmet (hkeep ?_ hmet)
            have hraised : (p.interrupted || v.signal.raised .top) = false := by simpa using hraised
            simp [meetsFile,hdelivered,hraised,hnofail,hdepth,hinfo]
          | unreadableDirectory => exact processUnreadable_always hP v _ hmet
          | error => exact processUnreadable_always hP v _ hmet
          | noStat => exact processUnreadable_always hP v _ hmet
          | other => exact hmet
  · exact h

theorem always_walk (hkeep : ∀ m ∈ met, m.2.session.Always P → SavesKeep P c m.1 m.2) :
    WalkInvariant c met fun p => p.session.Always P where
  turn := fun v _ hp hmet => traverseStep_always hP v hp (fun hmeets => hkeep _ (hmet hmeets))
  descend := fun _ hp => hp
  unavailable := fun _ hp => (hp.report hP _).requestReplay
  failed := fun _ hp => hp

theorem finishPass_always (f : FinishScript) {p : Pass} (h : p.session.Always P) :
    (finishPass f p).session.Always P := by
  have hcommitted : ∀ halted,
      (if p.status.failure then (p.status,p.session) else
        let r := dbFileTransactionCommit halted f.commit p.session
        (call (globalReturnStatus halted) p.status r.1,r.2)).2.Always P := by
    intro halted
    split
    · exact h
    · exact always_commit hP _ _ h
  exact always_rollback hP _ _ (hcommitted _)

theorem fileList_always (script : PassScript) {s : Session} (h : s.Always P)
    (hkeep : ∀ m ∈ passMet c script s, m.2.session.Always P → SavesKeep P c m.1 m.2) :
    (fileList c script s).session.Always P := by
  unfold fileList
  dsimp only
  split
  · exact h
  · rename_i hcompare
    split
    · exact h
    · rename_i hready
      have hwalk := always_walk hP hkeep
      refine finishPass_always hP _ (hwalk.roots script.roots h ?_)
      rw [passMet,if_neg hcompare,if_neg hready]
      exact List.Subset.refl _

theorem passMet_always (script : PassScript) {s : Session} (h : s.Always P)
    (hkeep : ∀ m ∈ passMet c script s, m.2.session.Always P → SavesKeep P c m.1 m.2) :
    ∀ m ∈ passMet c script s, m.2.session.Always P := by
  have hwalk := always_walk hP hkeep
  intro m hm
  have hcompare : ¬ c.compare = true := by
    intro hcompare
    simp [passMet,hcompare] at hm
  have hready : ¬ leave script.haltedBefore script.bufferReady ≠ successStatus := by
    intro hready
    rw [passMet,if_neg hcompare,if_pos hready] at hm
    cases hm
  have hroots : passMet c script s = rootsMet c script.roots (passStart script s) := by
    rw [passMet,if_neg hcompare,if_neg hready]
  have hstart : (passStart script s).session.Always P := h
  obtain ⟨_,hp,-,hstate⟩ := hwalk.roots_met script.roots hstart
    (hroots ▸ List.Subset.refl _) m (hroots ▸ hm)
  rw [hstate]
  exact checkBatch_always hP m.1 hp

end Always
end Precizer.Traversal
