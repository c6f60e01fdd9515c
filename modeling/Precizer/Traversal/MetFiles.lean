import Precizer.Traversal.VisitEvents
import Precizer.Traversal.SmoothPass
import Precizer.Traversal.PlanRules

/-! # The files a pass meets

However a pass is interrupted, a file that it meets is met with its session in order. What
the processing of each met file adds to the log bounds what the pass adds.
-/
namespace Precizer.Traversal
open General Rational Digest Database

/-- Nothing has failed so far, unless the pass is already over. -/
def OnCourse (p : Pass) : Prop :=
  p.interrupted = true ∨ p.continueTheLoop = false ∨ (p.status = successStatus ∧ Synced p.session)

/-- A regular file met in order by a visit that no interrupt reaches. -/
structure MetSmooth (c : Config) (m : Visit × Pass) : Prop where
  smooth : m.1.Smooth
  info : m.1.entry.info = .file
  depth : beyondMaxdepth c m.1.entry = false
  status : m.2.status = successStatus
  synced : Synced m.2.session

section Course

variable {c : Config} {v : Visit} {p : Pass}

theorem OnCourse.goes (h : OnCourse p) (hint : p.interrupted = false) (hcontinue : p.continueTheLoop = true) :
    p.status = successStatus ∧ Synced p.session := by
  rcases h with hover | hstopped | hfine
  · rw [hint] at hover
    cases hover
  · rw [hcontinue] at hstopped
    cases hstopped
  · exact hfine

theorem traverseStep_onCourse (hv : v.Works) (h : OnCourse p) : OnCourse (traverseStep c p v) := by
  cases hint : p.interrupted with
  | true =>
    rcases traverseStep_over (c := c) (.inl hint) v with hover | hstop
    · exact .inl hover
    · exact .inr (.inl hstop)
  | false =>
    cases hcontinue : p.continueTheLoop with
    | false =>
      rw [traverseStep_stopped hcontinue]
      exact h
    | true =>
      obtain ⟨hp,hs⟩ := h.goes hint hcontinue
      cases hdelivered : delivered p.skipBelow v.entry with
      | false =>
        rw [traverseStep_undelivered hdelivered]
        exact h
      | true =>
        by_cases hquiet : v.signal.arrival = none
        · have hsettled := traverseStep_smooth (c := c) ⟨hv,hquiet⟩ hp hs hcontinue hint hdelivered
          cases hfailed : (visitOutcome c v (contents p.session.table v.entry.path)).failed with
          | true => exact .inr (.inl (hsettled.stops hfailed).2)
          | false => exact .inr (.inr ⟨(hsettled.goes hfailed).1,hsettled.synced⟩)
        · left
          by_contra hno
          exact hquiet (traverseStep_quiet hcontinue hdelivered (by simpa using hno))

theorem visits_onCourse (visits : List Visit) (hworks : ∀ v ∈ visits, v.Works) (h : OnCourse p) :
    OnCourse (visits.foldl (traverseStep c) p) := by
  induction visits generalizing p with
  | nil => exact h
  | cons v rest ih =>
    exact ih (fun w hw => hworks w (List.mem_cons_of_mem _ hw))
      (traverseStep_onCourse (hworks v List.mem_cons_self) h)

/-- The timed commit before the file leaves the pass in order. -/
theorem metState_smooth (hv : v.Smooth) (hp : p.status = successStatus) (hs : Synced p.session) :
    (metState v p).status = successStatus ∧ Synced (metState v p).session ∧
      (metState v p).session.table = p.session.table := by
  unfold metState checkBatch
  dsimp only
  split
  · obtain ⟨s',hcheck,hmoved⟩ := check_works hs v.nowNs
    rw [Signal.halted_none hv.quiet,hv.batchCommit]
    dsimp only
    rw [hcheck,hp]
    exact ⟨show call (globalReturnStatus false) successStatus successStatus = successStatus by decide,
      hmoved.synced,hmoved.table⟩
  · exact ⟨hp,hs,rfl⟩

theorem metSmooth_of_meets (hv : v.Works) (hquiet : v.signal.arrival = none) (h : OnCourse p)
    (hmeets : meetsFile c p v = true) : MetSmooth c (v,metState v p) := by
  unfold meetsFile at hmeets
  simp only [Bool.and_eq_true,Bool.not_eq_true',Bool.or_eq_false_iff,decide_eq_true_eq] at hmeets
  obtain ⟨⟨⟨⟨⟨hcontinue,-⟩,hint,-⟩,-⟩,hdepth⟩,hinfo⟩ := hmeets
  obtain ⟨hp,hs⟩ := h.goes hint hcontinue
  obtain ⟨hstatus,hsynced,-⟩ := metState_smooth ⟨hv,hquiet⟩ hp hs
  exact ⟨⟨hv,hquiet⟩,hinfo,hdepth,hstatus,hsynced⟩

theorem visitsMet_smooth (visits : List Visit) (hworks : ∀ v ∈ visits, v.Works) (h : OnCourse p) :
    ∀ m ∈ visitsMet c visits p, m.1.signal.arrival = none → MetSmooth c m := by
  induction visits generalizing p with
  | nil => exact fun m hm => by cases hm
  | cons v rest ih =>
    intro m hm hquiet
    have hv := hworks v List.mem_cons_self
    rcases List.mem_append.mp hm with hm | hm
    · split at hm
      · rename_i hmeets
        obtain rfl := List.mem_singleton.mp hm
        exact metSmooth_of_meets hv hquiet h hmeets
      · cases hm
    · exact ih (fun w hw => hworks w (List.mem_cons_of_mem _ hw)) (traverseStep_onCourse hv h) m hm hquiet

theorem walkRoot_onCourse {root : RootScript} (hroot : root.Works) (h : OnCourse p) :
    walkRoot c root p = root.visits.foldl (traverseStep c) { p with skipBelow := none } ∧
      OnCourse (walkRoot c root p) := by
  have hwalk : walkRoot c root p = root.visits.foldl (traverseStep c) { p with skipBelow := none } := by
    unfold walkRoot
    dsimp only
    rw [hroot.closed]
    rfl
  refine ⟨hwalk,?_⟩
  rw [hwalk]
  exact visits_onCourse (p := { p with skipBelow := none }) root.visits hroot.visits h

theorem rootsMet_cons {root : RootScript} (hroot : root.Works) (rest : List RootScript) :
    rootsMet c (root :: rest) p = visitsMet c root.visits { p with skipBelow := none } ++
      if (walkRoot c root p).interrupted || !(walkRoot c root p).status.success then []
      else rootsMet c rest (walkRoot c root p) := by
  rw [rootsMet,hroot.opened,hroot.ftsOpened]
  rfl

theorem rootsMet_smooth (roots : List RootScript) (hworks : ∀ root ∈ roots, root.Works) (h : OnCourse p) :
    ∀ m ∈ rootsMet c roots p, m.1.signal.arrival = none → MetSmooth c m := by
  induction roots generalizing p with
  | nil => exact fun m hm => by cases hm
  | cons root rest ih =>
    have hroot := hworks root List.mem_cons_self
    rw [rootsMet_cons hroot]
    intro m hm hquiet
    rcases List.mem_append.mp hm with hm | hm
    · exact visitsMet_smooth (p := { p with skipBelow := none }) root.visits hroot.visits h m hm hquiet
    · split at hm
      · cases hm
      · exact ih (fun r hr => hworks r (List.mem_cons_of_mem _ hr)) (walkRoot_onCourse hroot h).2 m hm hquiet

theorem passMet_smooth {script : PassScript} {s : Session} (hworks : script.Works) (hs : Synced s) :
    ∀ m ∈ passMet c script s, m.1.signal.arrival = none → MetSmooth c m := by
  intro m hm
  unfold passMet at hm
  split at hm
  · cases hm
  · split at hm
    · cases hm
    · exact rootsMet_smooth script.roots hworks.roots (.inr (.inr ⟨rfl,hs⟩)) m hm

theorem passMet_quiet {script : PassScript} {s : Session} (hworks : script.Works) (hroot : script.roots.length = 1)
    (hcompare : c.compare = false) (hquiet : (fileList c script s).interrupted = false) :
    ∀ m ∈ passMet c script s, m.1.signal.arrival = none := by
  have hvisits : ∀ (visits : List Visit) (p : Pass), (visits.foldl (traverseStep c) p).interrupted = false →
      ∀ m ∈ visitsMet c visits p, m.1.signal.arrival = none := by
    intro visits
    induction visits with
    | nil => exact fun p _ m hm => by cases hm
    | cons v rest ih =>
      intro p hwalk m hm
      rcases List.mem_append.mp hm with hm | hm
      · split at hm
        · rename_i hmeets
          obtain rfl := List.mem_singleton.mp hm
          unfold meetsFile at hmeets
          simp only [Bool.and_eq_true] at hmeets
          exact traverseStep_quiet hmeets.1.1.1.1.1 hmeets.1.1.1.1.2 (walk_interrupted rest hwalk)
        · cases hm
      · exact ih _ hwalk m hm
  obtain ⟨root,hroots⟩ := List.length_eq_one_iff.mp hroot
  have hrootWorks : root.Works := hworks.roots root (hroots ▸ List.mem_singleton_self root)
  obtain ⟨-,hwalk,-⟩ := fileList_walked hworks hcompare hquiet
  rw [hroots,walkRoots_cons root [] _ hrootWorks.opened hrootWorks.ftsOpened] at hwalk
  have hwalked : (walkRoot c root (passStart script s)).interrupted = false := by
    split at hwalk
    · exact hwalk
    · exact hwalk
  have hwalkRoot : walkRoot c root (passStart script s) =
      root.visits.foldl (traverseStep c) { passStart script s with skipBelow := none } := by
    unfold walkRoot
    dsimp only
    rw [hrootWorks.closed]
    rfl
  rw [hwalkRoot] at hwalked
  intro m hm
  unfold passMet at hm
  split at hm
  · cases hm
  · split at hm
    · cases hm
    · rw [hroots,rootsMet_cons hrootWorks] at hm
      simp only [rootsMet,ite_self,List.append_nil] at hm
      exact hvisits _ _ hwalked m hm

theorem traverseStep_agrees {rest : List Visit} {stored : RelativePath → Option FileColumns} (hv : v.Smooth)
    (hp : p.status = successStatus) (hs : Synced p.session) (hcontinue : p.continueTheLoop = true)
    (hint : p.interrupted = false) (hdelivered : delivered p.skipBelow v.entry = true)
    (hgoes : (traverseStep c p v).continueTheLoop = true)
    (hapart : ∀ path ∈ filePaths [v], ∀ later ∈ filePaths rest, path ≠ later)
    (hagrees : Agrees p.session.table stored rest) : Agrees (traverseStep c p v).session.table stored rest := by
  have hsettled := traverseStep_smooth (c := c) hv hp hs hcontinue hint hdelivered
  intro path hpath
  rw [← hagrees path hpath]
  by_cases hsame : path = v.entry.path
  · have hother : v.entry.info ≠ .file := by
      intro hinfo
      exact hapart path (mem_filePaths.mpr ⟨v,List.mem_singleton_self v,hinfo,hsame.symm⟩) path hpath rfl
    have hcolumns : (visitOutcome c v (contents p.session.table v.entry.path)).columns = none := by
      cases hwritten : (visitOutcome c v (contents p.session.table v.entry.path)).columns with
      | none => rfl
      | some columns => exact absurd (visitOutcome_columns hwritten) hother
    have hok : (visitOutcome c v (contents p.session.table v.entry.path)).failed = false := by
      by_contra hfailed
      have hstops := (hsettled.stops (by simpa using hfailed)).2
      rw [hgoes] at hstops
      cases hstops
    rw [hsettled.unwritten hcolumns hok fun hinfo => absurd hinfo hother]
  · exact hsettled.others path hsame

theorem visitsMet_stored {stored : RelativePath → Option FileColumns} (visits : List Visit)
    (hworks : ∀ v ∈ visits, v.Works) (hnodup : (filePaths visits).Nodup) (h : OnCourse p)
    (hagrees : Agrees p.session.table stored visits) : ∀ m ∈ visitsMet c visits p, m.1.signal.arrival = none →
      contents m.2.session.table m.1.entry.path = stored m.1.entry.path := by
  induction visits generalizing p with
  | nil => exact fun m hm => by cases hm
  | cons v rest ih =>
    intro m hm hquiet
    have hv := hworks v List.mem_cons_self
    have hrest : ∀ w ∈ rest, w.Works := fun w hw => hworks w (List.mem_cons_of_mem _ hw)
    have hcons : filePaths (v :: rest) = filePaths [v] ++ filePaths rest := filePaths_append [v] rest
    rw [hcons,List.nodup_append] at hnodup
    obtain ⟨-,hnodupRest,hapart⟩ := hnodup
    have hagreesRest : Agrees p.session.table stored rest := fun path hpath =>
      hagrees path (by rw [hcons]; exact List.mem_append_right _ hpath)
    rcases List.mem_append.mp hm with hm | hm
    · split at hm
      · rename_i hmeets
        obtain rfl := List.mem_singleton.mp hm
        have hmet := metSmooth_of_meets (c := c) hv hquiet h hmeets
        obtain ⟨hp,hs⟩ : p.status = successStatus ∧ Synced p.session := by
          unfold meetsFile at hmeets
          simp only [Bool.and_eq_true,Bool.not_eq_true',Bool.or_eq_false_iff] at hmeets
          exact h.goes hmeets.1.1.1.2.1 hmeets.1.1.1.1.1
        rw [(metState_smooth ⟨hv,hquiet⟩ hp hs).2.2]
        exact hagrees v.entry.path (mem_filePaths.mpr ⟨v,List.mem_cons_self,hmet.info,rfl⟩)
      · cases hm
    · have hover : ¬ (p.interrupted = true ∨ p.continueTheLoop = false) ∧
          ¬ ((traverseStep c p v).interrupted = true ∨ (traverseStep c p v).continueTheLoop = false) := by
        refine ⟨fun hover => ?_,fun hover => ?_⟩
        · rw [visitsMet_over rest (traverseStep_over hover v)] at hm
          cases hm
        · rw [visitsMet_over rest hover] at hm
          cases hm
      obtain ⟨hbefore,hafter⟩ := hover
      obtain ⟨hint,hcontinue⟩ : p.interrupted = false ∧ p.continueTheLoop = true := by simpa using hbefore
      obtain ⟨hstepInt,hgoes⟩ : (traverseStep c p v).interrupted = false ∧
          (traverseStep c p v).continueTheLoop = true := by simpa using hafter
      obtain ⟨hp,hs⟩ := h.goes hint hcontinue
      refine ih hrest hnodupRest (traverseStep_onCourse hv h) ?_ m hm hquiet
      cases hdelivered : delivered p.skipBelow v.entry with
      | false =>
        rw [traverseStep_undelivered hdelivered]
        exact hagreesRest
      | true =>
        exact traverseStep_agrees ⟨hv,traverseStep_quiet hcontinue hdelivered hstepInt⟩ hp hs hcontinue hint hdelivered
          hgoes hapart hagreesRest

theorem passMet_stored {script : PassScript} {s : Session} (hworks : script.Works) (hroot : script.roots.length = 1)
    (hnodup : (filePaths script.visits).Nodup) (hs : Synced s) : ∀ m ∈ passMet c script s, m.1.signal.arrival = none →
      contents m.2.session.table m.1.entry.path = contents s.table m.1.entry.path := by
  obtain ⟨root,hroots⟩ := List.length_eq_one_iff.mp hroot
  have hrootWorks : root.Works := hworks.roots root (hroots ▸ List.mem_singleton_self root)
  have hvisits : script.visits = root.visits := by
    rw [PassScript.visits,hroots,List.flatMap_cons,List.flatMap_nil,List.append_nil]
  rw [hvisits] at hnodup
  intro m hm hquiet
  unfold passMet at hm
  split at hm
  · cases hm
  · split at hm
    · cases hm
    · rw [hroots,rootsMet_cons hrootWorks] at hm
      simp only [rootsMet,ite_self,List.append_nil] at hm
      exact visitsMet_stored (p := { passStart script s with skipBelow := none }) root.visits hrootWorks.visits hnodup
        (.inr (.inr ⟨rfl,hs⟩)) (fun _ _ => rfl) m hm hquiet

end Course

section Failure

variable {c : Config} {v : Visit} {p : Pass}

theorem traverseStep_met (h : meetsFile c p v = true) :
    (traverseStep c p v).session = (processFile c v (metState v p)).session ∧
      (traverseStep c p v).status = (processFile c v (metState v p)).status ∧
      (traverseStep c p v).continueTheLoop = (processFile c v (metState v p)).continueTheLoop := by
  unfold meetsFile at h
  simp only [Bool.and_eq_true,Bool.not_eq_true',decide_eq_true_eq] at h
  obtain ⟨⟨⟨⟨⟨hcontinue,hdelivers⟩,hraised⟩,hnofail⟩,hdepth⟩,hinfo⟩ := h
  have hvisit : visitEntry c v { p with skipBelow := none } = processFile c v (metState v p) := by
    have hraised : ¬(p.interrupted || v.signal.raised .top) = true := by simpa using hraised
    have hnofail : ¬(metState v p).status.failure = true := by simpa using hnofail
    have hdepth : ¬beyondMaxdepth c v.entry = true := by simpa using hdepth
    unfold visitEntry
    rw [if_neg hraised,show checkBatch v { p with skipBelow := none } = metState v p from rfl]
    dsimp only
    rw [if_neg hnofail,if_neg hdepth]
    unfold processEntry
    rw [hinfo]
  have hturn : (p.continueTheLoop && p.delivers v.entry) = true := by rw [hcontinue,hdelivers,Bool.and_self]
  unfold traverseStep
  rw [if_pos hturn,hvisit]
  exact ⟨rfl,rfl,rfl⟩

end Failure

section Events

variable {Q : Event → Prop} (hplain : ∀ e : Event, e.bookkeeping = true → Q e) {c : Config}
include hplain

theorem adds_directory (v : Visit) (p : Pass) : Adds Q p.session (processDirectory c v p).session := by
  have hshow (path : RelativePath) (scope : Scope) : Adds Q p.session (directoryShow c path scope p.session) := by
    unfold directoryShow
    split
    · exact .refl _
    · split
      · exact adds_report hplain _ _
      · split
        · exact adds_report hplain _ _
        · exact .refl _
  unfold processDirectory
  dsimp only
  generalize (if v.signal.halted .path then v.staleText else v.entry.path) = path
  split
  · exact .refl _
  · split
    · exact .refl _
    · split
      · exact hshow _ _
      · split
        · exact hshow _ _
        · exact ((hshow _ _).trans (adds_report hplain _ _)).trans (adds_sideWrite _ _)

theorem adds_unreadable (v : Visit) (report : RelativePath → Report) (p : Pass) :
    Adds Q p.session (processUnreadable v report p).session := by
  unfold processUnreadable
  dsimp only
  split
  · exact .refl _
  · exact (adds_report hplain _ _).trans (adds_sideWrite _ _)

theorem adds_traverseStep (v : Visit) (p : Pass)
    (hfile : meetsFile c p v = true → Adds Q (metState v p).session (processFile c v (metState v p)).session) :
    Adds Q p.session (traverseStep c p v).session := by
  have hmet : Adds Q p.session (metState v p).session := by
    unfold metState checkBatch
    split
    · exact adds_check hplain _ _ _ _
    · exact .refl _
  cases hmeets : meetsFile c p v with
  | true =>
    rw [(traverseStep_met hmeets).1]
    exact hmet.trans (hfile hmeets)
  | false =>
    unfold traverseStep
    split
    · rename_i hdelivered
      unfold visitEntry
      split
      · exact .refl _
      · rename_i hraised
        rw [show checkBatch v { p with skipBelow := none } = metState v p from rfl]
        dsimp only
        split
        · exact hmet
        · rename_i hnofail
          split
          · split
            · exact hmet
            · exact hmet
          · rename_i hdepth
            unfold processEntry
            cases hinfo : v.entry.info with
            | directory => exact hmet.trans (adds_directory hplain _ _)
            | file =>
              have hraised : (p.interrupted || v.signal.raised .top) = false := by simpa using hraised
              simp [meetsFile,hdelivered,hraised,hnofail,hdepth,hinfo] at hmeets
            | unreadableDirectory => exact hmet.trans (adds_unreadable hplain _ _ _)
            | error => exact hmet.trans (adds_unreadable hplain _ _ _)
            | noStat => exact hmet.trans (adds_unreadable hplain _ _ _)
            | other => exact hmet
    · exact .refl _

theorem adds_rollback (halted ok : Bool) (s : Session) :
    Adds Q s (dbFileTransactionRollback halted ok s).2 := by
  have hexec := adds_execRollback hplain s ok
  unfold dbFileTransactionRollback
  split
  · dsimp only
    cases s.store.autocommit with
    | true => exact .same rfl
    | false =>
      simp only [Bool.false_eq_true,↓reduceIte]
      split
      · exact hexec
      · exact hexec
  · exact .refl _

theorem adds_finishPass (f : FinishScript) (p : Pass) : Adds Q p.session (finishPass f p).session := by
  have hcommitted : ∀ halted, Adds Q p.session
      (if p.status.failure then (p.status,p.session) else
        let r := dbFileTransactionCommit halted f.commit p.session
        (call (globalReturnStatus halted) p.status r.1,r.2)).2 := by
    intro halted
    split
    · exact .refl _
    · exact adds_commit hplain _ _ _
  exact (hcommitted _).trans (adds_rollback hplain _ _ _)

theorem adds_walk {met : List (Visit × Pass)} (s : Session)
    (hfiles : ∀ m ∈ met, Adds Q m.2.session (processFile c m.1 m.2).session) :
    WalkInvariant c met fun p => Adds Q s p.session := by
  refine ⟨?_,fun _ hp => hp,?_,fun _ hp => hp⟩
  · intro v p hp hmet
    exact hp.trans (adds_traverseStep hplain v p fun hmeets => hfiles (v,metState v p) (hmet hmeets))
  · intro p hp
    have hreport : Adds Q p.session (p.session.report .rootUnavailable) := adds_report hplain _ _
    have hreplay : Adds Q (p.session.report .rootUnavailable) p.reportRoot.session := .same rfl
    exact hp.trans (hreport.trans hreplay)

theorem adds_fileList {script : PassScript} {s : Session}
    (hfiles : ∀ m ∈ passMet c script s, Adds Q m.2.session (processFile c m.1 m.2).session) :
    Adds Q s (fileList c script s).session := by
  unfold passMet at hfiles
  unfold fileList
  dsimp only
  split
  · exact .refl _
  · rename_i hcompare
    split
    · exact .refl _
    · rename_i hready
      rw [if_neg hcompare,if_neg hready] at hfiles
      have hstart : Adds Q s (passStart script s).session := .refl s
      have hroots := (adds_walk hplain s hfiles).roots script.roots hstart (List.Subset.refl _)
      exact hroots.trans (adds_finishPass hplain _ _)

end Events

end Precizer.Traversal
