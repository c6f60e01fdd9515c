import Precizer.Traversal.SmoothFile
import Precizer.Traversal.PassRules

/-! # An undisturbed walk

An undisturbed pass follows a plan: for every entry the walk delivers, the outcome of its
visit on the columns that were stored for its path before the pass. This needs every
regular file to have a path of its own.
-/
namespace Precizer.Traversal
open General Rational Digest Database

section Entries

variable {c : Config} {v : Visit} {p : Pass}

theorem processDirectory_smooth (hv : v.Smooth) (hp : p.status = successStatus) (hs : Synced p.session) :
    VisitSettled c v (directoryOutcome c v) p (processDirectory c v p) := by
  have hbuilt : run (globalReturnStatus false) successStatus (leave false v.pathBuilt) = successStatus := by
    rw [hv.pathBuilt]
    decide
  have hshown (scope : Scope) : Synced (directoryShow c v.entry.path scope p.session) ∧
      (directoryShow c v.entry.path scope p.session).table = p.session.table ∧
      (directoryShow c v.entry.path scope p.session).reports =
        p.session.reports ++ directoryReports c v.entry.path scope := by
    unfold directoryShow directoryReports
    split
    · exact ⟨hs,rfl,(List.append_nil _).symm⟩
    · split
      · exact ⟨hs,rfl,Session.report_reports _ _⟩
      · split
        · exact ⟨hs,rfl,Session.report_reports _ _⟩
        · exact ⟨hs,rfl,(List.append_nil _).symm⟩
  obtain ⟨hsynced,htable,hreports⟩ := hshown (matchIncludeIgnore c false v.entry.path)
  unfold processDirectory directoryOutcome
  dsimp only
  simp only [Signal.halted_none hv.quiet,hp,hbuilt]
  rw [show successStatus.triumph = true from rfl]
  simp only [leave_eq,Bool.not_true,Bool.false_eq_true,↓reduceIte,outcome_triumph,Bool.or_false]
  cases hok : (matchIncludeIgnore c false v.entry.path).ok with
  | false =>
    simp only [Bool.not_false,↓reduceIte]
    exact .of_quiet hs (List.append_nil _).symm (Bool.or_false _).symm id rfl rfl rfl rfl
      (fun hno => by cases hno) fun _ => ⟨rfl,rfl⟩
  | true =>
    simp only [Bool.not_true,Bool.false_eq_true,↓reduceIte]
    by_cases hignored : (matchIncludeIgnore c false v.entry.path).ignored = true
    · rw [if_pos hignored,if_pos hignored]
      exact .of_quiet hsynced hreports (Bool.or_false _).symm (fun _ => rfl) rfl rfl htable rfl
        (fun _ => ⟨rfl,rfl⟩) fun hno => by cases hno
    · rw [if_neg hignored,if_neg hignored]
      by_cases haccess : v.access = .accessAllowed
      · rw [if_pos haccess,if_pos haccess]
        exact .of_quiet hsynced hreports (Bool.or_false _).symm id rfl rfl htable rfl
          (fun _ => ⟨rfl,rfl⟩) fun hno => by cases hno
      · rw [if_neg haccess,if_neg haccess,Session.sideWrite_of_ne hv.remember]
        refine .of_quiet hsynced ?_ (Bool.or_false _).symm (fun _ => rfl) rfl rfl htable rfl
          (fun _ => ⟨rfl,rfl⟩) fun hno => by cases hno
        exact (Session.report_reports _ _).trans (by rw [hreports,List.append_assoc])

theorem processUnreadable_smooth (hv : v.Smooth) (hp : p.status = successStatus) (hs : Synced p.session)
    (report : RelativePath → Report) :
    VisitSettled c v { reports := [report v.entry.path] } p (processUnreadable v report p) := by
  have hbuilt : run (globalReturnStatus false) successStatus (leave false v.pathBuilt) = successStatus := by
    rw [hv.pathBuilt]
    decide
  unfold processUnreadable
  dsimp only
  simp only [Signal.halted_none hv.quiet,hp,hbuilt,Bool.false_eq_true,↓reduceIte]
  rw [show successStatus.triumph = true from rfl,Session.sideWrite_of_ne hv.remember]
  simp only [Bool.not_true,Bool.false_eq_true,↓reduceIte]
  exact .of_quiet hs (Session.report_reports _ _) (Bool.or_false _).symm id rfl rfl rfl rfl
    (fun _ => ⟨rfl,rfl⟩) fun hno => by cases hno

theorem processEntry_smooth (hv : v.Smooth) (hp : p.status = successStatus) (hs : Synced p.session) :
    VisitSettled c v (entryOutcome c v (contents p.session.table v.entry.path)) p (processEntry c v p) := by
  unfold processEntry entryOutcome
  cases hinfo : v.entry.info with
  | directory => exact processDirectory_smooth hv hp hs
  | file => exact processFile_smooth hv hinfo hp hs
  | unreadableDirectory => exact processUnreadable_smooth hv hp hs _
  | error => exact processUnreadable_smooth hv hp hs _
  | noStat => exact processUnreadable_smooth hv hp hs _
  | other =>
    exact .of_quiet hs (List.append_nil _).symm (Bool.or_false _).symm id rfl rfl rfl rfl
      (fun _ => ⟨hp,rfl⟩) fun hno => by cases hno

theorem VisitSettled.after {o : VisitOutcome} {q p' : Pass} (h : VisitSettled c v o q p')
    (hreports : q.session.reports = p.session.reports) (htable : q.session.table = p.session.table)
    (hviolation : q.lockChecksumViolationDetected = p.lockChecksumViolationDetected)
    (hskip : q.skipBelow = none) (hint : q.interrupted = p.interrupted) (hhalt : q.halted = p.halted)
    (hcontinue : q.continueTheLoop = p.continueTheLoop) :
    VisitSettled c v o p p' where
  synced := h.synced
  reports := by rw [h.reports,hreports]
  violation := by rw [h.violation,hviolation]
  skipBelow := fun _ => h.skipBelow hskip
  interrupted := h.interrupted.trans hint
  halted := h.halted.trans hhalt
  goes := fun hok => by rw [← hcontinue]; exact h.goes hok
  stops := h.stops
  others := fun k hk => by rw [h.others k hk,htable]
  grows := by rw [← htable]; exact h.grows
  grown := by
    have hrow : q.row v = p.row v := by rw [Pass.row,htable,Pass.row]
    rw [← htable,← hrow]
    exact h.grown
  dry := fun hdry => by rw [h.dry hdry,htable]
  written := h.written
  unwritten := fun hnone hok huncut => by rw [h.unwritten hnone hok (fun hinfo => htable ▸ huncut hinfo),htable]

/-- The walk delivers an entry that does not lie below a skipped directory. -/
def delivered (skipBelow : Option ℕ) (e : FtsEntry) : Bool :=
  match skipBelow with
  | none => true
  | some level => e.level ≤ level

theorem traverseStep_undelivered (h : delivered p.skipBelow v.entry = false) : traverseStep c p v = p := by
  unfold traverseStep
  rw [if_neg]
  simp only [Bool.and_eq_true,not_and]
  intro _ hdelivers
  rw [show p.delivers v.entry = delivered p.skipBelow v.entry from rfl,h] at hdelivers
  cases hdelivers

theorem traverseStep_stopped (h : p.continueTheLoop = false) : traverseStep c p v = p := by
  unfold traverseStep
  rw [h]
  rfl

/-- One undisturbed turn of the loop. -/
theorem traverseStep_smooth (hv : v.Smooth) (hp : p.status = successStatus) (hs : Synced p.session)
    (hcontinue : p.continueTheLoop = true) (hint : p.interrupted = false)
    (hdelivered : delivered p.skipBelow v.entry = true) :
    VisitSettled c v (visitOutcome c v (contents p.session.table v.entry.path)) { p with skipBelow := none }
      (traverseStep c p v) := by
  obtain ⟨session,status,continueTheLoop,interrupted,halted,violation,skipBelow⟩ := p
  obtain rfl : status = successStatus := hp
  obtain rfl : continueTheLoop = true := hcontinue
  obtain rfl : interrupted = false := hint
  have hbatch : ∃ s', checkBatch v ⟨session,successStatus,true,false,halted,violation,none⟩ =
      ⟨s',successStatus,true,false,halted,violation,none⟩ ∧
      Synced s' ∧ s'.reports = session.reports ∧ s'.table = session.table := by
    unfold checkBatch
    split
    · obtain ⟨s',hcheck,hmoved⟩ := check_works hs v.nowNs
      rw [Signal.halted_none hv.quiet,hv.batchCommit]
      dsimp only
      rw [hcheck,show call (globalReturnStatus false) successStatus successStatus = successStatus by decide]
      exact ⟨s',rfl,hmoved.synced,hmoved.reports,hmoved.table⟩
    · exact ⟨session,rfl,hs,rfl,rfl⟩
  obtain ⟨s',hbatch,hsync,hreports,htable⟩ := hbatch
  have hvisit : VisitSettled c v (visitOutcome c v (contents session.table v.entry.path))
      ⟨session,successStatus,true,false,halted,violation,none⟩
      (visitEntry c v ⟨session,successStatus,true,false,halted,violation,none⟩) := by
    unfold visitEntry visitOutcome
    rw [Signal.raised_none hv.quiet,hbatch]
    dsimp only
    rw [show successStatus.failure = false from rfl]
    simp only [Bool.or_self,Bool.false_eq_true,↓reduceIte]
    split
    · split
      · exact .of_quiet hsync (hreports.trans (List.append_nil _).symm) (Bool.or_false _).symm (fun _ => rfl) rfl rfl
          htable rfl (fun _ => ⟨rfl,rfl⟩) fun hno => by cases hno
      · exact .of_quiet hsync (hreports.trans (List.append_nil _).symm) (Bool.or_false _).symm (fun _ => rfl) rfl rfl
          htable rfl (fun _ => ⟨rfl,rfl⟩) fun hno => by cases hno
    · have hentry := @processEntry_smooth c v ⟨s',successStatus,true,false,halted,violation,none⟩ hv rfl hsync
      rw [show (Pass.session ⟨s',successStatus,true,false,halted,violation,none⟩).table = session.table from htable]
        at hentry
      exact hentry.after hreports htable rfl rfl rfl rfl rfl
  have harrived : v.signal.arrived = false := by rw [Signal.arrived,hv.quiet]; rfl
  have hinterrupted : (visitEntry c v ⟨session,successStatus,true,false,halted,violation,none⟩).interrupted = false :=
    hvisit.interrupted
  have hhalted : (visitEntry c v ⟨session,successStatus,true,false,halted,violation,none⟩).halted = halted :=
    hvisit.halted
  have hstep : traverseStep c ⟨session,successStatus,true,false,halted,violation,skipBelow⟩ v =
      visitEntry c v ⟨session,successStatus,true,false,halted,violation,none⟩ := by
    unfold traverseStep
    rw [show Pass.delivers ⟨session,successStatus,true,false,halted,violation,skipBelow⟩ v.entry =
      delivered skipBelow v.entry from rfl,hdelivered,harrived]
    simp only [Bool.and_self,↓reduceIte,Bool.or_false,Bool.false_and]
    generalize visitEntry c v ⟨session,successStatus,true,false,halted,violation,none⟩ = p' at *
    rw [← hinterrupted,← hhalted]
  rw [hstep]
  exact hvisit

theorem traverseStep_interrupted (h : (traverseStep c p v).interrupted = false) : p.interrupted = false := by
  unfold traverseStep at h
  split at h
  · simp only [Bool.or_eq_false_iff] at h
    exact h.1
  · exact h

theorem traverseStep_quiet (hcontinue : p.continueTheLoop = true) (hdelivered : delivered p.skipBelow v.entry = true)
    (h : (traverseStep c p v).interrupted = false) : v.signal.arrival = none := by
  unfold traverseStep at h
  rw [hcontinue,show p.delivers v.entry = delivered p.skipBelow v.entry from rfl,hdelivered] at h
  simp only [Bool.and_self,↓reduceIte,Bool.or_eq_false_iff] at h
  simpa [Signal.arrived] using h.2

theorem walk_interrupted (visits : List Visit) (h : (visits.foldl (traverseStep c) p).interrupted = false) :
    p.interrupted = false := by
  induction visits generalizing p with
  | nil => exact h
  | cons v rest ih => exact traverseStep_interrupted (ih h)

theorem walk_stopped (visits : List Visit) (h : p.continueTheLoop = false) :
    visits.foldl (traverseStep c) p = p := by
  induction visits with
  | nil => rfl
  | cons v rest ih => rw [List.foldl_cons,traverseStep_stopped h,ih]

end Entries

/-- The visits of a walk without disturbance, each with its outcome; a failed one is the last. -/
def walkPlan (c : Config) (stored : RelativePath → Option FileColumns) :
    Option ℕ → List Visit → List (Visit × VisitOutcome)
  | _,[] => []
  | skipBelow,v :: rest =>
    if delivered skipBelow v.entry then
      let o := visitOutcome c v (stored v.entry.path)
      (v,o) :: if o.failed then [] else walkPlan c stored o.skipBelow rest
    else walkPlan c stored skipBelow rest

def planFailed (plan : List (Visit × VisitOutcome)) : Bool := plan.any fun x => x.2.failed

def planViolation (plan : List (Visit × VisitOutcome)) : Bool := plan.any fun x => x.2.violation

def planReports (plan : List (Visit × VisitOutcome)) : List Report := plan.flatMap fun x => x.2.reports

def rootsPlan (c : Config) (stored : RelativePath → Option FileColumns) :
    List RootScript → List (Visit × VisitOutcome)
  | [] => []
  | root :: rest =>
    let plan := walkPlan c stored none root.visits
    plan ++ if planFailed plan then [] else rootsPlan c stored rest

def filePaths (visits : List Visit) : List RelativePath :=
  (visits.filter fun v => v.entry.info = .file).map fun v => v.entry.path

/-- The visit of a plan is that of the regular file with the given path. -/
def Visits (plan : List (Visit × VisitOutcome)) (path : RelativePath) : Prop :=
  ∃ x ∈ plan, x.1.entry.info = .file ∧ x.1.entry.path = path

structure Followed (c : Config) (plan : List (Visit × VisitOutcome)) (p p' : Pass) : Prop where
  synced : Synced p'.session
  reports : p'.session.reports = p.session.reports ++ planReports plan
  violation : p'.lockChecksumViolationDetected = (p.lockChecksumViolationDetected || planViolation plan)
  halted : p'.halted = p.halted
  goes : planFailed plan = false → p'.status = successStatus ∧ p'.continueTheLoop = true
  stops : planFailed plan = true → p'.status = failureStatus ∧ p'.continueTheLoop = false
  dry : c.dryRun = true → p'.session.table = p.session.table
  files : ∀ x ∈ plan, ∀ columns, x.2.columns = some columns → x.1.entry.info = .file
  others : planFailed plan = false → ∀ k, ¬ Visits plan k →
    contents p'.session.table k = contents p.session.table k
  written : c.dryRun = false → planFailed plan = false → ∀ x ∈ plan, ∀ columns, x.2.columns = some columns →
    contents p'.session.table x.1.entry.path = some columns
  unwritten : planFailed plan = false → ∀ x ∈ plan, x.1.entry.info = .file →
    Uncut c x.1 (storedRow (contents p.session.table x.1.entry.path)) → x.2.columns = none →
    contents p'.session.table x.1.entry.path = contents p.session.table x.1.entry.path
  keys : ∃ extra, p'.session.table.keys = p.session.table.keys ++ extra ∧ ∀ k ∈ extra, ∃ x ∈ plan,
    x.1.entry.info = .file ∧ x.1.entry.path = k ∧ patternsMatch c k = true ∧ ∃ row, Ready c x.1 row

section Plans

variable {c : Config} {v : Visit} {p p' p'' : Pass} {o : VisitOutcome} {plan plan' : List (Visit × VisitOutcome)}

theorem directoryOutcome_columns : (directoryOutcome c v).columns = none := by
  unfold directoryOutcome
  dsimp only
  split
  · rfl
  · split
    · rfl
    · split <;> rfl

theorem visitOutcome_columns {stored : Option FileColumns} {columns : FileColumns}
    (h : (visitOutcome c v stored).columns = some columns) : v.entry.info = .file := by
  unfold visitOutcome at h
  split at h
  · cases h
  · unfold entryOutcome at h
    cases hinfo : v.entry.info with
    | file => rfl
    | directory =>
      rw [hinfo] at h
      dsimp only at h
      rw [directoryOutcome_columns] at h
      cases h
    | unreadableDirectory => rw [hinfo] at h; cases h
    | error => rw [hinfo] at h; cases h
    | noStat => rw [hinfo] at h; cases h
    | other => rw [hinfo] at h; cases h

/-- The outcome of anything but a regular file does not depend on the table. -/
theorem visitOutcome_other (h : v.entry.info ≠ .file) (stored stored' : Option FileColumns) :
    visitOutcome c v stored = visitOutcome c v stored' := by
  unfold visitOutcome entryOutcome
  split
  · rfl
  · cases hinfo : v.entry.info with
    | file => exact absurd hinfo h
    | directory => rfl
    | unreadableDirectory => rfl
    | error => rfl
    | noStat => rfl
    | other => rfl

theorem visits_single {path : RelativePath} : Visits [(v,o)] path ↔ v.entry.info = .file ∧ v.entry.path = path := by
  simp [Visits]

theorem visits_append {path : RelativePath} :
    Visits (plan ++ plan') path ↔ Visits plan path ∨ Visits plan' path := by
  unfold Visits
  constructor
  · rintro ⟨x,hx,hfile⟩
    rcases List.mem_append.mp hx with hx | hx
    · exact .inl ⟨x,hx,hfile⟩
    · exact .inr ⟨x,hx,hfile⟩
  · rintro (⟨x,hx,hfile⟩ | ⟨x,hx,hfile⟩)
    · exact ⟨x,List.mem_append_left _ hx,hfile⟩
    · exact ⟨x,List.mem_append_right _ hx,hfile⟩

theorem followed_nil (hs : Synced p.session) (hp : p.status = successStatus) (hcontinue : p.continueTheLoop = true) :
    Followed c [] p p where
  synced := hs
  reports := (List.append_nil _).symm
  violation := (Bool.or_false _).symm
  halted := rfl
  goes := fun _ => ⟨hp,hcontinue⟩
  stops := fun hno => by cases hno
  dry := fun _ => rfl
  files := fun x hx => by cases hx
  others := fun _ _ _ => rfl
  written := fun _ _ x hx => by cases hx
  unwritten := fun _ x hx => by cases hx
  keys := ⟨[],(List.append_nil _).symm,fun k hk => by cases hk⟩

theorem followed_visit (h : VisitSettled c v o p p') (hcontinue : p.continueTheLoop = true)
    (hfile : ∀ columns, o.columns = some columns → v.entry.info = .file) : Followed c [(v,o)] p p' where
  synced := h.synced
  reports := h.reports.trans (by simp [planReports])
  violation := h.violation.trans (by simp [planViolation])
  halted := h.halted
  goes := fun hok => by
    obtain ⟨hstatus,hgoes⟩ := h.goes (by simpa [planFailed] using hok)
    exact ⟨hstatus,hgoes.trans hcontinue⟩
  stops := fun hfailed => h.stops (by simpa [planFailed] using hfailed)
  dry := h.dry
  files := by
    intro x hx columns hcolumns
    rw [List.mem_singleton.mp hx] at hcolumns ⊢
    exact hfile columns hcolumns
  others := by
    intro hok k hk
    rw [visits_single,not_and] at hk
    by_cases hinfo : v.entry.info = .file
    · exact h.others k (fun heq => hk hinfo heq.symm)
    · have hnone : o.columns = none := by
        cases hcolumns : o.columns with
        | none => rfl
        | some columns => exact absurd (hfile columns hcolumns) hinfo
      rw [h.unwritten hnone (by simpa [planFailed] using hok) fun hno => absurd hno hinfo]
  written := by
    intro hdry _ x hx columns hcolumns
    rw [List.mem_singleton.mp hx] at hcolumns ⊢
    exact h.written hdry columns hcolumns
  unwritten := by
    intro hok x hx _ huncut hnone
    rw [List.mem_singleton.mp hx] at huncut hnone ⊢
    rw [h.unwritten hnone (by simpa [planFailed] using hok) fun _ => huncut]
  keys := by
    rcases h.grows with hsame | hnew
    · exact ⟨[],hsame.trans (List.append_nil _).symm,fun k hk => by cases hk⟩
    · have hne : p'.session.table.keys ≠ p.session.table.keys := by
        intro heq
        have hlength := congrArg List.length (hnew.symm.trans heq)
        simp at hlength
      obtain ⟨hinfo,hpatterns,hready⟩ := h.grown hne
      refine ⟨[v.entry.path],hnew,?_⟩
      intro k hk
      rw [List.mem_singleton.mp hk]
      exact ⟨(v,o),List.mem_cons_self,hinfo,rfl,hpatterns,_,hready⟩

/-- A plan that did not fail is continued by another one over different files. -/
theorem Followed.append (h : Followed c plan p p') (h' : Followed c plan' p' p'') (hok : planFailed plan = false)
    (hdisjoint : ∀ path, Visits plan path → ¬ Visits plan' path) : Followed c (plan ++ plan') p p'' := by
  have hfailed : planFailed (plan ++ plan') = planFailed plan' := by
    rw [planFailed,List.any_append,show plan.any (fun x => x.2.failed) = false from hok,Bool.false_or]
    rfl
  have hvisits {x : Visit × VisitOutcome} (hx : x ∈ plan) (hinfo : x.1.entry.info = .file) :
      Visits plan x.1.entry.path := ⟨x,hx,hinfo,rfl⟩
  refine {
    synced := h'.synced
    reports := ?_
    violation := ?_
    halted := h'.halted.trans h.halted
    goes := fun hnot => h'.goes (hfailed ▸ hnot)
    stops := fun hyes => h'.stops (hfailed ▸ hyes)
    dry := fun hdry => (h'.dry hdry).trans (h.dry hdry)
    files := ?_
    others := ?_
    written := ?_
    unwritten := ?_
    keys := ?_ }
  · rw [h'.reports,h.reports,List.append_assoc,planReports,planReports,planReports,List.flatMap_append]
  · rw [h'.violation,h.violation,Bool.or_assoc,planViolation,planViolation,planViolation,List.any_append]
  · intro x hx
    rcases List.mem_append.mp hx with hx | hx
    · exact h.files x hx
    · exact h'.files x hx
  · intro hnot k hk
    rw [visits_append,not_or] at hk
    rw [hfailed] at hnot
    exact (h'.others hnot k hk.2).trans (h.others hok k hk.1)
  · intro hdry hnot x hx columns hcolumns
    rw [hfailed] at hnot
    rcases List.mem_append.mp hx with hx | hx
    · rw [h'.others hnot _ (hdisjoint _ (hvisits hx (h.files x hx columns hcolumns)))]
      exact h.written hdry hok x hx columns hcolumns
    · exact h'.written hdry hnot x hx columns hcolumns
  · intro hnot x hx hinfo huncut hnone
    rw [hfailed] at hnot
    rcases List.mem_append.mp hx with hx | hx
    · rw [h'.others hnot _ (hdisjoint _ (hvisits hx hinfo))]
      exact h.unwritten hok x hx hinfo huncut hnone
    · have hkept : contents p'.session.table x.1.entry.path = contents p.session.table x.1.entry.path :=
        h.others hok _ fun hvisited => hdisjoint _ hvisited ⟨x,hx,hinfo,rfl⟩
      rw [h'.unwritten hnot x hx hinfo (hkept ▸ huncut) hnone]
      exact hkept
  · obtain ⟨extra,hkeys,hextra⟩ := h.keys
    obtain ⟨extra',hkeys',hextra'⟩ := h'.keys
    refine ⟨extra ++ extra',by rw [hkeys',hkeys,List.append_assoc],?_⟩
    intro k hk
    rcases List.mem_append.mp hk with hk | hk
    · obtain ⟨x,hx,hfacts⟩ := hextra k hk
      exact ⟨x,List.mem_append_left _ hx,hfacts⟩
    · obtain ⟨x,hx,hfacts⟩ := hextra' k hk
      exact ⟨x,List.mem_append_right _ hx,hfacts⟩

theorem mem_walkPlan {stored : RelativePath → Option FileColumns} (visits : List Visit) (skipBelow : Option ℕ) :
    ∀ x ∈ walkPlan c stored skipBelow visits, x.1 ∈ visits ∧ x.2 = visitOutcome c x.1 (stored x.1.entry.path) := by
  induction visits generalizing skipBelow with
  | nil => exact fun x hx => by cases hx
  | cons v rest ih =>
    intro x hx
    unfold walkPlan at hx
    split at hx
    · rcases List.mem_cons.mp hx with rfl | hx
      · exact ⟨List.mem_cons_self,rfl⟩
      · split at hx
        · cases hx
        · obtain ⟨hmem,houtcome⟩ := ih _ x hx
          exact ⟨List.mem_cons_of_mem _ hmem,houtcome⟩
    · obtain ⟨hmem,houtcome⟩ := ih _ x hx
      exact ⟨List.mem_cons_of_mem _ hmem,houtcome⟩

theorem mem_filePaths {visits : List Visit} {path : RelativePath} :
    path ∈ filePaths visits ↔ ∃ v ∈ visits, v.entry.info = .file ∧ v.entry.path = path := by
  simp [filePaths,and_assoc]

theorem filePaths_append (visits visits' : List Visit) :
    filePaths (visits ++ visits') = filePaths visits ++ filePaths visits' := by
  rw [filePaths,List.filter_append,List.map_append]
  rfl

theorem visits_walkPlan {stored : RelativePath → Option FileColumns} {visits : List Visit} {skipBelow : Option ℕ}
    {path : RelativePath} (h : Visits (walkPlan c stored skipBelow visits) path) : path ∈ filePaths visits := by
  obtain ⟨x,hx,hinfo,hpath⟩ := h
  exact mem_filePaths.mpr ⟨x.1,(mem_walkPlan visits skipBelow x hx).1,hinfo,hpath⟩

/-- The columns stored for the regular files among some visits. -/
def Agrees (t : FilesTable) (stored : RelativePath → Option FileColumns) (visits : List Visit) : Prop :=
  ∀ path ∈ filePaths visits, contents t path = stored path

theorem walk_follows (stored : RelativePath → Option FileColumns) (visits : List Visit)
    (hworks : ∀ v ∈ visits, v.Works) (hnodup : (filePaths visits).Nodup) (hs : Synced p.session)
    (hp : p.status = successStatus) (hcontinue : p.continueTheLoop = true)
    (hagrees : Agrees p.session.table stored visits)
    (hquiet : (visits.foldl (traverseStep c) p).interrupted = false) :
    Followed c (walkPlan c stored p.skipBelow visits) p (visits.foldl (traverseStep c) p) := by
  induction visits generalizing p with
  | nil => exact followed_nil hs hp hcontinue
  | cons v rest ih =>
    have hstep : (traverseStep c p v).interrupted = false := walk_interrupted rest hquiet
    have hint : p.interrupted = false := traverseStep_interrupted hstep
    have hrest : ∀ w ∈ rest, w.Works := fun w hw => hworks w (List.mem_cons_of_mem _ hw)
    have hcons : filePaths (v :: rest) = filePaths [v] ++ filePaths rest := filePaths_append [v] rest
    rw [hcons,List.nodup_append] at hnodup
    obtain ⟨-,hnodupRest,hapart⟩ := hnodup
    have hagreesRest : ∀ path ∈ filePaths rest, contents p.session.table path = stored path := fun path hpath =>
      hagrees path (by rw [hcons]; exact List.mem_append_right _ hpath)
    rw [List.foldl_cons] at hquiet ⊢
    unfold walkPlan
    cases hdelivered : delivered p.skipBelow v.entry with
    | false =>
      rw [traverseStep_undelivered hdelivered] at hquiet ⊢
      exact ih hrest hnodupRest hs hp hcontinue hagreesRest hquiet
    | true =>
      have hsmooth : v.Smooth := ⟨hworks v List.mem_cons_self,traverseStep_quiet hcontinue hdelivered hstep⟩
      have hsettled := traverseStep_smooth (c := c) hsmooth hp hs hcontinue hint hdelivered
      have houtcome : visitOutcome c v (contents p.session.table v.entry.path) =
          visitOutcome c v (stored v.entry.path) := by
        by_cases hinfo : v.entry.info = .file
        · rw [hagrees v.entry.path (mem_filePaths.mpr ⟨v,List.mem_cons_self,hinfo,rfl⟩)]
        · exact visitOutcome_other hinfo _ _
      rw [houtcome] at hsettled
      have hvisit : Followed c [(v,visitOutcome c v (stored v.entry.path))] { p with skipBelow := none }
          (traverseStep c p v) := followed_visit hsettled hcontinue fun columns => visitOutcome_columns
      have hfirst : Followed c [(v,visitOutcome c v (stored v.entry.path))] p (traverseStep c p v) :=
        ⟨hvisit.synced,hvisit.reports,hvisit.violation,hvisit.halted,hvisit.goes,hvisit.stops,hvisit.dry,
          hvisit.files,hvisit.others,hvisit.written,hvisit.unwritten,hvisit.keys⟩
      have hskip := hsettled.skipBelow rfl
      simp only [↓reduceIte]
      cases hfailed : (visitOutcome c v (stored v.entry.path)).failed with
      | true =>
        rw [walk_stopped rest (hsettled.stops hfailed).2]
        exact hfirst
      | false =>
        have hok : planFailed [(v,visitOutcome c v (stored v.entry.path))] = false := by
          simpa [planFailed] using hfailed
        obtain ⟨hstatus,hgoes⟩ := hfirst.goes hok
        have hdisjoint : ∀ path, Visits [(v,visitOutcome c v (stored v.entry.path))] path →
            path ∉ filePaths rest := by
          intro path hvisited hmem
          rw [visits_single] at hvisited
          exact hapart path (mem_filePaths.mpr ⟨v,List.mem_singleton_self v,hvisited⟩) path hmem rfl
        have hnext := ih hrest hnodupRest hfirst.synced hstatus hgoes
          (fun path hpath => (hfirst.others hok path fun hvisited => hdisjoint path hvisited hpath).trans
            (hagreesRest path hpath)) hquiet
        rw [hskip] at hnext
        simp only [Bool.false_eq_true,↓reduceIte]
        exact hfirst.append hnext hok fun path hvisited hlater => hdisjoint path hvisited (visits_walkPlan hlater)

theorem visits_rootsPlan {stored : RelativePath → Option FileColumns} {roots : List RootScript} {path : RelativePath}
    (h : Visits (rootsPlan c stored roots) path) : path ∈ filePaths (roots.flatMap RootScript.visits) := by
  induction roots with
  | nil =>
    obtain ⟨x,hx,-⟩ := h
    cases hx
  | cons root rest ih =>
    rw [List.flatMap_cons,filePaths_append,List.mem_append]
    unfold rootsPlan at h
    rcases visits_append.mp h with h | h
    · exact .inl (visits_walkPlan h)
    · split at h
      · obtain ⟨x,hx,-⟩ := h
        cases hx
      · exact .inr (ih h)

/-- A root whose directory and walk can be opened and closed, with visits that work. -/
structure RootScript.Works (root : RootScript) : Prop where
  opened : root.opened = true
  ftsOpened : root.ftsOpened = true
  closed : root.closed = true
  visits : ∀ v ∈ root.visits, v.Works

theorem walkRoots_interrupted {roots : List RootScript} (h : (walkRoots c roots p).interrupted = false) :
    p.interrupted = false := by
  induction roots generalizing p with
  | nil => exact h
  | cons root rest ih =>
    cases hopened : root.opened with
    | false =>
      simp only [walkRoots,hopened,Bool.not_false,↓reduceIte] at h
      exact ih (p := p.reportRoot) h
    | true =>
      cases hfts : root.ftsOpened with
      | false =>
        simp only [walkRoots,hopened,hfts,Bool.not_true,Bool.false_eq_true,Bool.not_false,↓reduceIte] at h
        exact h
      | true =>
        have hroot : (walkRoot c root p).interrupted = false := by
          rw [walkRoots_cons root rest p hopened hfts] at h
          split at h
          · exact h
          · exact ih h
        unfold walkRoot at hroot
        dsimp only at hroot
        split at hroot
        · exact walk_interrupted (p := { p with skipBelow := none }) root.visits hroot
        · exact walk_interrupted (p := { p with skipBelow := none }) root.visits hroot

theorem walkRoots_follows (stored : RelativePath → Option FileColumns) (roots : List RootScript)
    (hworks : ∀ root ∈ roots, root.Works) (hnodup : (filePaths (roots.flatMap RootScript.visits)).Nodup)
    (hs : Synced p.session) (hp : p.status = successStatus) (hcontinue : p.continueTheLoop = true)
    (hagrees : Agrees p.session.table stored (roots.flatMap RootScript.visits))
    (hquiet : (walkRoots c roots p).interrupted = false) :
    Followed c (rootsPlan c stored roots) p (walkRoots c roots p) := by
  induction roots generalizing p with
  | nil => exact followed_nil hs hp hcontinue
  | cons root rest ih =>
    have hroot := hworks root List.mem_cons_self
    rw [List.flatMap_cons,filePaths_append,List.nodup_append] at hnodup
    obtain ⟨hnodupRoot,hnodupRest,hapart⟩ := hnodup
    have hagreesRoot : ∀ path ∈ filePaths root.visits, contents p.session.table path = stored path :=
      fun path hpath => hagrees path (by
        rw [List.flatMap_cons,filePaths_append]
        exact List.mem_append_left _ hpath)
    have hagreesRest : ∀ path ∈ filePaths (rest.flatMap RootScript.visits),
        contents p.session.table path = stored path := fun path hpath => hagrees path (by
      rw [List.flatMap_cons,filePaths_append]
      exact List.mem_append_right _ hpath)
    have hwalk : walkRoot c root p = root.visits.foldl (traverseStep c) { p with skipBelow := none } := by
      unfold walkRoot
      dsimp only
      rw [hroot.closed]
      rfl
    rw [walkRoots_cons root rest p hroot.opened hroot.ftsOpened] at hquiet ⊢
    have hrootQuiet : (walkRoot c root p).interrupted = false := by
      split at hquiet
      · exact hquiet
      · exact walkRoots_interrupted hquiet
    have hvisited : Followed c (walkPlan c stored none root.visits) { p with skipBelow := none } (walkRoot c root p) := by
      rw [hwalk] at hrootQuiet ⊢
      exact walk_follows (p := { p with skipBelow := none }) stored root.visits hroot.visits hnodupRoot hs hp hcontinue
        hagreesRoot hrootQuiet
    have hfirst : Followed c (walkPlan c stored none root.visits) p (walkRoot c root p) :=
      ⟨hvisited.synced,hvisited.reports,hvisited.violation,hvisited.halted,hvisited.goes,hvisited.stops,hvisited.dry,
        hvisited.files,hvisited.others,hvisited.written,hvisited.unwritten,hvisited.keys⟩
    unfold rootsPlan
    dsimp only
    cases hfailed : planFailed (walkPlan c stored none root.visits) with
    | true =>
      rw [(hfirst.stops hfailed).1,show failureStatus.success = false from rfl]
      simp only [Bool.not_false,Bool.or_true,↓reduceIte,List.append_nil]
      exact hfirst
    | false =>
      obtain ⟨hstatus,hgoes⟩ := hfirst.goes hfailed
      rw [hrootQuiet,hstatus,show successStatus.success = true from rfl] at hquiet ⊢
      simp only [Bool.not_true,Bool.or_self,Bool.false_eq_true,↓reduceIte] at hquiet ⊢
      have hdisjoint : ∀ path, Visits (walkPlan c stored none root.visits) path →
          path ∉ filePaths (rest.flatMap RootScript.visits) := fun path hvisits hmem =>
        hapart path (visits_walkPlan hvisits) path hmem rfl
      have hnext := ih (fun r hr => hworks r (List.mem_cons_of_mem _ hr)) hnodupRest hfirst.synced hstatus hgoes
        (fun path hpath => (hfirst.others hfailed path fun hvisits => hdisjoint path hvisits hpath).trans
          (hagreesRest path hpath)) hquiet
      exact hfirst.append hnext hfailed fun path hvisits hlater => hdisjoint path hvisits (visits_rootsPlan hlater)

end Plans

end Precizer.Traversal
