import Precizer.Traversal.OutcomeRules
import Precizer.Traversal.InterruptedRow

/-! # Plans over changing rows

Which entries a walk is led to does not depend on the rows, unless one of them makes a
visit fail. So the files that an interrupted walk meets are files of the plan, and a plan on
other rows has the same visits.
-/
namespace Precizer.Traversal
open General Rational Digest Database

variable {c : Config}

theorem visitOutcome_skips (v : Visit) (stored stored' : Option FileColumns) :
    (visitOutcome c v stored').skipBelow = (visitOutcome c v stored).skipBelow := by
  by_cases hinfo : v.entry.info = .file
  · unfold visitOutcome entryOutcome
    split
    · rfl
    · rw [hinfo]
      dsimp only
      rw [fileOutcome_skipBelow,fileOutcome_skipBelow]
  · rw [visitOutcome_other hinfo stored' stored]

theorem walkPlan_stored {stored : RelativePath → Option FileColumns}
    (stored' : RelativePath → Option FileColumns) (visits : List Visit)
    (skipBelow : Option ℕ) (hok : planFailed (walkPlan c stored skipBelow visits) = false)
    (hgoes : ∀ x ∈ walkPlan c stored skipBelow visits,
      (visitOutcome c x.1 (stored' x.1.entry.path)).failed = false) :
    walkPlan c stored' skipBelow visits = (walkPlan c stored skipBelow visits).map
      fun x => (x.1,visitOutcome c x.1 (stored' x.1.entry.path)) := by
  induction visits generalizing skipBelow with
  | nil => rfl
  | cons v rest ih =>
    unfold walkPlan at hok hgoes ⊢
    split
    · rename_i hdelivered
      rw [if_pos hdelivered] at hok hgoes
      dsimp only at hok hgoes ⊢
      rw [planFailed,List.any_cons,Bool.or_eq_false_iff] at hok
      obtain ⟨hfirst,hrest⟩ := hok
      dsimp only at hfirst
      rw [hfirst] at hrest hgoes ⊢
      have hfirst' := hgoes _ List.mem_cons_self
      dsimp only at hfirst'
      rw [hfirst',visitOutcome_skips v (stored v.entry.path),List.map_cons]
      exact congrArg _ (ih _ hrest fun x hx => hgoes x (List.mem_cons_of_mem _ hx))
    · rename_i hundelivered
      rw [if_neg hundelivered] at hok hgoes
      exact ih _ hok hgoes

theorem traverseStep_over {p : Pass} (h : p.interrupted = true ∨ p.continueTheLoop = false) (v : Visit) :
    (traverseStep c p v).interrupted = true ∨ (traverseStep c p v).continueTheLoop = false := by
  rcases h with hint | hstop
  · left
    unfold traverseStep
    split
    · simp [hint]
    · exact hint
  · right
    rw [traverseStep_stopped hstop]
    exact hstop

theorem visitsMet_over (visits : List Visit) {p : Pass}
    (h : p.interrupted = true ∨ p.continueTheLoop = false) : visitsMet c visits p = [] := by
  induction visits generalizing p with
  | nil => rfl
  | cons v rest ih =>
    have hunmet : meetsFile c p v = false := by
      unfold meetsFile
      rcases h with hint | hstop
      · simp [hint]
      · simp [hstop]
    unfold visitsMet
    rw [hunmet,if_neg (by decide),List.nil_append]
    exact ih (traverseStep_over h v)

/-- A file of a plan that lies within the depth limit. -/
def Processed (c : Config) (plan : List (Visit × VisitOutcome)) (v : Visit) : Prop :=
  (∃ o, (v,o) ∈ plan) ∧ v.entry.info = .file ∧ beyondMaxdepth c v.entry = false

theorem met_processed (stored : RelativePath → Option FileColumns) (visits : List Visit)
    (hworks : ∀ v ∈ visits, v.Works) {p : Pass} (hs : Synced p.session) (hp : p.status = successStatus)
    (hcontinue : p.continueTheLoop = true) (hint : p.interrupted = false)
    (hok : planFailed (walkPlan c stored p.skipBelow visits) = false) :
    ∀ m ∈ visitsMet c visits p, Processed c (walkPlan c stored p.skipBelow visits) m.1 := by
  induction visits generalizing p with
  | nil => exact fun m hm => by cases hm
  | cons v rest ih =>
    intro m hm
    unfold visitsMet at hm
    unfold walkPlan at hok ⊢
    cases hdelivered : delivered p.skipBelow v.entry with
    | false =>
      have hunmet : meetsFile c p v = false := by
        unfold meetsFile
        rw [show p.delivers v.entry = delivered p.skipBelow v.entry from rfl,hdelivered]
        simp
      rw [hdelivered] at hok
      rw [hunmet,if_neg (by decide),List.nil_append,traverseStep_undelivered hdelivered] at hm
      exact ih (fun w hw => hworks w (List.mem_cons_of_mem _ hw)) hs hp hcontinue hint hok m hm
    | true =>
      rw [hdelivered,if_pos rfl] at hok
      dsimp only at hok
      rw [planFailed,List.any_cons,Bool.or_eq_false_iff] at hok
      obtain ⟨hfirst,hrest⟩ := hok
      dsimp only at hfirst
      rw [if_pos rfl]
      dsimp only
      rw [hfirst] at hrest ⊢
      rw [if_neg (by decide)] at hrest ⊢
      rcases List.mem_append.mp hm with hm | hm
      · split at hm
        · rename_i hmeets
          rw [List.mem_singleton.mp hm]
          unfold meetsFile at hmeets
          simp only [Bool.and_eq_true,Bool.not_eq_true',decide_eq_true_eq] at hmeets
          exact ⟨⟨_,List.mem_cons_self⟩,hmeets.2,hmeets.1.2⟩
        · cases hm
      · by_cases hquiet : v.signal.arrival = none
        · have hsmooth : v.Smooth := ⟨hworks v List.mem_cons_self,hquiet⟩
          have hsettled := traverseStep_smooth (c := c) hsmooth hp hs hcontinue hint hdelivered
          have hskip := (hsettled.skipBelow rfl).trans (visitOutcome_skips v (stored v.entry.path) _)
          cases hfailed : (visitOutcome c v (contents p.session.table v.entry.path)).failed with
          | true =>
            rw [visitsMet_over rest (.inr (hsettled.stops hfailed).2)] at hm
            cases hm
          | false =>
            obtain ⟨hstatus,hgoes⟩ := hsettled.goes hfailed
            rw [← hskip] at hrest ⊢
            obtain ⟨⟨o,ho⟩,hinfo,hdepth⟩ := ih (fun w hw => hworks w (List.mem_cons_of_mem _ hw)) hsettled.synced hstatus
              (hgoes.trans hcontinue) (hsettled.interrupted.trans hint) hrest m hm
            exact ⟨⟨o,List.mem_cons_of_mem _ ho⟩,hinfo,hdepth⟩
        · have hinterrupted : (traverseStep c p v).interrupted = true := by
            by_contra hno
            exact hquiet (traverseStep_quiet hcontinue hdelivered (by simpa using hno))
          rw [visitsMet_over rest (.inl hinterrupted)] at hm
          cases hm

theorem passMet_processed (stored : RelativePath → Option FileColumns) {script : PassScript} {s : Session}
    (hworks : script.Works) (hroot : script.roots.length = 1) (hcompare : c.compare = false) (hs : Synced s)
    (hok : planFailed (walkPlan c stored none script.visits) = false) :
    ∀ m ∈ passMet c script s, m.1 ∈ script.visits ∧ Processed c (walkPlan c stored none script.visits) m.1 := by
  obtain ⟨root,hroots⟩ := List.length_eq_one_iff.mp hroot
  have hvisits : script.visits = root.visits := by
    rw [PassScript.visits,hroots,List.flatMap_cons,List.flatMap_nil,List.append_nil]
  have hrootWorks : root.Works := hworks.roots root (hroots ▸ List.mem_singleton_self root)
  rw [hvisits] at hok ⊢
  intro m hm
  unfold passMet at hm
  rw [hcompare,if_neg (by decide)] at hm
  split at hm
  · cases hm
  · cases hraised : script.raisedBefore with
    | true =>
      rw [rootsMet_interrupted (p := passStart script s) script.roots hraised] at hm
      cases hm
    | false =>
      rw [hroots] at hm
      unfold rootsMet at hm
      rw [hrootWorks.opened,hrootWorks.ftsOpened] at hm
      simp only [Bool.not_true,Bool.false_eq_true,↓reduceIte,rootsMet,ite_self,List.append_nil] at hm
      have hprocessed := met_processed stored root.visits hrootWorks.visits
        (p := { passStart script s with skipBelow := none }) hs rfl rfl hraised hok m hm
      obtain ⟨⟨o,ho⟩,-⟩ := id hprocessed
      exact ⟨(mem_walkPlan root.visits none _ ho).1,hprocessed⟩

section Status

variable {plan plan' : List (Visit × VisitOutcome)}

theorem planStatus_congr (h : plan.map (fun x => (x.2.failed,x.2.violation)) =
    plan'.map fun x => (x.2.failed,x.2.violation)) : planStatus plan = planStatus plan' := by
  have hfailed (plan : List (Visit × VisitOutcome)) :
      planFailed plan = (plan.map fun x => (x.2.failed,x.2.violation)).any Prod.fst := by
    rw [planFailed,List.any_map]
    rfl
  have hviolation (plan : List (Visit × VisitOutcome)) :
      planViolation plan = (plan.map fun x => (x.2.failed,x.2.violation)).any Prod.snd := by
    rw [planViolation,List.any_map]
    rfl
  rw [planStatus,planStatus,hfailed,hfailed,hviolation,hviolation,h]

theorem planStatus_failure : planStatus plan = failureStatus ↔ planFailed plan = true := by
  unfold planStatus
  cases planFailed plan with
  | true => simp
  | false =>
    cases planViolation plan with
    | true => decide
    | false => decide

theorem planFailed_of_status (h : planStatus plan ≠ failureStatus) : planFailed plan = false := by
  by_contra hno
  exact h (planStatus_failure.mpr (by simpa using hno))

end Status

section Ignored

variable {v : Visit} {stored : Option FileColumns}

theorem fileOutcome_ignored (stored : Option FileColumns) (hpatterns : patternsMatch c v.entry.path = true)
    (hignored : (matchIncludeIgnore c false v.entry.path).ignored = true) (hunlocked : c.locked v.entry.path = false) :
    (fileOutcome c v stored).failed = false ∧ (fileOutcome c v stored).violation = false ∧
      (fileOutcome c v stored).columns = none := by
  generalize hrow : storedRow stored = row
  have havailable : unavailableLocked c v row = false := by
    simp [unavailableLocked,hunlocked]
  have hready : lockChecksumReady (decidedFile c v row) = false := by
    simp [lockChecksumReady,hunlocked]
  have hloaded : (loadedFile c row v.entry.path).ignore = true := by
    simp [loadedFile,hignored,hunlocked]
  have hignore : (decidedFile c v row).ignore = true := by
    change (accessedFile c v row).ignore = true
    rw [accessedFile,if_pos hloaded]
    exact hloaded
  have hviolation : (decidedFile c v row).lockChecksumViolation = false := by
    change lockViolation c (decidedFile c v row) = false
    rw [lockViolation,hready]
    rfl
  have hprocess : shouldProcess (decidedFile c v row) = false := by
    simp [shouldProcess,hignore]
  have hcompared : comparedRecord c false (decidedFile c v row) = decidedFile c v row := by
    rw [comparedRecord,hprocess]
    rfl
  have hblocked : blockedRecord false (decidedFile c v row) = true := by
    simp [blockedRecord,hignore]
  have hsettled : (processedOutcome c v row).failed = false ∧ (processedOutcome c v row).violation = false ∧
      (processedOutcome c v row).columns = none := by
    unfold processedOutcome settledOutcome
    dsimp only
    rw [hprocess,if_neg (by decide),hcompared,if_pos hblocked]
    refine ⟨rfl,?_,rfl⟩
    change violatingRecord (decidedFile c v row) = false
    simp [violatingRecord,hviolation]
  unfold fileOutcome
  dsimp only
  rw [hrow,hpatterns,havailable]
  simp only [Bool.not_true,Bool.false_eq_true,↓reduceIte]
  split
  · exact ⟨rfl,rfl,rfl⟩
  · exact hsettled

theorem patternsMatch_of_goes (h : (fileOutcome c v stored).failed = false) : patternsMatch c v.entry.path = true := by
  by_contra hno
  have hno : patternsMatch c v.entry.path = false := by simpa using hno
  unfold fileOutcome at h
  rw [hno] at h
  cases h

end Ignored

section Found

variable {v v' : Visit} {start x : Option FileColumns}

theorem Ready.found (h : v.found = v'.found) {row : DBrow} (hready : Ready c v row) : Ready c v' row := by
  obtain ⟨hprocess,hchanged,hwatched⟩ := hready
  rw [decidedFile_found h] at hprocess hchanged hwatched
  exact ⟨hprocess,hchanged,hwatched⟩

theorem Reached.found (h : v.found = v'.found) (hreached : Reached c v start x) : Reached c v' start x := by
  have hentry : v.entry = v'.entry := congrArg TreeEntry.entry h
  have hcontent : v.disk.content = v'.disk.content :=
    congrArg Reading.content (show v.disk.reading = v'.disk.reading from congrArg TreeEntry.reading h)
  cases hreached with
  | initial => exact .initial
  | partway context m hready hrehash hfree habsorbs hpiece hoffset =>
    have hcolumns (offset : ℕ) : partwayColumns v offset context = partwayColumns v' offset context := by
      rw [partwayColumns,hentry,partwayColumns]
    rw [decidedFile_found h] at hrehash hfree habsorbs hpiece hoffset ⊢
    rw [hcontent] at hpiece
    rw [hcolumns]
    exact .partway context m (hready.found h) hrehash hfree habsorbs hpiece hoffset
  | done digest hcolumns =>
    have hrecorded : recorded v digest = recorded v' digest := by rw [recorded,hentry,recorded]
    rw [fileOutcome_found h] at hcolumns
    rw [hrecorded] at hcolumns ⊢
    exact .done digest hcolumns

end Found

end Precizer.Traversal
