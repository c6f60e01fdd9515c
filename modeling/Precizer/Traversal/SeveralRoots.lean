import Precizer.Traversal.RenewedRow
import Precizer.Traversal.RelativePath
import Precizer.Database.MissingCleanup

/-! # A pass over several roots

A row is found by the relative path of its file alone. As long as files with the same
relative path lie under the same root, every file is recorded by itself.
-/
namespace Precizer.Traversal
open General Rational Digest Database

section Scope

variable {c : Config}

def deliveredVisits (c : Config) : Option ℕ → List Visit → List Visit
  | _,[] => []
  | skipBelow,v :: rest =>
    if delivered skipBelow v.entry then v :: deliveredVisits c (visitOutcome c v none).skipBelow rest
    else deliveredVisits c skipBelow rest

theorem walkPlan_delivered {stored : RelativePath → Option FileColumns} (visits : List Visit) (skipBelow : Option ℕ)
    (hok : planFailed (walkPlan c stored skipBelow visits) = false) :
    (walkPlan c stored skipBelow visits).map Prod.fst = deliveredVisits c skipBelow visits := by
  induction visits generalizing skipBelow with
  | nil => rfl
  | cons v rest ih =>
    unfold walkPlan at hok ⊢
    unfold deliveredVisits
    split
    · rename_i hdelivered
      rw [if_pos hdelivered] at hok
      dsimp only at hok ⊢
      rw [planFailed,List.any_cons,Bool.or_eq_false_iff] at hok
      obtain ⟨hfirst,hrest⟩ := hok
      dsimp only at hfirst
      rw [hfirst,visitOutcome_skips v none] at hrest ⊢
      rw [List.map_cons]
      exact congrArg _ (ih _ hrest)
    · rename_i hundelivered
      rw [if_neg hundelivered] at hok
      exact ih _ hok

theorem deliveredVisits_found {visits visits' : List Visit} (h : visits.map Visit.found = visits'.map Visit.found)
    (skipBelow : Option ℕ) : (deliveredVisits c skipBelow visits).map Visit.found =
      (deliveredVisits c skipBelow visits').map Visit.found := by
  induction visits generalizing visits' skipBelow with
  | nil =>
    cases visits' with
    | nil => rfl
    | cons v' rest' => cases h
  | cons v rest ih =>
    cases visits' with
    | nil => cases h
    | cons v' rest' =>
      obtain ⟨hfirst,hrest⟩ := List.cons.inj h
      have hentry : v.entry = v'.entry := congrArg TreeEntry.entry hfirst
      unfold deliveredVisits
      rw [← hentry,visitOutcome_found hfirst]
      split
      · rw [List.map_cons,List.map_cons,hfirst,ih hrest]
      · exact ih hrest _

/-- A regular file the pass delivers within the depth limit and does not ignore. -/
structure InScope (c : Config) (visits : List Visit) (v : Visit) : Prop where
  delivered : v ∈ deliveredVisits c none visits
  info : v.entry.info = .file
  near : beyondMaxdepth c v.entry = false
  visible : (loadedFile c DBrow.zero v.entry.path).ignore = false

theorem InScope.found {visits visits' : List Visit} (h : visits.map Visit.found = visits'.map Visit.found)
    {v : Visit} (hv : InScope c visits v) : ∃ v', InScope c visits' v' ∧ v'.found = v.found := by
  have hmem : v.found ∈ (deliveredVisits c none visits').map Visit.found := by
    rw [← deliveredVisits_found h]
    exact List.mem_map_of_mem hv.delivered
  obtain ⟨v',hv',hsame⟩ := List.mem_map.mp hmem
  have hentry : v'.entry = v.entry := congrArg TreeEntry.entry hsame
  exact ⟨v',⟨hv',hentry ▸ hv.info,hentry ▸ hv.near,hentry ▸ hv.visible⟩,hsame⟩

theorem mem_deliveredVisits {visits : List Visit} {skipBelow : Option ℕ} {v : Visit}
    (h : v ∈ deliveredVisits c skipBelow visits) : v ∈ visits := by
  induction visits generalizing skipBelow with
  | nil => cases h
  | cons w rest ih =>
    unfold deliveredVisits at h
    split at h
    · rcases List.mem_cons.mp h with rfl | h
      · exact List.mem_cons_self
      · exact List.mem_cons_of_mem _ (ih h)
    · exact List.mem_cons_of_mem _ (ih h)

end Scope

/-- A root and what its walk delivers, every entry with the names that lead to it. -/
structure WalkedRoot where
  root : RootPath
  entries : List (List Name × Visit)

def WalkedRoot.visits (r : WalkedRoot) : List Visit := r.entries.map Prod.snd

def WalkedRoot.script (r : WalkedRoot) : RootScript := ⟨true,true,r.visits,true⟩

/-- The walk delivers every regular file once, under the path of its names, and each can be
read and does not change. -/
structure WalkedRoot.Sound (r : WalkedRoot) : Prop where
  named : ∀ x ∈ r.entries, x.2.entry.info = .file →
    ValidNames x.1 ∧ pathBuildRelative x.1 = some x.2.entry.path
  once : ((r.entries.filter fun x => x.2.entry.info = .file).map Prod.fst).Nodup
  readable : ∀ v ∈ r.visits, v.entry.info = .file → v.access = .accessAllowed ∧ v.disk.reading.Constant

theorem WalkedRoot.Sound.nodup {r : WalkedRoot} (h : r.Sound) : (filePaths r.visits).Nodup := by
  unfold filePaths WalkedRoot.visits
  rw [List.filter_map,List.map_map]
  refine List.Nodup.map_on ?_ (List.Nodup.of_map Prod.fst h.once)
  intro x hx y hy hpath
  obtain ⟨hxmem,hxinfo⟩ := List.mem_filter.mp hx
  obtain ⟨hymem,hyinfo⟩ := List.mem_filter.mp hy
  obtain ⟨hxvalid,hxbuilt⟩ := h.named x hxmem (by simpa using hxinfo)
  obtain ⟨hyvalid,hybuilt⟩ := h.named y hymem (by simpa using hyinfo)
  have hpath : x.2.entry.path = y.2.entry.path := hpath
  rw [← hpath] at hybuilt
  exact List.inj_on_of_nodup_map h.once hx hy (pathBuildRelative_inj hxvalid hyvalid hxbuilt hybuilt)

theorem visit_unique {visits visits' : List Visit} (h : visits.map Visit.found = visits'.map Visit.found)
    (hnodup : (filePaths visits').Nodup) {v v' : Visit} (hv : v ∈ visits) (hv' : v' ∈ visits')
    (hinfo : v.entry.info = .file) (hinfo' : v'.entry.info = .file) (hpath : v.entry.path = v'.entry.path) :
    v.found = v'.found := by
  have hmem : v.found ∈ visits'.map Visit.found := h ▸ List.mem_map_of_mem hv
  obtain ⟨w,hw,hsame⟩ := List.mem_map.mp hmem
  have hentry : w.entry = v.entry := congrArg TreeEntry.entry hsame
  have heq : w = v' := by
    refine List.inj_on_of_nodup_map hnodup ?_ ?_ ?_
    · exact List.mem_filter.mpr ⟨hw,by simpa [hentry] using hinfo⟩
    · exact List.mem_filter.mpr ⟨hv',by simpa using hinfo'⟩
    · rw [hentry,hpath]
  rw [← hsame,heq]

section Walk

variable {c : Config} {r : WalkedRoot} {p : Pass}

theorem walkRoot_follows (hsound : r.Sound) (hworks : ∀ v ∈ r.visits, v.Works) (hs : Synced p.session)
    (hp : p.status = successStatus) (hcontinue : p.continueTheLoop = true)
    (hquiet : (walkRoot c r.script p).interrupted = false) :
    Followed c (walkPlan c (contents p.session.table) none r.visits) p (walkRoot c r.script p) := by
  have h := walk_follows (p := { p with skipBelow := none }) (contents p.session.table) r.visits hworks hsound.nodup
    hs hp hcontinue (fun _ _ => rfl) hquiet
  exact ⟨h.synced,h.reports,h.violation,h.halted,h.goes,h.stops,h.dry,h.files,h.others,h.written,h.unwritten,h.keys⟩

theorem InScope.outcome {visits : List Visit} {v : Visit} (h : InScope c visits v) (stored : Option FileColumns) :
    visitOutcome c v stored = fileOutcome c v stored := by
  unfold visitOutcome entryOutcome
  rw [h.near,h.info]
  rfl

theorem plan_delivered {stored : RelativePath → Option FileColumns} {visits : List Visit}
    (hgoes : planFailed (walkPlan c stored none visits) = false) {v : Visit} (hv : v ∈ deliveredVisits c none visits) :
    (v,visitOutcome c v (stored v.entry.path)) ∈ walkPlan c stored none visits ∧
      (visitOutcome c v (stored v.entry.path)).failed = false := by
  have hplanned : (v,visitOutcome c v (stored v.entry.path)) ∈ walkPlan c stored none visits := by
    rw [← walkPlan_delivered visits none hgoes] at hv
    obtain ⟨x,hx,rfl⟩ := List.mem_map.mp hv
    rw [← (mem_walkPlan visits none x hx).2]
    exact hx
  refine ⟨hplanned,?_⟩
  by_contra hfailed
  have hany : planFailed (walkPlan c stored none visits) = true :=
    List.any_eq_true.mpr ⟨_,hplanned,by simpa using hfailed⟩
  rw [hgoes] at hany
  cases hany

theorem unscoped_unwritten {visits : List Visit} {v : Visit} {stored : Option FileColumns}
    (hv : v ∈ deliveredVisits c none visits) (hinfo : v.entry.info = .file) (hunscoped : ¬ InScope c visits v)
    (hgoes : (visitOutcome c v stored).failed = false) : (visitOutcome c v stored).columns = none := by
  by_cases hdepth : beyondMaxdepth c v.entry = true
  · unfold visitOutcome
    rw [if_pos hdepth]
  · have hnear : beyondMaxdepth c v.entry = false := by simpa using hdepth
    have hfile : visitOutcome c v stored = fileOutcome c v stored := by
      unfold visitOutcome entryOutcome
      rw [hnear,hinfo]
      rfl
    have hignored : (matchIncludeIgnore c false v.entry.path).ignored = true ∧ c.locked v.entry.path = false := by
      have hinvisible : ¬ (loadedFile c DBrow.zero v.entry.path).ignore = false := fun hvisible =>
        hunscoped ⟨hv,hinfo,hnear,hvisible⟩
      simpa [loadedFile] using hinvisible
    rw [hfile] at hgoes ⊢
    exact (fileOutcome_ignored _ (patternsMatch_of_goes hgoes) hignored.1 hignored.2).2.2

theorem WalkedRoot.Sound.legible (h : r.Sound) {v : Visit} (hv : v ∈ deliveredVisits c none r.visits)
    (hinfo : v.entry.info = .file) : v.Legible :=
  have hconstant := (h.readable v (mem_deliveredVisits hv) hinfo).2
  ⟨hconstant.openable,hconstant.readable⟩

section Plan

variable (hsound : r.Sound)
  (hfollowed : Followed c (walkPlan c (contents p.session.table) none r.visits) p (walkRoot c r.script p))
  (hgoes : planFailed (walkPlan c (contents p.session.table) none r.visits) = false)
include hsound hfollowed hgoes

theorem walkRoot_own (hwrites : c.dryRun = false) {v : Visit} (hv : InScope c r.visits v) :
    contents (walkRoot c r.script p).session.table v.entry.path =
      settledRow c v (contents p.session.table v.entry.path) := by
  obtain ⟨hplanned,-⟩ := plan_delivered hgoes hv.delivered
  rw [settledRow,← hv.outcome]
  cases hcolumns : (visitOutcome c v (contents p.session.table v.entry.path)).columns with
  | some columns => exact hfollowed.written hwrites hgoes _ hplanned columns hcolumns
  | none =>
    exact hfollowed.unwritten hgoes _ hplanned hv.info ((hsound.legible hv.delivered hv.info).uncut _ _) hcolumns

/-- The walk of a root leaves the rows as they are that are not its own. -/
theorem walkRoot_others {path : RelativePath} (hfree : ∀ v, InScope c r.visits v → v.entry.path ≠ path) :
    contents (walkRoot c r.script p).session.table path = contents p.session.table path := by
  by_cases hvisits : Visits (walkPlan c (contents p.session.table) none r.visits) path
  · obtain ⟨⟨v,o⟩,hplanned,hinfo,rfl⟩ := hvisits
    have hv : v ∈ deliveredVisits c none r.visits := by
      rw [← walkPlan_delivered r.visits none hgoes]
      exact List.mem_map_of_mem (f := Prod.fst) hplanned
    obtain rfl : o = visitOutcome c v (contents p.session.table v.entry.path) :=
      (mem_walkPlan r.visits none _ hplanned).2
    refine hfollowed.unwritten hgoes _ hplanned hinfo ((hsound.legible hv hinfo).uncut _ _) ?_
    exact unscoped_unwritten hv hinfo (fun hscope => hfree v hscope rfl) (plan_delivered hgoes hv).2
  · exact hfollowed.others hgoes path hvisits

end Plan

structure RowsOf (c : Config) (done : List WalkedRoot) (initial : FilesTable) (p : Pass) : Prop where
  synced : Synced p.session
  status : p.status = successStatus
  continues : p.continueTheLoop = true
  halted : p.halted = false
  own : ∀ r ∈ done, ∀ v, InScope c r.visits v →
    contents p.session.table v.entry.path = settledRow c v (contents initial v.entry.path)
  fine : ∀ r ∈ done, ∀ v, InScope c r.visits v → (fileOutcome c v (contents initial v.entry.path)).failed = false
  rest : ∀ path, (∀ r ∈ done, ∀ v, InScope c r.visits v → v.entry.path ≠ path) →
    contents p.session.table path = contents initial path

/-- Files with the same relative path lie under the same root. -/
def PathsApart (c : Config) (roots : List WalkedRoot) : Prop :=
  ∀ r ∈ roots, ∀ v, InScope c r.visits v → ∀ r' ∈ roots, ∀ v', InScope c r'.visits v' →
    v.entry.path = v'.entry.path → r.root = r'.root

def SameTrees (roots : List WalkedRoot) : Prop :=
  ∀ r ∈ roots, ∀ r' ∈ roots, r.root = r'.root → r.visits.map Visit.found = r'.visits.map Visit.found

theorem PathsApart.found {roots : List WalkedRoot} (h : PathsApart c roots) (hsame : SameTrees roots)
    (hsound : ∀ r' ∈ roots, r'.Sound) {r' : WalkedRoot} (hr : r ∈ roots) (hr' : r' ∈ roots) {v v' : Visit}
    (hv : InScope c r.visits v) (hv' : InScope c r'.visits v') (hpath : v.entry.path = v'.entry.path) :
    v.found = v'.found :=
  visit_unique (hsame r hr r' hr' (h r hr v hv r' hr' v' hv' hpath)) (hsound r' hr').nodup
    (mem_deliveredVisits hv.delivered) (mem_deliveredVisits hv'.delivered) hv.info hv'.info hpath

/-- Before the walk over one more root the row of its file is the initial one, or the one that
an earlier walk over the root has settled. -/
theorem RowsOf.before {done : List WalkedRoot} {initial : FilesTable} (h : RowsOf c done initial p)
    (hsound : ∀ r' ∈ done ++ [r], r'.Sound) (hapart : PathsApart c (done ++ [r])) (hsame : SameTrees (done ++ [r]))
    {v : Visit} (hv : InScope c r.visits v) :
    contents p.session.table v.entry.path = contents initial v.entry.path ∨
      contents p.session.table v.entry.path = settledRow c v (contents initial v.entry.path) ∧
        (fileOutcome c v (contents initial v.entry.path)).failed = false := by
  by_cases hold : ∃ r' ∈ done, ∃ v', InScope c r'.visits v' ∧ v'.entry.path = v.entry.path
  · obtain ⟨r',hr',v',hv',hpath⟩ := hold
    have hfound := hapart.found hsame hsound (List.mem_append_left [r] hr')
      (List.mem_append_right done List.mem_cons_self) hv' hv hpath
    have hrow := h.own r' hr' v' hv'
    have hfine := h.fine r' hr' v' hv'
    rw [hpath,settledRow_found hfound] at hrow
    rw [hpath,fileOutcome_found hfound] at hfine
    exact .inr ⟨hrow,hfine⟩
  · exact .inl (h.rest _ fun r' hr' v' hv' hpath => hold ⟨r',hr',v',hv',hpath⟩)

theorem RowsOf.walk {done : List WalkedRoot} {initial : FilesTable} (h : RowsOf c done initial p)
    (hsound : ∀ r' ∈ done ++ [r], r'.Sound) (hworks : ∀ v ∈ r.visits, v.Works) (hwrites : c.dryRun = false)
    (hapart : PathsApart c (done ++ [r])) (hsame : SameTrees (done ++ [r]))
    (hquiet : (walkRoot c r.script p).interrupted = false) (hok : (walkRoot c r.script p).status.failure = false) :
    RowsOf c (done ++ [r]) initial (walkRoot c r.script p) := by
  have hlast : r ∈ done ++ [r] := List.mem_append_right _ List.mem_cons_self
  have hr := hsound r hlast
  have hfollowed := walkRoot_follows hr hworks h.synced h.status h.continues hquiet
  have hgoes : planFailed (walkPlan c (contents p.session.table) none r.visits) = false := by
    cases hfailed : planFailed (walkPlan c (contents p.session.table) none r.visits) with
    | false => rfl
    | true =>
      rw [(hfollowed.stops hfailed).1] at hok
      cases hok
  obtain ⟨hstatus,hcontinues⟩ := hfollowed.goes hgoes
  have hperform : performFileHashing c = true := by
    rw [performFileHashing,hwrites]
    rfl
  have hown : ∀ v, InScope c r.visits v → contents (walkRoot c r.script p).session.table v.entry.path =
      settledRow c v (contents initial v.entry.path) ∧
        (fileOutcome c v (contents initial v.entry.path)).failed = false := by
    intro v hv
    obtain ⟨haccess,hconstant⟩ := hr.readable v (mem_deliveredVisits hv.delivered) hv.info
    rw [walkRoot_own hr hfollowed hgoes hwrites hv]
    rcases h.before hsound hapart hsame hv with hfirst | ⟨hsettled,hfine⟩
    · have hfine := (plan_delivered hgoes hv.delivered).2
      rw [hv.outcome,hfirst] at hfine
      rw [hfirst]
      exact ⟨rfl,hfine⟩
    · rw [hsettled,settledRow_again _ hconstant haccess hperform hv.visible]
      exact ⟨rfl,hfine⟩
  have hearlier : ∀ r' ∈ done, ∀ v', InScope c r'.visits v' →
      contents (walkRoot c r.script p).session.table v'.entry.path =
        settledRow c v' (contents initial v'.entry.path) := by
    intro r' hr' v' hv'
    by_cases hagain : ∃ v, InScope c r.visits v ∧ v.entry.path = v'.entry.path
    · obtain ⟨v,hv,hpath⟩ := hagain
      have hfound := hapart.found hsame hsound hlast (List.mem_append_left [r] hr') hv hv' hpath
      have hrow := (hown v hv).1
      rwa [hpath,settledRow_found hfound] at hrow
    · rw [walkRoot_others hr hfollowed hgoes fun v hv hpath => hagain ⟨v,hv,hpath⟩]
      exact h.own r' hr' v' hv'
  refine ⟨hfollowed.synced,hstatus,hcontinues,hfollowed.halted.trans h.halted,?_,?_,?_⟩
  · intro r' hr' v' hv'
    rcases List.mem_append.mp hr' with hdone | hr'
    · exact hearlier r' hdone v' hv'
    · obtain rfl := List.mem_singleton.mp hr'
      exact (hown v' hv').1
  · intro r' hr' v' hv'
    rcases List.mem_append.mp hr' with hdone | hr'
    · exact h.fine r' hdone v' hv'
    · obtain rfl := List.mem_singleton.mp hr'
      exact (hown v' hv').2
  · intro path hfree
    rw [walkRoot_others hr hfollowed hgoes fun v hv => hfree r hlast v hv]
    exact h.rest path fun r' hr' v hv => hfree r' (List.mem_append_left _ hr') v hv

theorem PathsApart.mono {roots roots' : List WalkedRoot} (h : PathsApart c roots) (hsub : roots' ⊆ roots) :
    PathsApart c roots' :=
  fun r hr v hv r' hr' v' hv' => h r (hsub hr) v hv r' (hsub hr') v' hv'

theorem SameTrees.mono {roots roots' : List WalkedRoot} (h : SameTrees roots) (hsub : roots' ⊆ roots) :
    SameTrees roots' :=
  fun r hr r' hr' => h r (hsub hr) r' (hsub hr')

theorem walkRoots_step {rest : List WalkedRoot} (hsound : r.Sound) (hworks : ∀ v ∈ r.visits, v.Works)
    (hs : Synced p.session) (hp : p.status = successStatus) (hcontinue : p.continueTheLoop = true)
    (hquiet : (walkRoots c ((r :: rest).map WalkedRoot.script) p).interrupted = false) :
    (walkRoot c r.script p).interrupted = false ∧ Synced (walkRoot c r.script p).session ∧
      (walkRoot c r.script p).halted = p.halted ∧
      (((walkRoot c r.script p).status = failureStatus ∧
          walkRoots c ((r :: rest).map WalkedRoot.script) p = walkRoot c r.script p) ∨
        ((walkRoot c r.script p).status = successStatus ∧ (walkRoot c r.script p).continueTheLoop = true ∧
          walkRoots c ((r :: rest).map WalkedRoot.script) p =
            walkRoots c (rest.map WalkedRoot.script) (walkRoot c r.script p))) := by
  have hcons : walkRoots c ((r :: rest).map WalkedRoot.script) p =
      if (walkRoot c r.script p).interrupted || !(walkRoot c r.script p).status.success then walkRoot c r.script p
      else walkRoots c (rest.map WalkedRoot.script) (walkRoot c r.script p) :=
    walkRoots_cons r.script (rest.map WalkedRoot.script) p rfl rfl
  have hroot : (walkRoot c r.script p).interrupted = false := by
    rw [hcons] at hquiet
    split at hquiet
    · exact hquiet
    · exact walkRoots_interrupted hquiet
  have hfollowed := walkRoot_follows hsound hworks hs hp hcontinue hroot
  refine ⟨hroot,hfollowed.synced,hfollowed.halted,?_⟩
  rw [hcons,hroot]
  cases hfailed : planFailed (walkPlan c (contents p.session.table) none r.visits) with
  | true =>
    rw [(hfollowed.stops hfailed).1]
    exact .inl ⟨rfl,rfl⟩
  | false =>
    obtain ⟨hstatus,hgoes⟩ := hfollowed.goes hfailed
    rw [hstatus]
    exact .inr ⟨rfl,hgoes,rfl⟩

theorem walks_end (roots : List WalkedRoot) (hsound : ∀ r ∈ roots, r.Sound)
    (hworks : ∀ r ∈ roots, ∀ v ∈ r.visits, v.Works) (hs : Synced p.session) (hp : p.status = successStatus)
    (hcontinue : p.continueTheLoop = true)
    (hquiet : (walkRoots c (roots.map WalkedRoot.script) p).interrupted = false) :
    Synced (walkRoots c (roots.map WalkedRoot.script) p).session ∧
      (walkRoots c (roots.map WalkedRoot.script) p).halted = p.halted ∧
      ((walkRoots c (roots.map WalkedRoot.script) p).status = successStatus ∨
        (walkRoots c (roots.map WalkedRoot.script) p).status = failureStatus) := by
  induction roots generalizing p with
  | nil => exact ⟨hs,rfl,.inl hp⟩
  | cons r rest ih =>
    obtain ⟨-,hsynced,hhalted,⟨hfailed,hstop⟩ | ⟨hstatus,hgoes,hnext⟩⟩ := walkRoots_step (hsound r List.mem_cons_self)
      (hworks r List.mem_cons_self) hs hp hcontinue hquiet
    · rw [hstop]
      exact ⟨hsynced,hhalted,.inr hfailed⟩
    · rw [hnext] at hquiet ⊢
      obtain ⟨hsynced',hhalted',hends⟩ := ih (fun r' hr' => hsound r' (List.mem_cons_of_mem _ hr'))
        (fun r' hr' => hworks r' (List.mem_cons_of_mem _ hr')) hsynced hstatus hgoes hquiet
      exact ⟨hsynced',hhalted'.trans hhalted,hends⟩

theorem RowsOf.walks {initial : FilesTable} (hwrites : c.dryRun = false) (roots : List WalkedRoot)
    {done : List WalkedRoot} (h : RowsOf c done initial p) (hsound : ∀ r ∈ done ++ roots, r.Sound)
    (hworks : ∀ r ∈ roots, ∀ v ∈ r.visits, v.Works) (hapart : PathsApart c (done ++ roots))
    (hsame : SameTrees (done ++ roots))
    (hquiet : (walkRoots c (roots.map WalkedRoot.script) p).interrupted = false)
    (hok : (walkRoots c (roots.map WalkedRoot.script) p).status.failure = false) :
    RowsOf c (done ++ roots) initial (walkRoots c (roots.map WalkedRoot.script) p) := by
  induction roots generalizing done p with
  | nil =>
    rw [List.append_nil]
    exact h
  | cons r rest ih =>
    have hmem : r ∈ done ++ r :: rest := List.mem_append_right _ List.mem_cons_self
    have hsub : done ++ [r] ⊆ done ++ r :: rest := by
      intro x hx
      rcases List.mem_append.mp hx with hx | hx
      · exact List.mem_append_left _ hx
      · rw [List.mem_singleton.mp hx]
        exact hmem
    have hassoc : done ++ r :: rest = (done ++ [r]) ++ rest := by simp
    obtain ⟨hroot,-,-,⟨hfailed,hstop⟩ | ⟨hstatus,-,hnext⟩⟩ := walkRoots_step (hsound r hmem)
      (hworks r List.mem_cons_self) h.synced h.status h.continues hquiet
    · rw [hstop,hfailed] at hok
      cases hok
    · have hwalked := h.walk (fun r' hr' => hsound r' (hsub hr')) (hworks r List.mem_cons_self) hwrites
        (hapart.mono hsub) (hsame.mono hsub) hroot (by rw [hstatus]; rfl)
      rw [hnext] at hquiet hok ⊢
      rw [hassoc] at hsound hapart hsame ⊢
      exact ih hwalked hsound (fun r' hr' => hworks r' (List.mem_cons_of_mem _ hr')) hapart hsame hquiet hok

end Walk

section Turns

variable {c : Config} {p : Pass}

def walkTurns (c : Config) : List Visit → Pass → List (Visit × Pass)
  | [],_ => []
  | v :: rest,p => (v,p) :: walkTurns c rest (traverseStep c p v)

def rootTurns (c : Config) : List WalkedRoot → Pass → List (WalkedRoot × Visit × Pass)
  | [],_ => []
  | r :: rest,p =>
    (walkTurns c r.visits { p with skipBelow := none }).map (fun x => (r,x.1,x.2)) ++
      if (walkRoot c r.script p).interrupted || !(walkRoot c r.script p).status.success then []
      else rootTurns c rest (walkRoot c r.script p)

theorem rootTurns_root {roots : List WalkedRoot} {x : WalkedRoot × Visit × Pass} (h : x ∈ rootTurns c roots p) :
    x.1 ∈ roots := by
  induction roots generalizing p with
  | nil => cases h
  | cons r rest ih =>
    rcases List.mem_append.mp h with h | h
    · obtain ⟨y,-,rfl⟩ := List.mem_map.mp h
      exact List.mem_cons_self
    · split at h
      · cases h
      · exact List.mem_cons_of_mem _ (ih h)

/-- A turn leaves the rows of all other paths as they are. -/
def TurnOthers (c : Config) (v : Visit) (p : Pass) : Prop :=
  ∀ k, k ≠ v.entry.path → contents (traverseStep c p v).session.table k = contents p.session.table k

theorem walkTurns_others (visits : List Visit) (hworks : ∀ v ∈ visits, v.Works)
    (hgoing : p.continueTheLoop = false ∨
      (p.continueTheLoop = true ∧ p.status = successStatus ∧ Synced p.session ∧ p.interrupted = false))
    (hquiet : (visits.foldl (traverseStep c) p).interrupted = false) :
    ∀ x ∈ walkTurns c visits p, TurnOthers c x.1 x.2 := by
  induction visits generalizing p with
  | nil => exact fun x hx => by cases hx
  | cons v rest ih =>
    have hrest := fun w hw => hworks w (List.mem_cons_of_mem v hw)
    have hturn : TurnOthers c v p ∧ ((traverseStep c p v).continueTheLoop = false ∨
        ((traverseStep c p v).continueTheLoop = true ∧ (traverseStep c p v).status = successStatus ∧
          Synced (traverseStep c p v).session ∧ (traverseStep c p v).interrupted = false)) := by
      rcases id hgoing with hstop | ⟨hcontinue,hp,hs,hint⟩
      · rw [TurnOthers,traverseStep_stopped hstop]
        exact ⟨fun _ _ => rfl,.inl hstop⟩
      · cases hdelivered : delivered p.skipBelow v.entry with
        | false =>
          rw [TurnOthers,traverseStep_undelivered hdelivered]
          exact ⟨fun _ _ => rfl,hgoing⟩
        | true =>
          have hstep : (traverseStep c p v).interrupted = false := walk_interrupted rest hquiet
          have hsmooth : v.Smooth := ⟨hworks v List.mem_cons_self,traverseStep_quiet hcontinue hdelivered hstep⟩
          have hsettled := traverseStep_smooth (c := c) hsmooth hp hs hcontinue hint hdelivered
          refine ⟨hsettled.others,?_⟩
          cases hfailed : (visitOutcome c v (contents p.session.table v.entry.path)).failed with
          | true => exact .inl (hsettled.stops hfailed).2
          | false =>
            obtain ⟨hstatus,hgoes⟩ := hsettled.goes hfailed
            exact .inr ⟨hgoes.trans hcontinue,hstatus,hsettled.synced,hstep⟩
    intro x hx
    rcases List.mem_cons.mp hx with rfl | hx
    · exact hturn.1
    · exact ih hrest hturn.2 hquiet x hx

/-- No turn of a pass that no interrupt reaches touches the row of another path. -/
theorem rootTurns_others (roots : List WalkedRoot) (hsound : ∀ r ∈ roots, r.Sound)
    (hworks : ∀ r ∈ roots, ∀ v ∈ r.visits, v.Works) (hs : Synced p.session) (hp : p.status = successStatus)
    (hcontinue : p.continueTheLoop = true)
    (hquiet : (walkRoots c (roots.map WalkedRoot.script) p).interrupted = false) :
    ∀ x ∈ rootTurns c roots p, TurnOthers c x.2.1 x.2.2 := by
  induction roots generalizing p with
  | nil => exact fun x hx => by cases hx
  | cons r rest ih =>
    obtain ⟨hroot,hsynced,-,hcase⟩ := walkRoots_step (hsound r List.mem_cons_self) (hworks r List.mem_cons_self)
      hs hp hcontinue hquiet
    have hint : p.interrupted = false := walk_interrupted (p := { p with skipBelow := none }) r.visits hroot
    intro x hx
    rcases List.mem_append.mp hx with hx | hx
    · obtain ⟨y,hy,rfl⟩ := List.mem_map.mp hx
      exact walkTurns_others (p := { p with skipBelow := none }) r.visits (hworks r List.mem_cons_self) (.inr ⟨hcontinue,hp,hs,hint⟩) hroot y hy
    · rcases hcase with ⟨hfailed,-⟩ | ⟨hstatus,hgoes,hnext⟩
      · rw [hfailed,show failureStatus.success = false from rfl,Bool.not_false,Bool.or_true] at hx
        cases hx
      · rw [hroot,hstatus] at hx
        rw [hnext] at hquiet
        exact ih (fun r' hr' => hsound r' (List.mem_cons_of_mem _ hr'))
          (fun r' hr' => hworks r' (List.mem_cons_of_mem _ hr')) hsynced hstatus hgoes hquiet x hx

end Turns

end Precizer.Traversal
