import Precizer.Database.PrefixRules

/-! # The stored prefixes are replaced or kept

After a validation and a save that both succeed the stored prefixes are the roots of the
run. Two things escape the code: a row with the identifier that it takes for none, and an
interrupt that was already pending, upon which both functions return at once.
-/
namespace Precizer.Guarantees
open General Rational Traversal Database Prefixes

structure PrefixRun where
  c : Config
  primaryFileExists : Bool
  roots : List RootPath
  validation : ValidateScript
  save : PrefixesScript
  start : PathsState

namespace PrefixRun

def validated (x : PrefixRun) : Return × PathsState :=
  Prefixes.dbValidatePaths x.c x.primaryFileExists x.roots x.validation x.start

def saved (x : PrefixRun) : Return × PathsState :=
  Prefixes.dbSavePrefixes x.c x.primaryFileExists x.roots x.save x.validated.2

/-- An update outside the compare and the dry-run mode, with no transaction open. A database
that did not exist has no rows, and a `ROLLBACK` succeeds. -/
structure Writes (x : PrefixRun) : Prop where
  compare : x.c.compare = false
  dryRun : x.c.dryRun = false
  idle : x.start.store.autocommit = true
  new : x.primaryFileExists = false → x.start.table.rows = []
  rollback : x.save.rollback = true

/-- No interrupt is pending when one of the functions is entered. -/
structure Uninterrupted (x : PrefixRun) : Prop where
  validation : x.validation.signal.raised .enter = false
  save : x.save.signal.raised .enter = false

/-- Success of both functions leaves the roots, each once, and leaves them durable. -/
def Replaced (x : PrefixRun) : Prop :=
  x.validated.1 = successStatus → x.saved.1 = successStatus →
    (∀ p, p ∈ x.saved.2.table.prefixes ↔ p ∈ x.roots) ∧ x.saved.2.table.prefixes.Nodup ∧
      x.saved.2.store.committed = x.saved.2.table

/-- A warning or a failure leaves the paths table, and no transaction stays open. -/
structure Kept (x : PrefixRun) : Prop where
  validated : x.validated.2.store = x.start.store
  saved : x.saved.1.critical = true → x.saved.2.table = x.start.table ∧
    x.saved.2.store.durable = x.start.store.durable
  closed : x.validated.2.store.autocommit = true ∧ x.saved.2.store.autocommit = true

end PrefixRun

theorem mem_foldl_insertPrefix {roots kept : List RootPath} {p : RootPath} :
    p ∈ roots.foldl insertPrefix kept ↔ p ∈ kept ∨ p ∈ roots := by
  induction roots generalizing kept with
  | nil => simp
  | cons root rest ih =>
    have hone : p ∈ insertPrefix kept root ↔ p ∈ kept ∨ p = root := by
      unfold insertPrefix
      split
      · rename_i hmem
        constructor
        · exact .inl
        · rintro (hp | rfl)
          · exact hp
          · exact hmem
      · simp
    rw [List.foldl_cons,ih,hone,List.mem_cons,or_assoc]

variable {x : PrefixRun}

theorem kept_of_writes (h : x.Writes) : x.Kept := by
  have hstore : x.validated.2.store = x.start.store := dbValidatePaths_store.1
  have hidle : x.validated.2.store.autocommit = true := by
    rw [hstore]
    exact h.idle
  obtain ⟨hclosed,-,hfailed⟩ := @dbSavePrefixes_spec x.c x.primaryFileExists x.roots x.save x.validated.2 hidle h.rollback
  refine ⟨hstore,fun hcritical => ?_,hidle,hclosed⟩
  obtain ⟨hdurable,htable⟩ := hfailed hcritical
  have hsame : x.validated.2.table = x.start.table := congrArg Store.working hstore
  rw [hstore] at hdurable
  exact ⟨htable.trans hsame,hdurable⟩

theorem keptPrefixes_roots (h : x.Writes) (hquiet : x.validation.signal.raised .enter = false)
    (hids : Identified x.start.table x.roots) (hvalid : x.validated.1 = successStatus) :
    ∀ p ∈ keptPrefixes x.c x.validated.2, p ∈ x.roots := by
  obtain ⟨-,hrecorded,hmatching⟩ := dbValidatePaths_success h.compare hquiet hids hvalid
  have htable : x.validated.2.table = x.start.table := congrArg Store.working dbValidatePaths_store.1
  intro p hp
  unfold keptPrefixes at hp
  split at hp
  · rw [htable] at hp
    obtain ⟨r,hr,rfl⟩ := List.mem_map.mp hp
    obtain ⟨hmem,hkept⟩ := List.mem_filter.mp hr
    have hkept : r.ID ∉ x.validated.2.pathIdDoesNotExist := by simpa using hkept
    by_contra hout
    exact hkept (hrecorded r hmem hout)
  · rename_i hforce
    rw [htable] at hp
    obtain ⟨r,hr,rfl⟩ := List.mem_map.mp hp
    have hunforced : x.c.force = false := by
      rw [h.dryRun] at hforce
      simpa using hforce
    cases hexists : x.primaryFileExists with
    | true => exact hmatching hunforced hexists r hr
    | false =>
      rw [h.new hexists] at hr
      cases hr

/-- The stored prefixes become the roots of the run, each once, when validation and save
succeed; a warning or a failure of either leaves the paths table as it was. -/
theorem prefixes_replaced (h : x.Writes) (hquiet : x.Uninterrupted) (hids : Identified x.start.table x.roots) :
    x.Replaced ∧ x.Kept := by
  have hkept := kept_of_writes h
  refine ⟨fun hvalid hsaved => ?_,hkept⟩
  obtain ⟨hclosed,hprefixes,-⟩ := @dbSavePrefixes_spec x.c x.primaryFileExists x.roots x.save x.validated.2
    hkept.closed.1 h.rollback
  have hprefixes := hprefixes hsaved hquiet.save h.compare h.dryRun
  refine ⟨fun p => ?_,x.saved.2.table.prefixesNodup,(x.saved.2.store.settled hclosed).symm⟩
  change p ∈ (Prefixes.dbSavePrefixes x.c x.primaryFileExists x.roots x.save x.validated.2).2.table.prefixes ↔ _
  rw [hprefixes,mem_foldl_insertPrefix]
  constructor
  · rintro (hp | hp)
    · exact keptPrefixes_roots h hquiet.validation hids hvalid p hp
    · exact hp
  · exact .inr

/-- A forced update of a database with one stored prefix, over another root. -/
def movedRoot (id : ℤ) (validation : ValidateScript) (save : PrefixesScript) : PrefixRun where
  c := { update := true, force := true }
  primaryFileExists := true
  roots := [[47,98],[47,98]]
  validation := validation
  save := save
  start := ⟨.opened (.single id [47,97]) [],[],0,false⟩

theorem movedRoot_writes (id : ℤ) (validation : ValidateScript) : (movedRoot id validation {}).Writes :=
  ⟨rfl,rfl,rfl,(fun hno => by cases hno),rfl⟩

theorem prefixes_replaced_moved : (movedRoot 1 {} {}).Replaced ∧ (movedRoot 1 {} {}).Kept :=
  prefixes_replaced (movedRoot_writes 1 {}) ⟨rfl,rfl⟩ (by unfold Identified; decide)

/-- An interrupt that arrived before the validation, with its halt lost. -/
def pendingInterrupt : Signal PathsMoment := ⟨some .enter,true⟩

/-- A stored prefix with the identifier −1 outlives the update, and a pending interrupt lets
both functions succeed without doing anything. -/
theorem prefixes_outlive :
    ((movedRoot (-1) {} {}).Writes ∧ (movedRoot (-1) {} {}).Uninterrupted ∧ ¬ (movedRoot (-1) {} {}).Replaced) ∧
      ((movedRoot 1 { signal := pendingInterrupt } { signal := pendingInterrupt }).Writes ∧
        ¬ (movedRoot 1 { signal := pendingInterrupt } { signal := pendingInterrupt }).Replaced) := by
  refine ⟨⟨movedRoot_writes _ _,⟨rfl,rfl⟩,?_⟩,⟨rfl,rfl,rfl,(fun hno => by cases hno),rfl⟩,?_⟩
  · intro hreplaced
    have hroots := (hreplaced (by decide +kernel) (by decide +kernel)).1 [47,97]
    exact absurd (hroots.mp (by decide +kernel)) (by decide)
  · intro hreplaced
    have hroots := (hreplaced (by decide +kernel) (by decide +kernel)).1 [47,97]
    exact absurd (hroots.mp (by decide +kernel)) (by decide)

end Precizer.Guarantees
