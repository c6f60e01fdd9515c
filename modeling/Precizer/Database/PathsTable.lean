import Precizer.Database.MissingCleanup

/-! # The paths table

The roots of a run are stored as prefixes, each once, in the order in which they were
first given. Without `--force` a stored prefix that is not a root of the run ends it with
a warning; with it such prefixes are replaced.
-/
namespace Precizer.Database
open Rational Traversal

instance decidableMemRoots (root : RootPath) (roots : List RootPath) : Decidable (root ∈ roots) :=
  List.instDecidableMemOfLawfulBEq root roots

/-- Stored prefixes have to be roots of the run unless they may be replaced. -/
def dbValidatePaths (c : Config) (roots stored : List RootPath) : Return :=
  if c.compare then successStatus
  else if stored.all (fun p => p ∈ roots) then successStatus
  else if c.force then successStatus
  else warningStatus

/-- `INSERT OR IGNORE` of one prefix. -/
def insertPrefix (stored : List RootPath) (root : RootPath) : List RootPath :=
  if root ∈ stored then stored else stored ++ [root]

/-- The prefixes after the roots were saved; a dry run leaves an existing database alone. -/
def dbSavePrefixes (c : Config) (primaryFileExists : Bool) (roots stored : List RootPath) : List RootPath :=
  if c.compare || (c.dryRun && primaryFileExists) then stored
  else
    let kept := if c.force && !c.dryRun then stored.filter (fun p => p ∈ roots) else stored
    roots.foldl insertPrefix kept

theorem insertPrefix_ne_nil {stored : List RootPath} {root : RootPath} (hstored : ∀ p ∈ stored, p ≠ [])
    (hroot : root ≠ []) : ∀ p ∈ insertPrefix stored root, p ≠ [] := by
  unfold insertPrefix
  split
  · exact hstored
  · intro p hp
    rcases List.mem_append.mp hp with hp | hp
    · exact hstored p hp
    · rw [List.mem_singleton.mp hp]
      exact hroot

theorem dbSavePrefixes_ne_nil (c : Config) (primaryFileExists : Bool) {roots stored : List RootPath}
    (hroots : ∀ p ∈ roots, p ≠ []) (hstored : ∀ p ∈ stored, p ≠ []) :
    ∀ p ∈ dbSavePrefixes c primaryFileExists roots stored, p ≠ [] := by
  have hfold : ∀ (roots kept : List RootPath), (∀ p ∈ roots, p ≠ []) → (∀ p ∈ kept, p ≠ []) →
      ∀ p ∈ roots.foldl insertPrefix kept, p ≠ [] := by
    intro roots
    induction roots with
    | nil => exact fun kept _ h => h
    | cons root rest ih =>
      intro kept hroots hkept
      exact ih _ (fun p hp => hroots p (List.mem_cons_of_mem _ hp))
        (insertPrefix_ne_nil hkept (hroots root List.mem_cons_self))
  unfold dbSavePrefixes
  split
  · exact hstored
  · apply hfold roots _ hroots
    split
    · exact fun p hp => hstored p (List.mem_of_mem_filter hp)
    · exact hstored

theorem dbSavePrefixes_roots {c : Config} {roots stored : List RootPath} (existed : Bool)
    (hcompare : c.compare = false) (hdry : c.dryRun = false)
    (hvalid : dbValidatePaths c roots stored = successStatus) :
    ∃ kept : List RootPath, (∀ p ∈ kept, p ∈ roots) ∧
      dbSavePrefixes c existed roots stored = roots.foldl insertPrefix kept := by
  unfold dbSavePrefixes
  rw [hcompare,Bool.false_or,hdry]
  simp only [Bool.false_and,Bool.false_eq_true,↓reduceIte]
  refine ⟨_,?_,rfl⟩
  cases hforce : c.force with
  | true =>
    intro p hp
    simpa using (List.mem_filter.mp hp).2
  | false =>
    unfold dbValidatePaths at hvalid
    rw [hcompare,hforce] at hvalid
    simp only [Bool.false_eq_true,↓reduceIte] at hvalid
    split at hvalid
    · rename_i hall
      intro p hp
      simpa using List.all_eq_true.mp hall p hp
    · cases hvalid

theorem foldl_insertPrefix_subset {roots kept all : List RootPath} (hroots : ∀ p ∈ roots, p ∈ all)
    (hkept : ∀ p ∈ kept, p ∈ all) : ∀ p ∈ roots.foldl insertPrefix kept, p ∈ all := by
  induction roots generalizing kept with
  | nil => exact hkept
  | cons root rest ih =>
    refine ih (fun p hp => hroots p (List.mem_cons_of_mem _ hp)) ?_
    unfold insertPrefix
    split
    · exact hkept
    · intro p hp
      rcases List.mem_append.mp hp with hp | hp
      · exact hkept p hp
      · rw [List.mem_singleton.mp hp]
        exact hroots root List.mem_cons_self

theorem dbValidatePaths_saved {c : Config} {roots stored : List RootPath} (existed : Bool)
    (hcompare : c.compare = false) (hdry : c.dryRun = false)
    (hvalid : dbValidatePaths c roots stored = successStatus) :
    dbValidatePaths c roots (dbSavePrefixes c existed roots stored) = successStatus := by
  obtain ⟨kept,hkept,hsaved⟩ := dbSavePrefixes_roots existed hcompare hdry hvalid
  have hall : (dbSavePrefixes c existed roots stored).all (fun p => p ∈ roots) = true := by
    rw [List.all_eq_true,hsaved]
    intro p hp
    simpa using foldl_insertPrefix_subset (fun p hp => hp) hkept p hp
  unfold dbValidatePaths
  rw [hcompare,hall]
  rfl

/-- An update over one root that may go on works under that root. -/
theorem dbSavePrefixes_head {c : Config} {root : RootPath} {stored : List RootPath} (existed : Bool)
    (hcompare : c.compare = false) (hdry : c.dryRun = false)
    (hvalid : dbValidatePaths c [root] stored = successStatus) :
    (dbSavePrefixes c existed [root] stored).head? = some root := by
  obtain ⟨kept,hkept,hsaved⟩ := dbSavePrefixes_roots existed hcompare hdry hvalid
  rw [hsaved,List.foldl_cons,List.foldl_nil]
  unfold insertPrefix
  cases kept with
  | nil => rfl
  | cons p rest =>
    obtain rfl := List.mem_singleton.mp (hkept p List.mem_cons_self)
    rw [if_pos List.mem_cons_self]
    rfl

theorem dbValidatePaths_cases (c : Config) (roots stored : List RootPath) :
    dbValidatePaths c roots stored = successStatus ∨ dbValidatePaths c roots stored = warningStatus := by
  unfold dbValidatePaths
  split
  · exact .inl rfl
  · split
    · exact .inl rfl
    · split
      · exact .inl rfl
      · exact .inr rfl

end Precizer.Database
