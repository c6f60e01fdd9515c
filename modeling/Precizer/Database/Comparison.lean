import Precizer.Database.FileTransaction

/-! # Comparison of two databases

Three queries select the paths that only the first database has, those that only the
second has, and those both have with different digests. Each query is reported through
the same loop, which leaves out the paths the patterns hide.
-/
namespace Precizer.Database
open General Rational Traversal

/-- The `--compare-filter` values; none given means all of them. -/
structure CompareFilter where
  firstSource : Bool := false
  secondSource : Bool := false
  checksumMismatch : Bool := false
  deriving DecidableEq

inductive CompareCategory where
  | firstSource
  | secondSource
  | checksumMismatch
  deriving DecidableEq

def CompareFilter.specified (f : CompareFilter) : Bool :=
  f.firstSource || f.secondSource || f.checksumMismatch

def CompareFilter.contains (f : CompareFilter) : CompareCategory → Bool
  | .firstSource => f.firstSource
  | .secondSource => f.secondSource
  | .checksumMismatch => f.checksumMismatch

/-- `check_first_source`, `check_second_source` and `verify_checksum_consistency`. -/
def CompareFilter.checks (f : CompareFilter) (category : CompareCategory) : Bool :=
  f.contains category || !f.specified

def CompareFilter.full (f : CompareFilter) : Bool :=
  f.checks .firstSource && f.checks .secondSource && f.checks .checksumMismatch

/-- Rows of the first table without a partner in the second: `LEFT JOIN` with `IS NULL`. -/
def unmatchedPaths (a b : FilesTable) : List RelativePath :=
  (a.rows.filter fun e => (b.find e.key).isNone).map Entry.key

/-- Partners with different digests: `IS NOT` takes `NULL` for a value equal to itself. -/
def mismatchedPaths (a b : FilesTable) : List RelativePath :=
  (b.rows.filter fun e =>
    match a.find e.key with
    | none => false
    | some partner => partner.value.sha512 ≠ e.value.sha512).map Entry.key

/-- `ORDER BY relative_path ASC`, the order of the bytes. -/
def orderPaths (paths : List RelativePath) : List RelativePath :=
  paths.mergeSort fun p q => decide (p ≤ q)

/-- The rows the query of a category delivers, for the two databases in order. -/
def comparePaths (category : CompareCategory) (a b : FilesTable) : List RelativePath :=
  orderPaths <|
    match category with
    | .firstSource => unmatchedPaths a b
    | .secondSource => unmatchedPaths b a
    | .checksumMismatch => mismatchedPaths a b

inductive CompareLine where
  | starting
  | heading (category : CompareCategory)
  | path (category : CompareCategory) (path : RelativePath)
  | allFilesIdentical
  | noFirstSourceDifferences
  | noSecondSourceDifferences
  | allChecksumsIdentical
  | absolutelyEqual
  | complete
  deriving DecidableEq

/-- The points of a comparison at which the halt or the flag is read. -/
inductive CompareMoment where
  | enter
  | attached
  | row (category : CompareCategory) (n : ℕ)
  | copied (category : CompareCategory) (n : ℕ)
  | scopeMatch (category : CompareCategory) (n : ℕ)
  | scope (category : CompareCategory) (n : ℕ)
  | drained (category : CompareCategory)
  | reported (category : CompareCategory)
  | detached
  | finish
  deriving DecidableEq

def CompareCategory.stage : CompareCategory → ℕ
  | .firstSource => 0
  | .secondSource => 1
  | .checksumMismatch => 2

instance : Timeline CompareMoment where
  key
  | .enter => (0,0)
  | .attached => (0,1)
  | .row category n => (2 * category.stage + 1,4 * n)
  | .copied category n => (2 * category.stage + 1,4 * n + 1)
  | .scopeMatch category n => (2 * category.stage + 1,4 * n + 2)
  | .scope category n => (2 * category.stage + 1,4 * n + 3)
  | .drained category => (2 * category.stage + 2,0)
  | .reported category => (2 * category.stage + 2,1)
  | .detached => (7,0)
  | .finish => (7,1)

/-- The results of one query's statements. -/
structure CategoryScript where
  prepared : Bool := true
  stepped : ℕ → Bool := fun _ => true
  copied : ℕ → Bool := fun _ => true
  finalized : Bool := true

/-- The results of everything a comparison does; `verified` is the status after the two files
were found and checked. -/
structure CompareScript where
  signal : Signal CompareMoment := {}
  verified : Return := successStatus
  conclusive : verified.conclusive = true := by decide
  attachedFirst : Bool := true
  attachedSecond : Bool := true
  category : CompareCategory → CategoryScript := fun _ => {}
  detachedFirst : Bool := true
  detachedSecond : Bool := true

structure CategoryReport where
  status : Return
  found : Bool
  lines : List CompareLine

section Report

variable (c : Config) (script : CompareScript) (category : CompareCategory)

/-- The loop over the selected paths; the flag tells whether the statement came to its end. -/
def reportRows : ℕ → List RelativePath → Bool → CategoryReport × Bool
  | n, paths, found =>
    if ((script.category category).stepped n) = false then (⟨successStatus,found,[]⟩,false)
    else
      match paths with
      | [] => (⟨successStatus,found,[]⟩,true)
      | path :: rest =>
        if script.signal.raised (.row category n) then (⟨successStatus,found,[]⟩,false)
        else
          let halted := script.signal.halted (.copied category n)
          let status := run (globalReturnStatus halted) successStatus
            (leave halted ((script.category category).copied n))
          if status ≠ successStatus then (⟨status,found,[]⟩,false)
          else
            let scope := matchIncludeIgnore c (script.signal.halted (.scopeMatch category n)) path
            let status := leave (script.signal.halted (.scope category n)) scope.ok
            if status ≠ successStatus then (⟨status,found,[]⟩,false)
            else if scope.ignored then reportRows (n + 1) rest found
            else
              let r := reportRows (n + 1) rest true
              ({ r.1 with lines :=
                (if found then [] else [.heading category]) ++ .path category path :: r.1.lines },r.2)

def preparedRows (paths : List RelativePath) : CategoryReport × Bool :=
  if (script.category category).prepared then reportRows c script category 0 paths false
  else (⟨failureStatus,false,[]⟩,false)

def dbReportCategory (paths : List RelativePath) : CategoryReport :=
  let r := preparedRows c script category paths
  let status :=
    if !(script.category category).finalized then failureStatus
    else if r.1.status = successStatus ∧ script.signal.raised (.drained category) = false ∧ r.2 = false then
      failureStatus
    else r.1.status
  { r.1 with status := provide (globalReturnStatus (script.signal.halted (.reported category))) status }

end Report

structure Comparison where
  status : Return
  lines : List CompareLine

/-- `run` of one category, if it is selected. -/
def runCategory (c : Config) (script : CompareScript) (f : CompareFilter) (a b : FilesTable)
    (category : CompareCategory) (status : Return) : CategoryReport :=
  if f.checks category && !status.skip then
    let r := dbReportCategory c script category (comparePaths category a b)
    { r with status := run (globalReturnStatus (script.signal.halted (.reported category))) status r.status }
  else ⟨status,false,[]⟩

def compareSummary (f : CompareFilter) (first second mismatches : Bool) : List CompareLine :=
  (if f.full then
    if !first && !second && !mismatches then [.allFilesIdentical] else []
  else
    (if f.checks .firstSource && !first then [.noFirstSourceDifferences] else []) ++
      if f.checks .secondSource && !second then [.noSecondSourceDifferences] else []) ++
  (if f.checks .checksumMismatch && !mismatches then [.allChecksumsIdentical] else []) ++
  if f.full && !first && !second && !mismatches then [.absolutelyEqual] else []

/-- `db_attach` of both databases under the status of their verification. -/
def attachDatabases (script : CompareScript) : Return × Bool × Bool :=
  let halted := script.signal.halted .attached
  if script.verified = successStatus then
    let status := leave halted script.attachedFirst
    if status = successStatus then
      (leave halted script.attachedSecond,true,decide (leave halted script.attachedSecond = successStatus))
    else (status,false,false)
  else (script.verified,false,false)

/-- `db_detach` of a database that was attached. -/
def detachDatabase (script : CompareScript) (attached detached : Bool) (status : Return) : Return :=
  let halted := script.signal.halted .detached
  if attached then call (globalReturnStatus halted) status (leave halted detached) else status

def dbCompare (c : Config) (script : CompareScript) (f : CompareFilter) (a b : FilesTable) : Comparison :=
  let finish := script.signal.halted .finish
  if script.signal.raised .enter || !c.compare then ⟨leave finish true,[]⟩
  else
    let attached := attachDatabases script
    let first := runCategory c script f a b .firstSource attached.1
    let second := runCategory c script f a b .secondSource first.status
    let mismatches := runCategory c script f a b .checksumMismatch second.status
    let status := detachDatabase script attached.2.2 script.detachedSecond <|
      detachDatabase script attached.2.1 script.detachedFirst mismatches.status
    let summary := if status = successStatus then compareSummary f first.found second.found mismatches.found
      else []
    ⟨provide (globalReturnStatus finish) status,
      [.starting] ++ first.lines ++ second.lines ++ mismatches.lines ++ summary ++ [.complete]⟩

end Precizer.Database
