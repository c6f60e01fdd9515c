import Precizer.Database.StatLayouts
import Precizer.Database.FileTransaction

/-! # Version check and upgrade of a database file

An older database is brought to the current version by a chain of migrations. Each
migration rewrites the metadata of every row in one transaction, and the version number
is stored by another one, on another connection.
-/
namespace Precizer.Database
open General Rational Traversal

def currentDbVersion : ℤ := 4

/-- A database file: the rows of its metadata table, if it has that table, and its files. -/
structure DatabaseFile where
  metadata : Option (List ℤ)
  files : FilesTable

/-- The version a reader finds, zero without a metadata table or without a row in it. -/
def DatabaseFile.version (d : DatabaseFile) : ℤ := (d.metadata.getD []).headD 0

inductive Migration where
  | from0To1
  | toVersion4
  deriving DecidableEq

def Migration.target : Migration → ℤ
  | .from0To1 => 1
  | .toVersion4 => 4

/-- The metadata blob a migration stores over an older one. -/
def Migration.stat (m : Migration) (stat : Option (List UInt8)) : List UInt8 :=
  match m with
  | .from0To1 => (statToVersion1 stat).toBytes
  | .toVersion4 => (statToVersion4 stat).toBytes

def Migration.columns (m : Migration) (columns : FileColumns) : FileColumns :=
  { columns with stat := some (m.stat columns.stat) }

/-- Only the first migration creates the metadata table. -/
def Migration.metadata (m : Migration) (metadata : Option (List ℤ)) : Option (List ℤ) :=
  match m with
  | .from0To1 => some (metadata.getD [])
  | .toVersion4 => metadata

inductive UpgradeCommit where
  | migrated (m : Migration)
  | stored (version : ℤ)
  deriving DecidableEq

abbrev UpgradeStore := Store DatabaseFile UpgradeCommit

/-- The points of a version check at which the halt or the flag is read. -/
inductive UpgradeMoment where
  | enter
  | retrieved
  | row (m : Migration) (n : ℕ)
  | updated (m : Migration) (n : ℕ)
  | drained (m : Migration)
  | processed (m : Migration)
  | ended (m : Migration)
  | migrated (m : Migration)
  | store (m : Migration)
  | stored (m : Migration)
  | upgraded
  | vacuumed
  | finish
  deriving DecidableEq

instance : Timeline UpgradeMoment where
  key
  | .enter => (0,0)
  | .retrieved => (0,1)
  | .row m n => (2 * m.target.toNat,2 * n)
  | .updated m n => (2 * m.target.toNat,2 * n + 1)
  | .drained m => (2 * m.target.toNat + 1,0)
  | .processed m => (2 * m.target.toNat + 1,1)
  | .ended m => (2 * m.target.toNat + 1,2)
  | .migrated m => (2 * m.target.toNat + 1,3)
  | .store m => (2 * m.target.toNat + 1,4)
  | .stored m => (2 * m.target.toNat + 1,5)
  | .upgraded => (10,0)
  | .vacuumed => (10,1)
  | .finish => (10,2)

/-- The results of the statements of one migration. -/
structure MigrationScript where
  opened : Bool := true
  begun : Bool := true
  created : Bool := true
  selected : Bool := true
  stepped : ℕ → Bool := fun _ => true
  updated : ℕ → Bool := fun _ => true
  committed : Bool := true
  rolledBack : Bool := true
  closed : Bool := true

/-- The results of the statements that store a version number. -/
structure VersionScript where
  opened : Bool := true
  begun : Bool := true
  deleted : Bool := true
  inserted : Bool := true
  committed : Bool := true
  closed : Bool := true

/-- How the version is read; a table or a row that is not delivered counts as version zero. -/
inductive VersionRead where
  | failed
  | undelivered
  | delivered
  deriving DecidableEq

/-- Everything a version check meets; a database that is not the primary one is vacuumed. -/
structure UpgradeScript where
  signal : Signal UpgradeMoment := {}
  integrity : Bool := true
  retrieved : VersionRead := .delivered
  migration : Migration → MigrationScript := fun _ => {}
  version : Migration → VersionScript := fun _ => {}
  primary : Bool := true
  vacuumed : Bool := true

section Functions

variable (c : Config) (u : UpgradeScript)

def dbRetrieveVersion (d : DatabaseFile) : Return × ℤ :=
  (leave (u.signal.halted .retrieved) (u.retrieved ≠ .failed),
    if u.retrieved = .delivered then d.version else 0)

section Migrate

variable (m : Migration)

def processRow (n : ℕ) (e : Entry RelativePath FileColumns) (s : UpgradeStore) : Return × UpgradeStore :=
  if (u.migration m).updated n then
    (leave (u.signal.halted (.updated m n)) true,
      s.write { s.working with files := s.working.files.update e.ident (m.columns e.value) })
  else (leave (u.signal.halted (.updated m n)) false,s)

/-- The loop over the selected rows; the flag tells whether the statement came to its end. -/
def processRows : ℕ → List (Entry RelativePath FileColumns) → UpgradeStore → Return × Bool × UpgradeStore
  | n, entries, s =>
    if (u.migration m).stepped n = false then (successStatus,false,s)
    else
      match entries with
      | [] => (successStatus,true,s)
      | e :: rest =>
        if u.signal.raised (.row m n) then (successStatus,false,s)
        else
          let r := processRow u m n e s
          if r.1 = successStatus then processRows (n + 1) rest r.2 else (r.1,false,r.2)

def processDatabase (s : UpgradeStore) : Return × UpgradeStore :=
  let halted := u.signal.halted (.processed m)
  if (u.migration m).selected then
    let r := processRows u m 0 s.working.files.rows s
    if r.1 = successStatus then
      (leave halted (u.signal.raised (.drained m) || r.2.1),r.2.2)
    else (provide (globalReturnStatus halted) r.1,r.2.2)
  else (leave halted false,s)

def migrateRows (s : UpgradeStore) : Return × UpgradeStore :=
  if m = .from0To1 ∧ (u.migration m).created = false then (failureStatus,s)
  else processDatabase u m (s.write { s.working with metadata := m.metadata s.working.metadata })

/-- The end of the transaction: an interrupt or a failure takes it back. -/
def endMigration (r : Return × UpgradeStore) : Return × UpgradeStore :=
  let script := u.migration m
  if u.signal.raised (.ended m) then
    if script.rolledBack then (if r.1 = successStatus then warningStatus else r.1,r.2.rollback)
    else (failureStatus,r.2.rollback)
  else if r.1 ≠ successStatus then
    (if script.rolledBack then r.1 else failureStatus,r.2.rollback)
  else if script.committed then (successStatus,(r.2.note (.migrated m)).commit)
  else (failureStatus,r.2.rollback)

def migrate (s : UpgradeStore) : Return × UpgradeStore :=
  let script := u.migration m
  let global := globalReturnStatus (u.signal.halted (.migrated m))
  if c.dryRun then (leave (u.signal.halted (.migrated m)) true,s)
  else
    let r := if script.opened && script.begun then endMigration u m (migrateRows u m s.begin)
      else (failureStatus,s)
    (provide global (call global r.1 (leave (u.signal.halted (.migrated m)) script.closed)),r.2)

/-- `DELETE` and `INSERT` in the metadata table; without the table they fail. -/
def dbSpecifyVersion (s : UpgradeStore) : Return × UpgradeStore :=
  let script := u.version m
  let halted := u.signal.halted (.stored m)
  let global := globalReturnStatus halted
  if u.signal.raised (.store m) || c.dryRun then (leave halted true,s)
  else
    let r : Bool × UpgradeStore :=
      if script.opened && script.begun && script.deleted && s.working.metadata.isSome &&
          script.inserted && script.committed then
        (true,((s.begin.write { s.working with metadata := some [m.target] }).note (.stored m.target)).commit)
      else (false,s)
    (provide global (call global (outcome r.1 false) (leave halted script.closed)),r.2)

/-- One link of the chain: the rows first, then the version number. -/
def upgradeStep (s : UpgradeStore) : Return × UpgradeStore :=
  let r := migrate c u m s
  if r.1 = successStatus then dbSpecifyVersion c u m r.2 else r

end Migrate

def dbMigrateFrom0To1 (s : UpgradeStore) : Return × UpgradeStore := migrate c u .from0To1 s

def dbMigrateToVersion4 (s : UpgradeStore) : Return × UpgradeStore := migrate c u .toVersion4 s

def dbUpgrade (version : ℤ) (s : UpgradeStore) : Return × UpgradeStore :=
  let global := globalReturnStatus (u.signal.halted .upgraded)
  if c.update = false then (provide global warningStatus,s)
  else
    let r := if version < 1 then upgradeStep c u .from0To1 s else (successStatus,s)
    let version := if version < 1 ∧ r.1 = successStatus then 1 else version
    let r := if r.1 = successStatus ∧ version < 4 then upgradeStep c u .toVersion4 r.2 else r
    (provide global r.1,r.2)

def dbCheckVersion (s : UpgradeStore) : Return × UpgradeStore :=
  let global := globalReturnStatus (u.signal.halted .finish)
  if u.signal.raised .enter then (leave (u.signal.halted .finish) true,s)
  else
    let retrieved := dbRetrieveVersion u s.working
    if retrieved.1 = successStatus then
      if retrieved.2 < currentDbVersion then
        let r := dbUpgrade c u retrieved.2 s
        if r.1 = successStatus ∧ u.primary = false then
          (provide global (leave (u.signal.halted .vacuumed) u.vacuumed),r.2)
        else (provide global r.1,r.2)
      else if currentDbVersion < retrieved.2 then (provide global warningStatus,s)
      else (provide global successStatus,s)
    else (provide global retrieved.1,s)

/-- The check of the file itself comes first. -/
def dbIntegrityCheck (s : UpgradeStore) : Return × UpgradeStore :=
  if u.integrity then
    let r := dbCheckVersion c u s
    (provide (globalReturnStatus (u.signal.halted .finish)) r.1,r.2)
  else (leave (u.signal.halted .finish) false,s)

end Functions

end Precizer.Database
