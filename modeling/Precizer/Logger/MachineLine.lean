import Precizer.Logger.Line
import Precizer.Traversal.FileDecision

/-! # Machine output

What `show_file` prints about a file in machine mode: the action, the details in brackets and
the path, in one log call or in several. Every call passes the whole logger.
-/
namespace Precizer.Logger
open General Traversal Database

/-- The texts of sizes, dates and error numbers. -/
structure Texts where
  bkbmbgbtbpbeb : ℕ → List Byte
  secondsToISOdate : BitVec 64 → List Byte
  strerror : ℕ → List Byte

/-- `%ld` -/
def decimal (n : BitVec 64) : List Byte := ascii (toString n.toInt)

def blocksToBytes (blocks : BitVec 64) : ℕ :=
  if blocks.toInt ≤ 0 then 0
  else if sizeMax / 512 < blocks.toNat then sizeMax
  else blocks.toNat * 512

inductive MetadataFlag where
  | sizeChanged
  | allocatedSizeChanged
  | statusChangedTime
  | modificationTimeChanged
  deriving DecidableEq

def Changed.has (changes : Changed) : MetadataFlag → Bool
  | .sizeChanged => changes.sizeChanged
  | .allocatedSizeChanged => changes.allocatedSizeChanged
  | .statusChangedTime => changes.statusChangedTime
  | .modificationTimeChanged => changes.modificationTimeChanged

def wasNow (was now : List Byte) : List (List Byte) := [ascii " was:" ++ was,ascii ", now:" ++ now]

/-- The log calls of `show_metadata`. -/
def showMetadata (t : Texts) (was now : CmpctStat) : MetadataFlag → List (List Byte)
  | .sizeChanged => wasNow (t.bkbmbgbtbpbeb was.stSize.toNat) (t.bkbmbgbtbpbeb now.stSize.toNat)
  | .allocatedSizeChanged =>
    if was.stBlocks = blkcntUnknown then []
    else wasNow (t.bkbmbgbtbpbeb (blocksToBytes was.stBlocks)) (t.bkbmbgbtbpbeb (blocksToBytes now.stBlocks))
  | .statusChangedTime =>
    wasNow (t.secondsToISOdate was.ctimTvSec ++ ascii "." ++ decimal was.ctimTvNsec)
      (t.secondsToISOdate now.ctimTvSec ++ ascii "." ++ decimal now.ctimTvNsec)
  | .modificationTimeChanged =>
    wasNow (t.secondsToISOdate was.mtimTvSec ++ ascii "." ++ decimal was.mtimTvNsec)
      (t.secondsToISOdate now.mtimTvSec ++ ascii "." ++ decimal now.mtimTvNsec)

def flags : List (MetadataFlag × String) :=
  [(.sizeChanged,"lsize"),(.allocatedSizeChanged,"asize"),(.statusChangedTime,"ctime"),
    (.modificationTimeChanged,"mtime")]

/-- The loop over the flags; `separator` is printed before the next one that is set. -/
def printFlags (t : Texts) (changes : Changed) (was now : CmpctStat) :
    List Byte → List (MetadataFlag × String) → List (List Byte)
  | _,[] => []
  | separator,(flag,name) :: rest =>
    if Changed.has changes flag then
      separator :: ascii name :: (showMetadata t was now flag ++ printFlags t changes was now (ascii " & ") rest)
    else printFlags t changes was now separator rest

/-- The log calls of `print_changes` in machine mode. -/
def printChanges (t : Texts) (verbose : Bool) (changes : Changed) (was now : CmpctStat) (hasDetails : Bool) :
    List (List Byte) :=
  if verbose then
    printFlags t changes was now (if hasDetails then ascii ", changed: " else ascii "changed: ") flags
  else []

/-- The calls before the one that prints the path, and what that one prints before the path. -/
structure MachineHead where
  fragments : List (List Byte)
  level : LogModes
  last : List Byte

def machineLevel : LogModes := { machine := true,undecor := true }

/-- `EVERY|MACHINE|UNDECOR` -/
def everyMachineLevel : LogModes :=
  { regular := true,verbose := true,testing := true,machine := true,undecor := true }

def actionText (color action : String) : List Byte := marker color ++ ascii action ++ marker "reset"

/-- Everything is printed by one call. -/
def inOneCall (color action : String) (details : List Byte) : MachineHead where
  fragments := []
  level := machineLevel
  last := actionText color action ++ ascii " [" ++ details ++ ascii "] "

/-- The details are followed by the changes, and the path is printed by a call of its own. -/
def withChanges (level : LogModes) (color action details : String) (changes : List (List Byte)) :
    MachineHead where
  fragments := (actionText color action ++ ascii " [" ++ ascii details) :: (changes ++ [ascii "]"])
  level := level
  last := ascii " "

/-- The machine output of each line of `show_file`. -/
def machineHead (t : Texts) (verbose : Bool) (was now : CmpctStat) : FileLabel → MachineHead
  | .ignoredNotAdded => inOneCall "gray" "ignored" (ascii "not added")
  | .ignoredNotUpdated => inOneCall "gray" "ignored" (ascii "not updated")
  | .readError errno => inOneCall "red" "error" (ascii "read error: " ++ t.strerror errno)
  | .inaccessible => inOneCall "orange" "inaccessible" (ascii "file")
  | .addedAsIncluded => inOneCall "boldgreen" "added" (ascii "as included")
  | .lockedChecksum => inOneCall "green" "locked" (ascii "checksum")
  | .addedAsEmpty => inOneCall "green" "added" (ascii "as empty")
  | .added => inOneCall "green" "added" (ascii "as new")
  | .lockedChecksumMismatch =>
    inOneCall "red" "critical" (ascii "locked checksum mismatch, data corrupted")
  | .lockedChecksumViolation changes =>
    withChanges { everyMachineLevel with remember := true } "red" "critical"
      "locked checksum, data corruption detected" (printChanges t verbose changes was now true)
  | .updatedAsIncluded changes =>
    withChanges machineLevel "boldgreen" "updated" "as included" (printChanges t verbose changes was now true)
  | .updatedAsEmpty changes =>
    withChanges everyMachineLevel "blue" "updated" "as empty" (printChanges t verbose changes was now true)
  | .rehashedFromTheBeginning changes =>
    withChanges everyMachineLevel "yellow" "rehashed" "from the beginning"
      (printChanges t verbose changes was now true)
  | .rehashResumed offset => inOneCall "yellow" "resumed" (ascii "hashing from " ++ t.bkbmbgbtbpbeb offset)
  | .lockedChecksumMatched changes =>
    withChanges everyMachineLevel "yellow" "rehashed" "locked checksum matched"
      (printChanges t verbose changes was now true)
  | .rehashed changes =>
    withChanges everyMachineLevel "yellow" "rehashed" ""
      (if verbose && flags.any (fun flag => Changed.has changes flag.1) then
        printChanges t verbose changes was now false
      else [ascii "file"])
  | .updatedMetadata changes =>
    withChanges everyMachineLevel "blue" "updated" "metadata" (printChanges t verbose changes was now true)
  | .hashingInterrupted offset =>
    inOneCall "orange" "interrupted" (ascii "hashing at " ++ t.bkbmbgbtbpbeb offset)

def machineMode : LogModes := { machine := true }

def LineMemory.available : LineMemory := ⟨true,true,true,true⟩

def slog (stylesEnabled callback : Bool) (level : LogModes) (payload : List Byte) : List Byte :=
  (rationalLogger machineMode .available stylesEnabled callback ⟨level,[],[],[],[],some payload⟩).terminal

def newline : Byte := 10

def MachineHead.print (head : MachineHead) (stylesEnabled callback : Bool) (path : RelativePath) : List Byte :=
  head.fragments.flatMap (slog stylesEnabled callback machineLevel) ++
    slog stylesEnabled callback head.level (head.last ++ path ++ [newline])

/-- The text `show_file` prints in machine mode. -/
def showFileText (t : Texts) (verbose stylesEnabled callback : Bool) (c : Config) (file : File)
    (path : RelativePath) : List Byte :=
  (showFile c file).flatMap fun label =>
    (machineHead t verbose file.db.savedStat file.stat label).print stylesEnabled callback path

end Precizer.Logger
