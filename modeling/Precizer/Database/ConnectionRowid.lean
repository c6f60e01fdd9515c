import Precizer.Database.FileTransaction
import Precizer.Database.RememberedMessages

/-! # The identifier of an inserted row

The identifier of a new row is what the connection reports as its last insert. The
connection inserts remembered messages into another table as well, but none between the
statement that inserts a row and the question for its identifier.
-/
namespace Precizer.Database
open General Rational Traversal

/-- The connection: the session, the remembered messages, and the identifier of the last row it
inserted into any table. -/
structure Connection where
  session : Session
  messages : List Message
  lastInsertRowid : ℕ

namespace Connection

/-- A message is inserted, or appended to the last one. -/
def remember (lookup : Bool) (m : Message) (k : Connection) : Connection where
  session := k.session
  messages := rememberedRows lookup m k.messages
  lastInsertRowid := if appendToLast lookup k.messages then k.lastInsertRowid else k.messages.length + 1

@[simp] theorem remember_session (lookup : Bool) (m : Message) (k : Connection) :
    (k.remember lookup m).session = k.session := rfl

def insertRecord (c : Config) (path : RelativePath) (o : SqlOutcome) (file : File) (k : Connection) :
    Bool × Connection :=
  let r := dbInsertTheRecord c path o file k.session
  (r.1,{ k with
    session := r.2
    lastInsertRowid := if r.1 && !c.dryRun then k.session.table.nextIdent else k.lastInsertRowid })

structure SaveResult where
  status : Return
  connection : Connection
  file : File
  pathKnown : Bool

def complain (errors : List (Bool × Message)) (k : Connection) : Connection :=
  errors.foldl (fun k e => k.remember e.1 e.2) k

@[simp] theorem complain_session (errors : List (Bool × Message)) (k : Connection) :
    (k.complain errors).session = k.session := by
  induction errors generalizing k with
  | nil => rfl
  | cons e rest ih => exact ih _

/-- `db_save_file_record` as it asks the connection; a statement that fails leaves messages. -/
def saveFileRecord (c : Config) (halted : Bool) (script : SaveScript) (errors : List (Bool × Message))
    (path : RelativePath) (file : File) (pathKnown mark : Bool) (k : Connection) : SaveResult :=
  if c.dryRun = true ∧ mark = false then ⟨leave halted true,k,file,pathKnown⟩
  else
    let begun := dbFileTransactionBegin c halted script k.session
    let k := { k with session := begun.2 }
    let status := call (globalReturnStatus halted) successStatus begun.1
    if status.failure then
      ⟨provide (globalReturnStatus halted) status,k.complain errors,file,pathKnown⟩
    else if pathKnown then
      let r := dbUpdateTheRecordById c path script.statement file k.session
      let k := { k with session := r.2 }
      if r.1 then ⟨leave halted true,k,markVisible mark file,true⟩
      else ⟨leave halted false,k.complain errors,file,true⟩
    else
      let r := k.insertRecord c path script.statement file
      if r.1 then
        let file := if c.dryRun then file else { file with db := { file.db with ID := r.2.lastInsertRowid } }
        ⟨leave halted true,r.2,markVisible mark file,!c.dryRun⟩
      else ⟨leave halted false,r.2.complain errors,file,false⟩

/-- Whatever was inserted before, the save takes the identifier of its own row. -/
theorem saveFileRecord_eq (c : Config) (halted : Bool) (script : SaveScript) (errors : List (Bool × Message))
    (path : RelativePath) (file : File) (pathKnown mark : Bool) (k : Connection) :
    let r := k.saveFileRecord c halted script errors path file pathKnown mark
    dbSaveFileRecord c halted script path file pathKnown mark k.session =
      ⟨r.status,r.connection.session,r.file,r.pathKnown⟩ := by
  unfold saveFileRecord dbSaveFileRecord
  split
  · rfl
  · dsimp only
    split
    · simp
    · split
      · cases hupdate : (dbUpdateTheRecordById c path script.statement file
            (dbFileTransactionBegin c halted script k.session).2).1 with
        | true => simp
        | false => simp
      · unfold insertRecord
        dsimp only
        cases hinsert : (dbInsertTheRecord c path script.statement file
            (dbFileTransactionBegin c halted script k.session).2).1 with
        | true =>
          cases hdry : c.dryRun with
          | true => simp
          | false => simp; rfl
        | false => simp

end Connection
end Precizer.Database
