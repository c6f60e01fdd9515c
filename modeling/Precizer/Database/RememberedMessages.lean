import Precizer.Traversal.FileState
import Precizer.Logger.FullOutput

/-! # Remembered messages

Messages to be repeated at exit are rows of a TEMP table. The table is written through
the connection whose transactions the traversal and the cleanup open and close, so every
statement of that connection is a step of the history as well. The final report prints the rows
through the logger again.
-/
namespace Precizer.Database
open General Traversal Logger

/-- The bytes of one formatted log line. -/
abbrev Message := List UInt8

/-- The rows of `temp.remember_history` in the order of their identifiers. -/
abbrev HistoryStore := Store (List Message) Unit

def lineEnd : UInt8 := 10

def endsLine (m : Message) : Bool := m.getLast? = some lineEnd

/-- The results of one remembering: the lookup of the last row and the write. -/
structure RememberScript where
  lookup : Bool := true
  write : SqlOutcome := .done
  deriving DecidableEq

/-- The last row is continued when it was found and does not end with a newline. -/
def appendToLast (lookup : Bool) (rows : List Message) : Bool :=
  match rows.getLast? with
  | none => false
  | some text => lookup && !text.isEmpty && !endsLine text

def rememberedRows (lookup : Bool) (m : Message) (rows : List Message) : List Message :=
  if appendToLast lookup rows then rows.dropLast ++ [rows.getLast?.getD [] ++ m] else rows ++ [m]

/-- The output options the history depends on. -/
structure ReplayConfig where
  outputFull : Bool
  showRememberedMessagesAtExit : Bool

def rationalRemember (c : ReplayConfig) (script : RememberScript) (m : Message) (s : HistoryStore) :
    HistoryStore :=
  if m.isEmpty || !c.outputFull then s
  else match script.write with
    | .done => s.write (rememberedRows script.lookup m s.working)
    | .failed => s
    | .rolledBack => s.rollback

/-- One operation on the connection: a message, a transaction statement, or any other
statement, whose error may roll the transaction back. -/
inductive HistoryStep where
  | remember (m : Message) (script : RememberScript)
  | begin (ok : Bool)
  | commit (o : SqlOutcome)
  | rollback (ok : Bool)
  | statement (o : SqlOutcome)
  deriving DecidableEq

def historyStep (c : ReplayConfig) (s : HistoryStore) : HistoryStep → HistoryStore
  | .remember m script => rationalRemember c script m s
  | .begin ok => if s.autocommit && ok then s.begin else s
  | .commit o =>
    if s.autocommit then s
    else match o with
      | .done => s.commit
      | .failed => s
      | .rolledBack => s.rollback
  | .rollback ok => if s.autocommit || !ok then s else s.rollback
  | .statement o => if o = .rolledBack then s.rollback else s

/-- The history of a connection from the creation of the table on. -/
def historyRun (c : ReplayConfig) (steps : List HistoryStep) : HistoryStore :=
  steps.foldl (historyStep c) (Store.opened [] [])

def HistoryStep.message? : HistoryStep → Option Message
  | .remember m _ => some m
  | _ => none

/-- Every message logged with `REMEMBER`, in logging order. -/
def loggedMessages (steps : List HistoryStep) : List Message :=
  (steps.filterMap HistoryStep.message?).filter fun m => !m.isEmpty

/-- One replayed message; the missing newline is added. -/
def replayed (text : Message) : Message := if endsLine text then text else text ++ [lineEnd]

/-- The logger the final report is printed with, and the data of its call sites. -/
structure ReportLogger where
  loggerMode : LogModes
  memory : LineMemory
  stylesEnabled : Bool
  callback : Bool
  timeString : List Byte
  filename : List Byte
  lineNumber : List Byte
  funcname : List Byte

def ReportLogger.slog (r : ReportLogger) (level : LogModes) (payload : List Byte) : List Byte :=
  (rationalLogger r.loggerMode r.memory r.stylesEnabled r.callback
    ⟨level,r.timeString,r.filename,r.lineNumber,r.funcname,some payload⟩).terminal

def ReportLogger.header (r : ReportLogger) : List Byte :=
  r.slog everyLevel (marker "bold" ++ ascii "Warnings and errors encountered:" ++ marker "reset" ++ [lineEnd])

/-- `%.*s` with the length of the row; a null byte ends it. -/
def ReportLogger.row (r : ReportLogger) (text : Message) : List Byte :=
  r.slog everyUndecorLevel (text.takeWhile (· ≠ 0) ++ if endsLine text then [] else [lineEnd])

/-- The results of the final query: whether it could be prepared, and the rows it delivers
before it fails, if it does. -/
structure ShowScript where
  opened : Bool := true
  prepared : Bool := true
  rowsRead : Option ℕ := none

/-- The final query is prepared and delivers every row. -/
def ShowScript.Complete (script : ShowScript) : Prop :=
  script.opened = true ∧ script.prepared = true ∧ script.rowsRead = none

/-- What is printed about the rows the query delivered: nothing, or a header and the rows. -/
def replayRows (r : ReportLogger) (rows : List Message) : List (List Byte) :=
  if rows = [] then [] else r.header :: (rows.filter fun text => !text.isEmpty).map r.row

/-- What the final report prints, call by call; a failing query ends it. -/
def showRememberedMessages (c : ReplayConfig) (r : ReportLogger) (script : ShowScript) (rows : List Message) :
    Bool × List (List Byte) :=
  if !c.outputFull || !c.showRememberedMessagesAtExit then (true,[])
  else if !script.opened then (true,[])
  else if !script.prepared then (false,[])
  else match script.rowsRead with
    | none => (true,replayRows r rows)
    | some n => (false,replayRows r (rows.take n))

/-- The messages as they are meant: a part without a newline is continued by the next. -/
def joinParts : List Message → List Message
  | [] => []
  | m :: rest =>
    if endsLine m then m :: joinParts rest
    else match joinParts rest with
      | [] => [m]
      | joined :: others => (m ++ joined) :: others

theorem endsLine_append {m m' : Message} (h : m' ≠ []) : endsLine (m ++ m') = endsLine m' := by
  rw [endsLine,endsLine,List.getLast?_append_of_ne_nil _ h]

theorem rememberedRows_cons (lookup : Bool) (m x y : Message) (ys : List Message) :
    rememberedRows lookup m (x :: y :: ys) = x :: rememberedRows lookup m (y :: ys) := by
  unfold rememberedRows
  have hsame : appendToLast lookup (x :: y :: ys) = appendToLast lookup (y :: ys) := by
    simp only [appendToLast,List.getLast?_cons_cons]
  rw [hsame]
  cases appendToLast lookup (y :: ys) with
  | true => simp only [↓reduceIte,List.getLast?_cons_cons,List.dropLast_cons_cons,List.cons_append]
  | false => rfl

theorem rememberedRows_single {m y : Message} (hy : y ≠ []) :
    rememberedRows true m [y] = if endsLine y then [y,m] else [y ++ m] := by
  cases hline : endsLine y with
  | true => simp [rememberedRows,appendToLast,hline]
  | false => simp [rememberedRows,appendToLast,hline,hy]

theorem joinParts_nonempty {ms : List Message} (hms : ∀ x ∈ ms, x ≠ []) : ∀ x ∈ joinParts ms, x ≠ [] := by
  induction ms with
  | nil => simp [joinParts]
  | cons x ms ih =>
    have hx : x ≠ [] := hms x List.mem_cons_self
    have hparts := ih (fun y hy => hms y (List.mem_cons_of_mem _ hy))
    rw [joinParts]
    split
    · intro y hy
      rcases List.mem_cons.mp hy with rfl | hy
      · exact hx
      · exact hparts y hy
    · cases hjoined : joinParts ms with
      | nil => simpa using hx
      | cons y ys =>
        rw [hjoined] at hparts
        intro w hw
        rcases List.mem_cons.mp hw with rfl | hw
        · simp [hx]
        · exact hparts w (List.mem_cons_of_mem _ hw)

/-- A further message continues the last joined one or stands for itself. -/
theorem joinParts_concat (ms : List Message) (m : Message) (hms : ∀ x ∈ ms, x ≠ []) :
    joinParts (ms ++ [m]) = rememberedRows true m (joinParts ms) := by
  have hone : joinParts [m] = [m] := by
    rw [joinParts]
    split <;> rfl
  induction ms with
  | nil => exact hone
  | cons x ms ih =>
    have hx : x ≠ [] := hms x List.mem_cons_self
    have htail : ∀ y ∈ ms, y ≠ [] := fun y hy => hms y (List.mem_cons_of_mem _ hy)
    have hparts := joinParts_nonempty htail
    rw [List.cons_append,joinParts,joinParts,ih htail]
    cases hline : endsLine x with
    | true =>
      simp only [↓reduceIte]
      cases hjoined : joinParts ms with
      | nil => rw [rememberedRows_single hx,if_pos hline]; rfl
      | cons y ys => rw [rememberedRows_cons]
    | false =>
      simp only [Bool.false_eq_true,↓reduceIte]
      cases hjoined : joinParts ms with
      | nil =>
        have hrest : rememberedRows true m [] = [m] := rfl
        rw [hrest]
        dsimp only
        rw [rememberedRows_single hx,hline]
        rfl
      | cons y ys =>
        rw [hjoined] at hparts
        have hy : y ≠ [] := hparts y List.mem_cons_self
        have hxy : x ++ y ≠ [] := by simp [hx]
        cases ys with
        | nil =>
          dsimp only
          rw [rememberedRows_single hy,rememberedRows_single hxy,endsLine_append hy]
          cases endsLine y with
          | true => rfl
          | false => simp [List.append_assoc]
        | cons z zs =>
          rw [rememberedRows_cons]
          dsimp only
          rw [rememberedRows_cons]

end Precizer.Database
