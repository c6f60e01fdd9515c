import Mathlib.Data.List.DropRight
import Mathlib.Tactic

/-! # The reader of settings files

The bundled parser reads a stream line by line and calls a handler for every section and every
value. An indented line is one more value of the preceding name, `#` starts a comment at the
start of a line or after a space, and the first error ends the reading. Lines are read into a
fixed array, so that a line which does not fit is cut, and counts as an error once more of it
follows.
-/
namespace Precizer.Settings

abbrev Text := List UInt8

scoped instance lawfulText : LawfulBEq Text := inferInstance

def newline : UInt8 := 10

def numberSign : UInt8 := 35

def openBracket : UInt8 := 91

def closeBracket : UInt8 := 93

def equalsSign : UInt8 := 61

def colon : UInt8 := 58

/-- `isspace` in the C locale. -/
def isSpace (c : UInt8) : Bool := c = 32 || (9 ≤ c && c ≤ 13)

/-- The bytes of an open file, and whether reading fails after them. -/
structure Stream where
  bytes : Text
  failing : Bool := false

/-- At most `room` bytes, the first newline the last of them, and the bytes that stay. -/
def readLine : ℕ → Text → Text × Text
  | 0, bytes => ([],bytes)
  | _ + 1, [] => ([],[])
  | room + 1, c :: bytes => if c = newline then ([c],bytes) else (c :: (readLine room bytes).1,(readLine room bytes).2)

def interrupted (size : ℕ) (stream : Stream) : Bool :=
  stream.failing && (readLine (size - 1) stream.bytes).1.length < size - 1 &&
    (readLine (size - 1) stream.bytes).1.getLast? ≠ some newline

/-- `fgets`, with what it stored before the terminator. -/
def fgets (size : ℕ) (stream : Stream) : Option (Text × Stream) :=
  if stream.bytes = [] || interrupted size stream then none
  else some ((readLine (size - 1) stream.bytes).1,{ stream with bytes := (readLine (size - 1) stream.bytes).2 })

/-- What string functions see of stored bytes. -/
def cString (bytes : Text) : Text := bytes.takeWhile (· ≠ 0)

def iniRstrip (s : Text) : Text := s.rdropWhile isSpace

def iniLskip (s : Text) : Text := s.dropWhile isSpace

/-- The text before one of `chars`, or before an inline comment, and the text from there. -/
def iniFindCharsOrComment (chars : Text) (wasSpace : Bool) : Text → Text × Text
  | [] => ([],[])
  | c :: s =>
    if c ∈ chars ∨ (wasSpace = true ∧ c = numberSign) then ([],c :: s)
    else (c :: (iniFindCharsOrComment chars (isSpace c) s).1,(iniFindCharsOrComment chars (isSpace c) s).2)

def iniMaxLine : ℕ := 4096

def iniMaxSection : ℕ := 50

def iniMaxName : ℕ := 50

def iniStrncpy0 (size : ℕ) (source : Text) : Text := source.take (size - 1)

def abyssSize : ℕ := 16

/-- The mark that may precede the first line. -/
def byteOrderMark : Text := [0xEF,0xBB,0xBF]

/-- What the handler is called with: no entry stands for a new section. -/
structure Call where
  sectionName : Text
  entry : Option (Text × Text)
  lineno : ℕ
  deriving DecidableEq

/-- The variables of the parser that outlive a line, and whether a read of the stream failed. Lines
are counted without a bound; the source has an `int`, which `2 ^ 31` lines overflow. -/
structure Parser where
  sectionName : Text := []
  prevName : Text := []
  lineno : ℕ := 0
  error : ℕ := 0
  readFailed : Bool := false
  deriving DecidableEq

abbrev Handler (σ : Type*) := σ → Call → σ × Bool

/-- What a line asks for: nothing, an error, or a call of the handler. -/
inductive Line where
  | nothing
  | invalid
  | entry (e : Option (Text × Text))
  deriving DecidableEq

variable {σ : Type*}

/-- Only the first error is remembered. -/
def Parser.failed (p : Parser) : Parser := if p.error = 0 then { p with error := p.lineno } else p

def Parser.call (p : Parser) (e : Option (Text × Text)) : Call := ⟨p.sectionName,e,p.lineno⟩

/-- The line is settled: the handler may refuse its call. -/
def Parser.handled (handler : Handler σ) (user : σ) (p : Parser) : Line → Parser × σ
  | .nothing => (p,user)
  | .invalid => (p.failed,user)
  | .entry e => (if (handler user (p.call e)).2 then p else p.failed,(handler user (p.call e)).1)

def unmarked (p : Parser) (line : Text) : Text :=
  if p.lineno = 1 ∧ byteOrderMark <+: line then line.drop byteOrderMark.length else line

/-- `[section]` -/
def iniParseSection (p : Parser) (start : Text) : Parser × Line :=
  match iniFindCharsOrComment [closeBracket] false start.tail with
  | (name,c :: _) =>
    if c = closeBracket then ({ p with sectionName := iniStrncpy0 iniMaxSection name, prevName := [] },.entry none)
    else (p,.invalid)
  | (_,[]) => (p,.invalid)

/-- The value of a name is what stands before a comment, without the spaces around. -/
def iniValue (text : Text) : Text := iniRstrip (iniLskip (iniFindCharsOrComment [] false text).1)

/-- `name = value` -/
def iniParsePair (p : Parser) (start : Text) : Parser × Line :=
  match iniFindCharsOrComment [equalsSign,colon] false start with
  | (name,c :: rest) =>
    if c = equalsSign ∨ c = colon then
      ({ p with prevName := iniStrncpy0 iniMaxName (iniRstrip name) },.entry (some (iniRstrip name,iniValue rest)))
    else (p,.invalid)
  | (_,[]) => (p,.invalid)

/-- One line, as far as it fitted. -/
def iniParseLine (p : Parser) (line : Text) : Parser × Line :=
  let skipped := iniLskip (unmarked p line)
  let start := iniRstrip skipped
  if start = [] ∨ start.head? = some numberSign then (p,.nothing)
  else if p.prevName ≠ [] ∧ skipped.length < line.length then
    (p,.entry (some (p.prevName,iniRstrip (iniFindCharsOrComment [] false start).1)))
  else if start.head? = some openBracket then iniParseSection p start
  else iniParsePair p start

theorem readLine_append (room : ℕ) (bytes : Text) : (readLine room bytes).1 ++ (readLine room bytes).2 = bytes := by
  fun_induction readLine room bytes with
  | case1 => rfl
  | case2 => rfl
  | case3 => rfl
  | case4 room c bytes _ ih => rw [List.cons_append,ih]

theorem length_readLine_le (room : ℕ) (bytes : Text) : (readLine room bytes).1.length ≤ room := by
  fun_induction readLine room bytes with
  | case1 => exact le_rfl
  | case2 => exact Nat.zero_le _
  | case3 => exact Nat.succ_le_succ (Nat.zero_le _)
  | case4 room c bytes _ ih => exact Nat.succ_le_succ ih

theorem readLine_ne_nil {room : ℕ} (hroom : 0 < room) {bytes : Text} (h : bytes ≠ []) : (readLine room bytes).1 ≠ [] := by
  fun_cases readLine room bytes with
  | case1 => exact absurd hroom (Nat.lt_irrefl 0)
  | case2 => exact absurd rfl h
  | case3 => exact List.cons_ne_nil _ _
  | case4 => exact List.cons_ne_nil _ _

theorem fgets_shorter {size : ℕ} (hsize : 1 < size) {stream rest : Stream} {read : Text}
    (h : fgets size stream = some (read,rest)) : rest.bytes.length < stream.bytes.length := by
  unfold fgets at h
  split at h
  · cases h
  · rename_i hread
    cases h
    have hne : stream.bytes ≠ [] := by
      intro hnil
      simp [hnil] at hread
    have hpositive := List.length_pos_of_ne_nil (readLine_ne_nil (Nat.sub_pos_of_lt hsize) hne)
    have hlength := congrArg List.length (readLine_append (size - 1) stream.bytes)
    rw [List.length_append] at hlength
    dsimp only
    omega

/-- The rest of a line that did not fit is read away; the line is an error once something is. -/
def iniDiscard (p : Parser) (stream : Stream) : Parser × Stream :=
  match _h : fgets abyssSize stream with
  | none => ({ p with readFailed := stream.failing },stream)
  | some (abyss,rest) =>
    if (cString abyss).getLast? = some newline then (p.failed,rest) else iniDiscard p.failed rest
termination_by stream.bytes.length
decreasing_by exact fgets_shorter (by decide) _h

theorem iniDiscard_shorter (p : Parser) (stream : Stream) : (iniDiscard p stream).2.bytes.length ≤ stream.bytes.length := by
  fun_induction iniDiscard p stream with
  | case1 => exact le_rfl
  | case2 p stream abyss rest h _ => exact (fgets_shorter (by decide) h).le
  | case3 p stream abyss rest h _ ih => exact ih.trans (fgets_shorter (by decide) h).le

/-- The array was filled, and no newline was its last character. -/
def overlong (line : Text) : Bool := line.length = iniMaxLine - 1 && line.getLast? ≠ some newline

/-- What a line that was read leaves to parse: the parser that knows its number, and the stream after it. -/
def iniNextLine (p : Parser) (line : Text) (rest : Stream) : Parser × Stream :=
  if overlong line then iniDiscard { p with lineno := p.lineno + 1 } rest else ({ p with lineno := p.lineno + 1 },rest)

theorem iniNextLine_shorter (p : Parser) (line : Text) (rest : Stream) :
    (iniNextLine p line rest).2.bytes.length ≤ rest.bytes.length := by
  unfold iniNextLine
  split
  · exact iniDiscard_shorter _ rest
  · exact le_rfl

/-- `ini_parse_stream`; the answer is the error of the parser. -/
def iniParseStream (handler : Handler σ) (p : Parser) (user : σ) (stream : Stream) : Parser × σ :=
  match _h : fgets iniMaxLine stream with
  | none => ({ p with readFailed := stream.failing },user)
  | some (read,rest) =>
    let next := iniNextLine p (cString read) rest
    let parsed := iniParseLine next.1 (cString read)
    let handled := parsed.1.handled handler user parsed.2
    if handled.1.error ≠ 0 then handled else iniParseStream handler handled.1 handled.2 next.2
termination_by stream.bytes.length
decreasing_by exact (iniNextLine_shorter _ _ _).trans_lt (fgets_shorter (by decide) _h)

def iniParseFile (handler : Handler σ) (user : σ) (file : Stream) : Parser × σ := iniParseStream handler {} user file

end Precizer.Settings
