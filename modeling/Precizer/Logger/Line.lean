import Precizer.Logger.Markup

/-! # One log line

A call assembles its line from the prefixes its mode asks for and the formatted payload. The
line is sanitized as a whole, its markup is replaced, and what results is written in one piece.
Failures to format, to allocate or to stay below the limit suppress the line.
-/
namespace Precizer.Logger

structure LogModes where
  regular : Bool := false
  verbose : Bool := false
  testing : Bool := false
  error : Bool := false
  silent : Bool := false
  undecor : Bool := false
  remember : Bool := false
  visibleInSilent : Bool := false
  machine : Bool := false
  deriving DecidableEq

/-- One call: where it stands, when it is made, and its payload as `printf` formats it, if it
can be formatted. -/
structure LogCall where
  level : LogModes
  timeString : List Byte
  filename : List Byte
  lineNumber : List Byte
  funcname : List Byte
  payload : Option (List Byte)

/-- Which allocations of a call succeed. -/
structure LineMemory where
  appended : Bool
  sanitized : Bool
  remembered : Bool
  replaced : Bool

/-- What a call hands to the callback and writes to the terminal. -/
structure LogOutput where
  remembered : Option (List Byte)
  terminal : List Byte
  deriving DecidableEq

def LogOutput.nothing : LogOutput := ⟨none,[]⟩

def loggerLineAppendVa (allocated : Bool) (line : List Byte) : Option (List Byte) → Option (List Byte)
  | none => none
  | some needed =>
    if intMax - line.length < needed.length then none
    else if allocated then some (line ++ needed) else none

/-- `%s %s:%03zu:%s:` -/
def LogCall.header (call : LogCall) : List Byte :=
  call.timeString ++ ascii " " ++ call.filename ++ ascii ":" ++ call.lineNumber ++ ascii ":" ++
    call.funcname ++ ascii ":"

/-- The payload is visible in a mode that is neither silent nor made for machines. -/
def payloadIsVisible (loggerMode level : LogModes) : Bool :=
  level.error && loggerMode.error || (level.regular || level.error) && loggerMode.regular ||
    (level.verbose || level.error) && loggerMode.verbose || (level.testing || level.error) && loggerMode.testing

def loggerLinePieces (loggerMode : LogModes) (call : LogCall) : List (Option (List Byte)) :=
  let level := call.level
  if loggerMode.silent then
    if level.visibleInSilent then [call.payload] else []
  else if loggerMode.machine then
    if level.machine || level.error then
      (if !level.undecor && level.error then [some (ascii "ERROR: ")] else []) ++ [call.payload]
    else []
  else
    (if !level.undecor && level.testing && loggerMode.testing then [some (ascii "TESTING:")] else []) ++
    (if !level.undecor && (level.verbose || level.error) && loggerMode.verbose then [some call.header] else []) ++
    (if !level.undecor && level.error && (loggerMode.regular || loggerMode.error) then [some (ascii "ERROR: ")]
      else if !level.undecor && level.error && (loggerMode.testing || loggerMode.verbose) then [some (ascii "ERROR:")]
      else []) ++
    (if payloadIsVisible loggerMode level then [call.payload] else [])

/-- The assembled line; an empty one stands for a missing buffer too. -/
def loggerLine (loggerMode : LogModes) (allocated : Bool) (call : LogCall) : Option (List Byte) :=
  (loggerLinePieces loggerMode call).foldlM (loggerLineAppendVa allocated) []

/-- What is delivered: an empty message is not passed to the callback. -/
def deliver (rememberIsRequested : Bool) (rememberLine line : List Byte) : LogOutput :=
  ⟨if rememberIsRequested && rememberLine ≠ [] then some rememberLine else none,line⟩

/-- The markup of a sanitized line; a plain copy is made for the callback of a colored one. -/
def writeLine (memory : LineMemory) (stylesEnabled rememberIsRequested : Bool) (text : List Byte) : LogOutput :=
  if ¬ [atSign,123] <:+: text then deliver rememberIsRequested text text
  else if rememberIsRequested && stylesEnabled then
    match if memory.remembered then rationalLoggerMarkupReplace memory.replaced false text else none with
    | none => .nothing
    | some plain =>
      match rationalLoggerMarkupReplace memory.replaced stylesEnabled text with
      | none => .nothing
      | some line => deliver rememberIsRequested plain line
  else
    match rationalLoggerMarkupReplace memory.replaced stylesEnabled text with
    | none => .nothing
    | some line => deliver rememberIsRequested line line

/-- `callback` says whether the program has a `REMEMBER` callback. -/
def rationalLogger (loggerMode : LogModes) (memory : LineMemory) (stylesEnabled callback : Bool)
    (call : LogCall) : LogOutput :=
  match loggerLine loggerMode memory.appended call with
  | none => .nothing
  | some line =>
    match loggerLineSanitizeForTerminal memory.sanitized line with
    | none => .nothing
    | some text => writeLine memory stylesEnabled (call.level.remember && callback) text

theorem loggerLineSanitizeForTerminal_some {allocated : Bool} {line text : List Byte}
    (h : loggerLineSanitizeForTerminal allocated line = some text) :
    text = sanitized line ∧ (sanitized line).length ≤ intMax := by
  unfold loggerLineSanitizeForTerminal at h
  rw [loggerLineSanitizeText_eq 0 line (Nat.zero_le _),Nat.zero_add] at h
  by_cases hroom : (sanitized line).length ≤ intMax
  · rw [if_pos hroom] at h
    dsimp only at h
    split_ifs at h with hsame hallocated
    · rw [(sanitized_length line).2 hsame] at hroom ⊢
      exact ⟨(Option.some.inj h).symm,hroom⟩
    · exact ⟨(Option.some.inj h).symm,hroom⟩
  · rw [if_neg hroom] at h
    cases h

/-- With memory the sanitized text is always available below the limit. -/
theorem loggerLineSanitizeForTerminal_available (line : List Byte) :
    loggerLineSanitizeForTerminal true line =
      if (sanitized line).length ≤ intMax then some (sanitized line) else none := by
  unfold loggerLineSanitizeForTerminal
  rw [loggerLineSanitizeText_eq 0 line (Nat.zero_le _),Nat.zero_add]
  by_cases hroom : (sanitized line).length ≤ intMax
  · rw [if_pos hroom]
    by_cases hsame : (sanitized line).length = line.length
    · simp only [(sanitized_length line).2 hsame,if_true]
    · simp only [if_neg hsame,if_true]
  · rw [if_neg hroom]

theorem styled_unopened {text : List Byte} (h : ¬ [atSign,123] <:+: text) (stylesEnabled : Bool) :
    styled stylesEnabled decorations text = text :=
  styled_without (fun rule hrule hwithin => h ((decorations_opening rule hrule).isInfix.trans hwithin)) stylesEnabled

theorem writeLine_terminal (memory : LineMemory) (stylesEnabled rememberIsRequested : Bool) (text : List Byte) :
    (writeLine memory stylesEnabled rememberIsRequested text).terminal = [] ∨
      (writeLine memory stylesEnabled rememberIsRequested text).terminal = styled stylesEnabled decorations text := by
  unfold writeLine
  split
  · rename_i hopen
    exact .inr (styled_unopened hopen stylesEnabled).symm
  · split
    · split
      · exact .inl rfl
      · split
        · exact .inl rfl
        · rename_i hline
          exact .inr (replaceDecorations_sound hline)
    · split
      · exact .inl rfl
      · rename_i hline
        exact .inr (replaceDecorations_sound hline)

/-- What is written is displayed: permitted characters and whole sequences of the table. -/
theorem rationalLogger_displayed (loggerMode : LogModes) (memory : LineMemory) (stylesEnabled callback : Bool)
    (call : LogCall) :
    Displayed (insertable stylesEnabled) (rationalLogger loggerMode memory stylesEnabled callback call).terminal := by
  have hnothing : Displayed (insertable stylesEnabled) [] := DisplayText.nil.displayed _
  unfold rationalLogger
  cases hline : loggerLine loggerMode memory.appended call with
  | none => exact hnothing
  | some line =>
    dsimp only
    cases htext : loggerLineSanitizeForTerminal memory.sanitized line with
    | none => exact hnothing
    | some text =>
      have hsanitized : Displayed (insertable stylesEnabled) text := by
        rw [(loggerLineSanitizeForTerminal_some htext).1]
        exact (sanitized_text line).displayed _
      rcases writeLine_terminal memory stylesEnabled (call.level.remember && callback) text with h | h
      · rw [h]
        exact hnothing
      · rw [h]
        exact styled_displayed stylesEnabled (List.Subset.refl _) hsanitized

end Precizer.Logger
