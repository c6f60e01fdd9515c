import Precizer.Libmem.ResizeEffect

/-! # Formatted strings

A narrow text is measured before it is printed to the string. The size of a wide text cannot be
asked for: it is printed to buffers of twice the size each until one holds it, and the last
buffer is trimmed to the text.
-/
namespace Precizer.Libmem
open General

/-- What `vsnprintf` makes of a format and its arguments; a negative result is `none`. -/
abbrev NarrowFormat := Option (List UInt8)

/-- A `NULL` format is `none`. -/
def memFormattedStringChar (allocator : Allocator) (format : Option NarrowFormat) (s : State) : Answer :=
  if s.memory.isString = false then s.fail
  else
    match format with
    | none => s.fail
    | some rendered =>
      if s.memory.singleElementSize ≠ 1 then s.fail
      else
        match rendered with
        | none => s.succeed
        | some text =>
          (memResize allocator (text.length + 1) .plain s).run fun s =>
            State.succeed { s with memory := { s.memory.written 0 (text ++ [0]) with stringLength := text.length } }

/-- `sizeof(wchar_t)` -/
def sizeofWchar : ℕ := 4

/-- What `vswprintf` makes of a format and its arguments, as bytes of wide characters: the text, if
it can be converted, and what stays in a buffer that is too small for it. -/
structure WideFormat where
  rendered : Option (List UInt8)
  leftover : ℕ → List UInt8
  renderedWhole : ∀ text ∈ rendered, sizeofWchar ∣ text.length
  leftoverWhole : ∀ capacity, sizeofWchar ∣ (leftover capacity).length
  leftoverFits : ∀ capacity, (leftover capacity).length ≤ sizeofWchar * capacity

def WideFormat.fits (format : WideFormat) (capacity : ℕ) : Bool :=
  match format.rendered with
  | none => false
  | some text => text.length / sizeofWchar < capacity

/-- The result of `vswprintf` with a buffer of so many elements, and the bytes it writes. -/
def WideFormat.vswprintf (format : WideFormat) (capacity : ℕ) : Option ℕ × List UInt8 :=
  match format.rendered with
  | none => (none,format.leftover capacity)
  | some text =>
    if text.length / sizeofWchar < capacity then
      (some (text.length / sizeofWchar),text ++ zeroElement UInt8 sizeofWchar)
    else (none,format.leftover capacity)

/-- The loop over the buffers, with the doublings that are left. -/
def wideAttempts (allocator : Allocator) (format : WideFormat) (doublings guessedLength : ℕ) (s : State) :
    Option ℕ × Answer :=
  let resized := memResize allocator (guessedLength + 1) .plain s
  if resized.succeeded = false then (none,resized)
  else
    let printed := format.vswprintf (guessedLength + 1)
    let s : State := { resized.state with memory := resized.state.memory.written 0 printed.2 }
    match printed.1,doublings with
    | some rendered,_ => (some rendered,s.succeed)
    | none,0 => (none,s.fail)
    | none,doublings + 1 =>
      if sizeMax / 2 < guessedLength then (none,s.fail)
      else wideAttempts allocator format doublings (guessedLength * 2) s

/-- `max_doublings` -/
def maxDoublings : ℕ := 20

def memFormattedStringWchar (allocator : Allocator) (format : Option WideFormat) (s : State) : Answer :=
  if s.memory.isString = false then s.fail
  else
    match format with
    | none => s.fail
    | some format =>
      if s.memory.singleElementSize ≠ sizeofWchar then s.fail
      else
        let attempts := wideAttempts allocator format maxDoublings 128 s
        match attempts.1 with
        | none => attempts.2
        | some rendered =>
          memResize allocator (rendered + 1) .plain
            { attempts.2.state with memory := { attempts.2.state.memory with stringLength := rendered } }

end Precizer.Libmem
