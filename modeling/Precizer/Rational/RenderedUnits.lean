import Precizer.General.Blocks
import Precizer.General.UnitTexts
import Precizer.Logger.Markup

/-! # Durations and sizes

`form_date_r` and `bkbmbgbtbpbeb_r` split a number into units and append the counts that are not
zero to a buffer. They differ in their units, in the type they compute with and in what they do
with a buffer that is too small.
-/
namespace Precizer.Rational
open General Logger

inductive ByteFormat
  | fullView
  | majorView
  deriving DecidableEq

/-- A result of the type `long long`; without one the operation overflows. -/
def longLong (value : ℤ) : Option ℤ := if -2 ^ 63 ≤ value ∧ value < 2 ^ 63 then some value else none

/-- A result of the type `size_t`; without one the operation wraps. -/
def sizeT (value : ℤ) : Option ℤ := if 0 ≤ value ∧ value < 2 ^ 64 then some value else none

/-- What is left of the number after the products of the units so far. -/
def minusAll (fits : ℤ → Option ℤ) (total : ℤ) (products : List ℤ) : Option ℤ :=
  products.foldlM (fun rest product => fits (rest - product)) total

/-- The counts of units of the given sizes and, last, what is left. -/
def splitChecked (fits : ℤ → Option ℤ) (total : ℤ) : List ℤ → List ℤ → Option (List ℤ)
  | [],products => (minusAll fits total products).map fun rest => [rest]
  | size :: sizes,products =>
    (minusAll fits total products).bind fun rest =>
      let count := rest.tdiv size
      (fits (count * size)).bind fun product =>
        (splitChecked fits total sizes (products ++ [product])).map fun counts => count :: counts

def durationUnits : List TextUnit :=
  [⟨ascii "y",31536000000000000⟩,⟨ascii "mon",2628000000000000⟩,⟨ascii "w",604800000000000⟩,⟨ascii "d",86400000000000⟩,
    ⟨ascii "h",3600000000000⟩,⟨ascii "min",60000000000⟩,⟨ascii "s",1000000000⟩,⟨ascii "ms",1000000⟩,
    ⟨[206,188,115],1000⟩,⟨ascii "ns",1⟩]

def byteUnits : List TextUnit :=
  [⟨ascii "EiB",1024 ^ 6⟩,⟨ascii "PiB",1024 ^ 5⟩,⟨ascii "TiB",1024 ^ 4⟩,⟨ascii "GiB",1024 ^ 3⟩,⟨ascii "MiB",1024 ^ 2⟩,
    ⟨ascii "KiB",1024⟩,⟨ascii "B",1⟩]

def divisors (units : List TextUnit) : List ℤ := units.dropLast.map fun unit => (unit.size : ℤ)

/-- The fields of the `Date`, from the years down. -/
def asadate (nanoseconds : ℤ) : Option (List ℤ) := splitChecked longLong nanoseconds (divisors durationUnits) []

/-- The fields of the `Byte`, from the exbibytes down. -/
def tobyte (bytes : ℤ) : Option (List ℤ) := splitChecked sizeT bytes (divisors byteUnits) []

/-- `snprintf` to an offset: what fits of the text, and the terminator. -/
def snprintf (buffer : List UInt8) (offset size : ℕ) (text : List UInt8) : Option (List UInt8) :=
  if size = 0 then some buffer else write? buffer offset (text.take (size - 1) ++ [0])

/-- The buffer and the part of it in use. -/
structure Filled where
  buffer : List UInt8
  usedLen : ℕ
  deriving DecidableEq

/-- The terminator instead of a space. -/
def hideSpace (buffer : List UInt8) (position : ℕ) : Option (List UInt8) :=
  match buffer[position]? with
  | none => none
  | some byte => if byte = 32 then write? buffer position [0] else some buffer

def catdateR (state : Filled) (number : ℤ) (suffix : List UInt8) : Option Filled :=
  if number ≤ 0 ∨ state.buffer.length ≤ state.usedLen then some state
  else
    let text := decimalText number.toNat ++ suffix ++ [32]
    let size := state.buffer.length - state.usedLen
    (snprintf state.buffer state.usedLen size text).bind fun buffer =>
      if size ≤ text.length then
        (write? buffer (buffer.length - 1) [0]).map fun buffer => ⟨buffer,buffer.length - 1⟩
      else some ⟨buffer,state.usedLen + text.length⟩

/-- A full buffer is in use to its end, and a space before its terminator is hidden at once. -/
def catbyteR (state : Filled) (bytes : ℤ) (suffix : List UInt8) : Option Filled :=
  if bytes = 0 ∨ state.buffer.length ≤ state.usedLen then some state
  else
    let text := decimalText bytes.toNat ++ suffix ++ [32]
    let size := state.buffer.length - state.usedLen
    (snprintf state.buffer state.usedLen size text).bind fun buffer =>
      if size ≤ text.length then
        (write? buffer (buffer.length - 1) [0]).bind fun buffer =>
          (if 1 < buffer.length then hideSpace buffer (buffer.length - 2) else some buffer).map fun buffer =>
            ⟨buffer,buffer.length⟩
      else some ⟨buffer,state.usedLen + text.length⟩

/-- All counts, or the first that is positive; without one the last. -/
def shownParts (format : ByteFormat) (parts : List (ℤ × List UInt8)) : List (ℤ × List UInt8) :=
  match format with
  | .fullView => parts
  | .majorView =>
    match parts.find? (0 < ·.1) with
    | some part => [part]
    | none => parts.drop (parts.length - 1)

/-- What both functions do; without a buffer they return `NULL`. -/
def formUnits (zeroText : List UInt8) (split : ℤ → Option (List ℤ)) (units : List TextUnit)
    (append : Filled → ℤ → List UInt8 → Option Filled) (value : ℤ) (format : ByteFormat) (buffer : Option (List UInt8)) :
    Option (Option (List UInt8)) :=
  match buffer with
  | none => some none
  | some buffer =>
    if buffer = [] then some none
    else
      (write? buffer 0 [0]).bind fun buffer =>
        if value = 0 then (snprintf buffer 0 buffer.length zeroText).map some
        else
          (split value).bind fun counts =>
            ((shownParts format (counts.zip (units.map TextUnit.name))).foldlM
              (fun state part => append state part.1 part.2) ⟨buffer,0⟩).bind fun filled =>
              if 0 < filled.usedLen then (hideSpace filled.buffer (filled.usedLen - 1)).map some
              else some (some filled.buffer)

def formDateR : ℤ → ByteFormat → Option (List UInt8) → Option (Option (List UInt8)) :=
  formUnits (ascii "0ns") asadate durationUnits catdateR

def bkbmbgbtbpbebR : ℤ → ByteFormat → Option (List UInt8) → Option (Option (List UInt8)) :=
  formUnits (ascii "0B") tobyte byteUnits catbyteR

/-- A range that holds a number holds all its differences and products. -/
theorem minusAll_eq {fits : ℤ → Option ℤ} {total : ℕ} (hfits : ∀ n : ℕ, n ≤ total → fits n = some (n : ℤ)) (products : List ℕ)
    {rest : ℕ} (hrest : total = products.sum + rest) :
    minusAll fits total (products.map (↑)) = some (rest : ℤ) := by
  induction products generalizing total with
  | nil =>
    rw [hrest]
    simp [minusAll]
  | cons product products ih =>
    rw [List.sum_cons] at hrest
    have hstep : fits ((total : ℤ) - product) = some ((products.sum + rest : ℕ) : ℤ) := by
      rw [← hfits _ (by omega)]
      congr 1
      omega
    have hnext := ih (fun n hn => hfits n (by omega)) (rfl : products.sum + rest = products.sum + rest)
    rw [minusAll] at hnext ⊢
    rw [List.map_cons,List.foldlM_cons,hstep]
    exact hnext

theorem splitChecked_eq {fits : ℤ → Option ℤ} {total : ℕ} (hfits : ∀ n : ℕ, n ≤ total → fits n = some (n : ℤ))
    {units : List TextUnit} (hlast : units.getLast?.map TextUnit.size = some 1) (products : List ℕ) {rest : ℕ}
    (hrest : total = products.sum + rest) :
    splitChecked fits total (divisors units) (products.map (↑)) = some ((splitUnits units rest).map (↑)) := by
  induction units generalizing products rest with
  | nil => simp at hlast
  | cons unit units ih =>
    have hminus := minusAll_eq hfits products hrest
    cases units with
    | nil =>
      have hone : unit.size = 1 := by simpa using hlast
      simp only [divisors,List.dropLast_singleton,List.map_nil,splitChecked,hminus,Option.map_some]
      simp [splitUnits,hone]
    | cons next units =>
      have hle : rest / unit.size * unit.size ≤ rest := Nat.div_mul_le_self _ _
      have hproduct : fits ((rest : ℤ).tdiv unit.size * unit.size) = some ((rest / unit.size * unit.size : ℕ) : ℤ) := by
        rw [← hfits _ (by omega)]
        congr 1
      have hmod := Nat.div_add_mod' rest unit.size
      have hnext : splitChecked fits total (divisors (next :: units))
          ((products ++ [rest / unit.size * unit.size]).map (↑)) =
            some ((splitUnits (next :: units) (rest % unit.size)).map (↑)) := by
        apply ih (by simpa using hlast)
        rw [List.sum_append,List.sum_singleton]
        omega
      rw [List.map_append,List.map_singleton] at hnext
      have hdivisors : divisors (unit :: next :: units) = (unit.size : ℤ) :: divisors (next :: units) := by
        simp [divisors]
      rw [hdivisors,splitChecked,hminus,Option.bind_some]
      dsimp only
      rw [hproduct,Option.bind_some,hnext,Option.map_some,splitUnits,List.map_cons]
      rfl

end Precizer.Rational
