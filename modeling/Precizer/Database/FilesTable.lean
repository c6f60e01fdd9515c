import Precizer.General.UniqueTable
import Precizer.Database.CompactStat
import Precizer.Digest.Sha512

/-! # Rows of the files table

A row has an identifier and a relative path, both unique, and the four columns a
save writes. The metadata column is the raw blob; a row is loaded by copying a
fixed number of bytes out of it.
-/
namespace Precizer.Database
open General Digest

abbrev RelativePath := List UInt8

/-- The columns an update of a row replaces. -/
structure FileColumns where
  offset : Option ℕ
  sha512 : Option Sha512Digest
  stat : Option (List UInt8)
  mdContext : Option SHA512Context
  deriving DecidableEq

abbrev FilesTable := UniqueTable RelativePath FileColumns

/-- A row of the files table as one file's processing sees it. -/
structure DBrow where
  relativePathWasInDbBeforeProcessing : Bool
  savedOffset : ℕ
  ID : ℕ
  savedStat : CmpctStat
  savedMdContext : SHA512Context
  sha512 : Sha512Digest
  deriving DecidableEq

def zeroDigest : Sha512Digest := Vector.replicate 64 0

/-- The zero-filled row of a path that is not in the database. -/
def DBrow.zero : DBrow := ⟨false,0,0,CmpctStat.zero,zeroContext,zeroDigest⟩

/-- `NULL` columns leave the zero-filled fields as they are. -/
def DBrow.ofEntry (e : Entry RelativePath FileColumns) : DBrow where
  relativePathWasInDbBeforeProcessing := true
  savedOffset := e.value.offset.getD 0
  ID := e.ident
  savedStat := (e.value.stat.map CmpctStat.ofBytes).getD CmpctStat.zero
  savedMdContext := e.value.mdContext.getD zeroContext
  sha512 := e.value.sha512.getD zeroDigest

/-- The row `SELECT` delivers for a path, or the zero-filled one. -/
def readRow (t : FilesTable) (path : RelativePath) : DBrow :=
  match t.find path with
  | none => DBrow.zero
  | some e => DBrow.ofEntry e

theorem readRow_none {t : FilesTable} {path : RelativePath} (h : t.find path = none) :
    readRow t path = DBrow.zero := by
  rw [readRow,h]

theorem readRow_some {t : FilesTable} {path : RelativePath} {e : Entry RelativePath FileColumns}
    (h : t.find path = some e) : readRow t path = DBrow.ofEntry e := by
  rw [readRow,h]

/-- The columns stored for a path, whatever identifier its row has. -/
def contents (t : FilesTable) (path : RelativePath) : Option FileColumns := (t.find path).map Entry.value

theorem mem_keys_contents {t : FilesTable} {path : RelativePath} : path ∈ t.keys ↔ (contents t path).isSome := by
  rw [UniqueTable.mem_keys,contents,Option.isSome_map,Option.isSome_iff_exists]

/-- Only the deleted row loses its columns. -/
theorem contents_erase {t : FilesTable} {e : Entry RelativePath FileColumns}
    (h : ∀ e' ∈ t.rows, e'.ident = e.ident ∨ e'.key = e.key → e' = e) (path : RelativePath) :
    contents (t.erase e.ident) path = if path = e.key then none else contents t path := by
  have hfind (e' : Entry RelativePath FileColumns) : (t.erase e.ident).find path = some e' ↔
      t.find path = some e' ∧ path ≠ e.key := by
    rw [UniqueTable.find_erase_some]
    refine and_congr_right fun hfound => ?_
    obtain ⟨hmem,hkey⟩ := UniqueTable.find_eq_some_iff.mp hfound
    rw [← hkey]
    refine not_congr ⟨fun hident => ?_,fun hkeys => ?_⟩
    · rw [h e' hmem (.inl hident)]
    · rw [h e' hmem (.inr hkeys)]
  have herased : (t.erase e.ident).find path = if path = e.key then none else t.find path := by
    apply Option.ext
    intro e'
    rw [hfind]
    split
    · rename_i hpath
      simp [hpath]
    · rename_i hpath
      simp [hpath]
  rw [contents,herased,contents]
  split <;> rfl

theorem contents_filter {t t' : FilesTable} {gone : RelativePath → Bool}
    (h : t'.rows = t.rows.filter fun e => !gone e.key) (path : RelativePath) :
    contents t' path = if gone path then none else contents t path := by
  have hfind (e : Entry RelativePath FileColumns) : t'.find path = some e ↔
      t.find path = some e ∧ gone path = false := by
    rw [UniqueTable.find_eq_some_iff,UniqueTable.find_eq_some_iff,h,List.mem_filter]
    constructor
    · rintro ⟨⟨hmem,hkept⟩,rfl⟩
      exact ⟨⟨hmem,rfl⟩,by simpa using hkept⟩
    · rintro ⟨⟨hmem,rfl⟩,hkept⟩
      exact ⟨⟨hmem,by simpa using hkept⟩,rfl⟩
  have hkept : t'.find path = if gone path then none else t.find path := by
    apply Option.ext
    intro e
    rw [hfind]
    cases gone path <;> simp
  rw [contents,hkept,contents]
  split <;> rfl

theorem readRow_known_iff {t : FilesTable} {path : RelativePath} :
    (readRow t path).relativePathWasInDbBeforeProcessing = true ↔ ∃ e, t.find path = some e := by
  cases h : t.find path with
  | none => simp [readRow_none h,DBrow.zero]
  | some e => simp [readRow_some h,DBrow.ofEntry]

end Precizer.Database
