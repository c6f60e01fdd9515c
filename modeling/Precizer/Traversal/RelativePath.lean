import Precizer.Database.FilesTable

/-! # Relative paths

The path of an entry is put together from the names that lead to it from the traversal
root, the last one first. Names are nonempty and contain no separator, so that entries
with different names get different paths.
-/
namespace Precizer.Traversal
open Database

/-- The name of one directory entry. -/
abbrev Name := List UInt8

/-- `/` -/
def separator : UInt8 := 47

def sizeMax : ℕ := 2 ^ 64 - 1

/-- The first loop goes from the entry up to the root: the length of the path so far and the
number of components counted so far. -/
def relativePathLength : List Name → ℕ → ℕ → Option ℕ
  | [],length,_ => some length
  | name :: parents,length,count =>
    if name.length = 0 then none
    else if sizeMax - name.length < length then none
    else if 0 < count then
      if length + name.length = sizeMax then none
      else relativePathLength parents (length + name.length + 1) (count + 1)
    else relativePathLength parents (length + name.length) (count + 1)

/-- The second loop writes the names before what is already written, from the last one back. -/
def assemblePath : List Name → List UInt8 → List UInt8
  | [],written => written
  | name :: parents,written =>
    if parents = [] then name ++ written else assemblePath parents (separator :: (name ++ written))

/-- The path of an entry given by its name and those of its parents below the root; without
any it is the root itself, which is called `.`. -/
def pathBuildRelative (names : List Name) : Option RelativePath :=
  if names = [] then some [46]
  else
    match relativePathLength names 0 0 with
    | none => none
    | some length => if length = sizeMax then none else some (assemblePath names [])

theorem intercalate_join {α : Type*} (sep a b : List α) (ls : List (List α)) :
    sep.intercalate (ls ++ [a,b]) = sep.intercalate (ls ++ [a ++ (sep ++ b)]) := by
  induction ls with
  | nil => simp
  | cons l rest ih =>
    rw [List.cons_append,List.cons_append,List.intercalate_cons_of_ne_nil (by simp),
      List.intercalate_cons_of_ne_nil (by simp),ih]

theorem assemblePath_eq (name : Name) (parents : List Name) (written : List UInt8) :
    assemblePath (name :: parents) written = [separator].intercalate (parents.reverse ++ [name ++ written]) := by
  induction parents generalizing name written with
  | nil => simp [assemblePath]
  | cons parent rest ih =>
    rw [assemblePath,if_neg (List.cons_ne_nil _ _),ih,List.reverse_cons,List.append_assoc]
    exact (intercalate_join [separator] parent (name ++ written) rest.reverse).symm

theorem assemblePath_nil {names : List Name} (h : names ≠ []) :
    assemblePath names [] = [separator].intercalate names.reverse := by
  cases names with
  | nil => exact absurd rfl h
  | cons name parents => rw [assemblePath_eq,List.append_nil,List.reverse_cons]

/-- The buffer is exactly filled: the last comparison of the write cursor never fails. -/
theorem relativePathLength_written {names : List Name} {length count total : ℕ} (written : List UInt8)
    (hwritten : written.length = length + (if names = [] then 0 else min count 1))
    (h : relativePathLength names length count = some total) : (assemblePath names written).length = total := by
  induction names generalizing length count written with
  | nil =>
    cases h
    exact hwritten
  | cons name parents ih =>
    rw [relativePathLength] at h
    rw [if_neg (List.cons_ne_nil _ _)] at hwritten
    split at h
    · cases h
    · split at h
      · cases h
      · rw [assemblePath]
        cases count with
        | zero =>
          rw [if_neg (by decide)] at h
          split
          · rename_i hlast
            subst hlast
            cases h
            rw [List.length_append]
            omega
          · rename_i hmore
            refine ih _ ?_ h
            rw [if_neg hmore,List.length_cons,List.length_append]
            omega
        | succ n =>
          rw [if_pos (Nat.succ_pos n)] at h
          split at h
          · cases h
          · split
            · rename_i hlast
              subst hlast
              cases h
              rw [List.length_append]
              omega
            · rename_i hmore
              refine ih _ ?_ h
              rw [if_neg hmore,List.length_cons,List.length_append]
              omega

/-- Names as the file system has them. -/
def ValidNames (names : List Name) : Prop := names ≠ [] ∧ ∀ name ∈ names, separator ∉ name

/-- Entries below one root have different paths. -/
theorem pathBuildRelative_inj {names names' : List Name} {path : RelativePath} (hvalid : ValidNames names)
    (hvalid' : ValidNames names') (h : pathBuildRelative names = some path)
    (h' : pathBuildRelative names' = some path) : names = names' := by
  have hpath {names : List Name} (hvalid : ValidNames names) (h : pathBuildRelative names = some path) :
      path.splitOn separator = names.reverse := by
    have hwritten : path = assemblePath names [] := by
      unfold pathBuildRelative at h
      rw [if_neg hvalid.1] at h
      split at h
      · cases h
      · split at h
        · cases h
        · exact (Option.some.inj h).symm
    have hnonempty : names.reverse ≠ [] := by simpa using hvalid.1
    rw [hwritten,assemblePath_nil hvalid.1]
    exact List.splitOn_intercalate separator (fun name hname => hvalid.2 name (List.mem_reverse.mp hname)) hnonempty
  exact List.reverse_injective ((hpath hvalid h).symm.trans (hpath hvalid' h'))

end Precizer.Traversal
