import Precizer.Libmem.StringSources
import Precizer.Traversal.RelativePath

/-! # Relative paths in a descriptor

`path_build_relative` measures the names on the way up from an entry to the traversal root,
resizes its descriptor and writes the names on a second way up, from the end of the buffer to
its start. A write outside the resized buffer is undefined.
-/
namespace Precizer.Traversal
open General Libmem

/-- What is read of an entry; its parents follow it in the chain. -/
structure FtsNode where
  ftsLevel : ℤ
  ftsName : Name
  deriving DecidableEq

/-- `FTS_ROOTLEVEL` -/
def ftsRootLevel : ℤ := 0

/-- The part of the chain that both loops go over. -/
def belowRoot (chain : List FtsNode) : List FtsNode := chain.takeWhile fun node => ftsRootLevel < node.ftsLevel

/-- Where the chain arrives at the root or above it. -/
def rootEntry (chain : List FtsNode) : Option FtsNode :=
  (chain.dropWhile fun node => ftsRootLevel < node.ftsLevel).head?

/-- A write through a pointer into the elements in use. -/
def writeWithin (m : Memory) (offset : ℕ) (bytes : List UInt8) : Option Memory :=
  if m.data ≠ none ∧ offset + bytes.length ≤ m.singleElementSize * m.length then some (m.written offset bytes) else none

/-- The second loop, with its write cursor. -/
def writeComponents : List Name → ℕ → Memory → Option (ℕ × Memory)
  | [],writeCursor,m => some (writeCursor,m)
  | name :: parents,writeCursor,m =>
    if writeCursor < name.length then none
    else
      match writeWithin m (writeCursor - name.length) name with
      | none => none
      | some m =>
        if parents = [] then some (writeCursor - name.length,m)
        else if writeCursor - name.length = 0 then none
        else
          match writeWithin m (writeCursor - name.length - 1) [separator] with
          | none => none
          | some m => writeComponents parents (writeCursor - name.length - 1) m

def pathBuildRelativeInto (allocator : Allocator) (chain : List FtsNode) (s : State) : Option Answer :=
  match chain with
  | [] => some s.fail
  | entry :: _ =>
    if entry.ftsLevel < ftsRootLevel then some s.fail
    else if entry.ftsLevel = ftsRootLevel then
      some (memCoreString allocator .fixed .replace 2 (.outside [46,0]) s)
    else
      let names := (belowRoot chain).map FtsNode.ftsName
      match relativePathLength names 0 0 with
      | none => some s.fail
      | some length =>
        if (rootEntry chain).map FtsNode.ftsLevel ≠ some ftsRootLevel then some s.fail
        else if length = sizeMax then some s.fail
        else
          let resized := memResize allocator (length + 1) .plain s
          if resized.succeeded = false then some resized
          else if memDataWritable resized.state.memory 1 = none then some resized.state.fail
          else
            match writeWithin resized.state.memory length [0] with
            | none => none
            | some m =>
              match writeComponents names length m with
              | none => none
              | some (writeCursor,m) =>
                let written : State := { resized.state with memory := m }
                if writeCursor ≠ 0 then some written.fail
                else some (written.alter (memFinalizeString · length .writeTerminatorIfMissing))

theorem assemblePath_append (names : List Name) (before after : List UInt8) :
    assemblePath names (before ++ after) = assemblePath names before ++ after := by
  induction names generalizing before with
  | nil => rfl
  | cons name parents ih =>
    rw [assemblePath,assemblePath]
    split
    · rw [List.append_assoc]
    · rw [← List.append_assoc,← List.cons_append,ih]

theorem le_length_assemblePath (name : Name) (parents : List Name) (written : List UInt8) :
    name.length + written.length ≤ (assemblePath (name :: parents) written).length := by
  induction parents generalizing name written with
  | nil => simp [assemblePath]
  | cons parent rest ih =>
    have hrest := ih parent (separator :: (name ++ written))
    rw [assemblePath,if_neg (List.cons_ne_nil _ _)]
    simp only [List.length_cons,List.length_append] at hrest
    omega

/-- The first loop refuses only a path that is too long for a `size_t`. -/
theorem relativePathLength_none {names : List Name} {length count : ℕ} (written : List UInt8)
    (hnames : ∀ name ∈ names, name ≠ []) (hwritten : written.length = length + (if names = [] then 0 else min count 1))
    (h : relativePathLength names length count = none) : sizeMax < (assemblePath names written).length := by
  induction names generalizing length count written with
  | nil => cases h
  | cons name parents ih =>
    have hlong := le_length_assemblePath name parents written
    have hname := List.length_pos_of_ne_nil (hnames name List.mem_cons_self)
    have hparents : ∀ parent ∈ parents, parent ≠ [] := fun parent hmem => hnames parent (List.mem_cons_of_mem _ hmem)
    rw [if_neg (List.cons_ne_nil _ _)] at hwritten
    rw [relativePathLength,if_neg (by omega)] at h
    split at h
    · omega
    · split at h
      · next hcount =>
        split at h
        · omega
        · by_cases hlast : parents = []
          · subst hlast
            cases h
          · rw [assemblePath,if_neg hlast]
            refine ih _ hparents ?_ h
            rw [if_neg hlast,List.length_cons,List.length_append]
            omega
      · next hcount =>
        by_cases hlast : parents = []
        · subst hlast
          cases h
        · rw [assemblePath,if_neg hlast]
          refine ih _ hparents ?_ h
          rw [if_neg hlast,List.length_cons,List.length_append]
          omega

/-- The second loop places the whole path right before its cursor, if it has room there. -/
theorem writeComponents_eq {names : List Name} (hne : names ≠ []) {writeCursor : ℕ} {m : Memory} (hdata : m.data ≠ none)
    (hroom : writeCursor ≤ m.singleElementSize * m.length) (hblock : m.singleElementSize * m.length ≤ m.block.length)
    {start : ℕ} (hstart : start + (assemblePath names []).length = writeCursor) :
    writeComponents names writeCursor m = some (start,m.written start (assemblePath names [])) := by
  induction names generalizing writeCursor m with
  | nil => exact absurd rfl hne
  | cons name parents ih =>
    rw [assemblePath] at hstart ⊢
    rw [writeComponents]
    split at hstart
    · next hlast =>
      rw [List.append_nil] at hstart
      have hcursor : writeCursor - name.length = start := by omega
      have hfit : m.data ≠ none ∧ start + name.length ≤ m.singleElementSize * m.length := ⟨hdata,by omega⟩
      rw [if_neg (by omega),hcursor,writeWithin,if_pos hfit]
      simp [hlast]
    · next hmore =>
      have hsplit : assemblePath parents (separator :: (name ++ [])) = assemblePath parents [] ++ separator :: name := by
        rw [List.append_nil]
        exact assemblePath_append parents [] (separator :: name)
      rw [hsplit] at hstart
      rw [List.length_append,List.length_cons] at hstart
      have hname : m.data ≠ none ∧ writeCursor - name.length + name.length ≤ m.singleElementSize * m.length :=
        ⟨hdata,by omega⟩
      have hseparator : (m.written (writeCursor - name.length) name).data ≠ none ∧
          writeCursor - name.length - 1 + [separator].length ≤
            (m.written (writeCursor - name.length) name).singleElementSize *
              (m.written (writeCursor - name.length) name).length :=
        ⟨Memory.data_written hdata,by simp only [Memory.written_singleElementSize,Memory.written_length,List.length_singleton]; omega⟩
      rw [if_neg (by omega),writeWithin,if_pos hname]
      dsimp only
      rw [if_neg hmore,if_neg (by omega),writeWithin,if_pos hseparator]
      dsimp only
      have hcursor : writeCursor - name.length - 1 = start + (assemblePath parents []).length := by omega
      have hnext : writeCursor - name.length = start + (assemblePath parents []).length + [separator].length := by
        simp only [List.length_singleton]
        omega
      have hwritten : (m.written (writeCursor - name.length) name).written (writeCursor - name.length - 1) [separator] =
          m.written (start + (assemblePath parents []).length) (separator :: name) := by
        rw [hcursor,hnext,Memory.written_before (by simp only [List.length_singleton]; omega)]
        rfl
      have hlength : (m.written (start + (assemblePath parents []).length) (separator :: name)).block.length =
          m.block.length := by
        rw [Memory.block_written hdata]
        apply length_overwrite
        rw [List.length_cons]
        omega
      rw [hwritten,hcursor,ih hmore (Memory.data_written hdata) (by simp; omega) (by simpa [hlength] using hblock) rfl,
        Memory.written_before (by rw [List.length_cons]; omega),if_neg hmore,hsplit]

section
variable {s : State} (h : Sound s.memory) (hterminated : Terminated s.memory) (allocator : Allocator)
include h hterminated

theorem pathWritten {names : List Name} (hne : names ≠ []) {length : ℕ} (hlength : relativePathLength names 0 0 = some length)
    (hresized : (memResize allocator (length + 1) .plain s).succeeded = true)
    (hwidth : s.memory.singleElementSize = 1) :
    ∃ m, writeWithin (memResize allocator (length + 1) .plain s).state.memory length [0] = some m ∧ Sound m ∧
      m.length = length + 1 ∧ m.isString = s.memory.isString ∧ m.singleElementSize = 1 ∧
      writeComponents names length m = some (0,m.written 0 (assemblePath names [])) ∧
      (assemblePath names []).length = length ∧ m.data ≠ none := by
  have hexact := memResize_exact h hterminated hresized
  generalize (memResize allocator (length + 1) .plain s).state.memory = resized at *
  have hassembled : (assemblePath names []).length = length :=
    relativePathLength_written [] (by simp [hne]) hlength
  have hdata := hexact.sound.data_of_length (by rw [hexact.length]; omega)
  have hcovered := hexact.sound.covered
  have hformat := hexact.format.1.trans hwidth
  rw [hformat,hexact.length] at hcovered
  have hfit : resized.data ≠ none ∧ length + [(0 : UInt8)].length ≤ resized.singleElementSize * resized.length := by
    refine ⟨hdata,?_⟩
    rw [hformat,hexact.length]
    simp
  refine ⟨resized.written length [0],if_pos hfit,?_,hexact.length,hexact.format.2,hformat,?_,hassembled,
    Memory.data_written hdata⟩
  · apply hexact.sound.written
    simp
    omega
  · have hsound : Sound (resized.written length [0]) := by
      apply hexact.sound.written
      simp
      omega
    apply writeComponents_eq hne (Memory.data_written hdata)
    · simp [hformat,hexact.length]
    · rw [hsound.blockLength]
      exact hsound.covered
    · omega

/-- How the names of an entry below the root are written: the buffer never overflows, and what
is refused leaves the descriptor sound. -/
theorem pathBuildRelativeInto_names {chain : List FtsNode} {entry : FtsNode} {parents : List FtsNode}
    (hchain : chain = entry :: parents) (hlevel : ftsRootLevel < entry.ftsLevel) :
    (∃ state : State, pathBuildRelativeInto allocator chain s = some state.fail ∧
      (state.memory = s.memory ∧
        (s.memory.isString = true → s.memory.singleElementSize = 1 →
          relativePathLength ((belowRoot chain).map FtsNode.ftsName) 0 0 = none ∨
          (rootEntry chain).map FtsNode.ftsLevel ≠ some ftsRootLevel ∨
          ∃ length, relativePathLength ((belowRoot chain).map FtsNode.ftsName) 0 0 = some length ∧
            (length = sizeMax ∨ (memResize allocator (length + 1) .plain s).succeeded = false)) ∨
      Sound state.memory ∧ Terminated state.memory ∧ ¬(s.memory.isString = true ∧ s.memory.singleElementSize = 1))) ∨
    ∃ (length : ℕ) (m : Memory) (state : State), pathBuildRelativeInto allocator chain s = some state.succeed ∧
      state.memory = (m.written 0 (assemblePath ((belowRoot chain).map FtsNode.ftsName) [])).cutAt length ∧
      (assemblePath ((belowRoot chain).map FtsNode.ftsName) []).length = length ∧ Sound m ∧ m.isString = true ∧
      m.singleElementSize = 1 ∧ m.length = length + 1 := by
  have hne : (belowRoot chain).map FtsNode.ftsName ≠ [] := by
    rw [hchain,belowRoot,List.takeWhile_cons_of_pos (by simpa using hlevel)]
    simp
  subst hchain
  rw [pathBuildRelativeInto,if_neg (by omega),if_neg (by omega)]
  dsimp only
  generalize (belowRoot (entry :: parents)).map FtsNode.ftsName = names at hne
  cases hlength : relativePathLength names 0 0 with
  | none => exact .inl ⟨s,rfl,.inl ⟨rfl,fun _ _ => .inl rfl⟩⟩
  | some length =>
    dsimp only
    split
    · next hroot => exact .inl ⟨s,rfl,.inl ⟨rfl,fun _ _ => .inr (.inl hroot)⟩⟩
    split
    · next hlong => exact .inl ⟨s,rfl,.inl ⟨rfl,fun _ _ => .inr (.inr ⟨length,rfl,.inl hlong⟩)⟩⟩
    split
    · next hrefused =>
      refine .inl ⟨(memResize allocator (length + 1) .plain s).state,?_,
        .inl ⟨(memResize_refused h hrefused).1,fun _ _ => .inr (.inr ⟨length,rfl,.inr hrefused⟩)⟩⟩
      cases hanswer : memResize allocator (length + 1) .plain s
      rw [hanswer] at hrefused
      dsimp only at hrefused
      rw [hrefused]
      rfl
    next hresized =>
    rw [Bool.not_eq_false] at hresized
    have hexact := memResize_exact h hterminated hresized
    have hwritable := memDataWritable_sound hexact.sound (by rw [hexact.length]; omega) 1
    rw [hexact.format.1] at hwritable
    by_cases hwidth : s.memory.singleElementSize = 1
    · rw [if_pos hwidth] at hwritable
      obtain ⟨m,hend,hsound,hcount,hmode,hformat,hcomponents,hassembled,hdata⟩ :=
        pathWritten h hterminated allocator hne hlength hresized hwidth
      rw [hwritable,if_neg (by simp),hend]
      dsimp only
      rw [hcomponents]
      dsimp only
      rw [if_neg (by simp)]
      have hroom : 0 + (assemblePath names []).length ≤ m.actuallyAllocatedBytes := by
        have hcovered := hsound.covered
        rw [hformat,hcount] at hcovered
        omega
      have hwritten := hsound.written hroom
      cases hstring : m.isString with
      | true =>
        have hfinal : memFinalizeString (m.written 0 (assemblePath names [])) length .writeTerminatorIfMissing =
            some ((m.written 0 (assemblePath names [])).cutAt length) :=
          memFinalizeString_eq_some hwritten hstring (by simp [hcount]) (by simp)
        refine .inr ⟨length,m,{ (memResize allocator (length + 1) .plain s).state with
          memory := (m.written 0 (assemblePath names [])).cutAt length },?_,rfl,hassembled,hsound,hstring,hformat,hcount⟩
        simp only [State.alter,hfinal]
      | false =>
        have hfinal : memFinalizeString (m.written 0 (assemblePath names [])) length .writeTerminatorIfMissing = none := by
          cases hanswer : memFinalizeString (m.written 0 (assemblePath names [])) length .writeTerminatorIfMissing with
          | none => rfl
          | some m' =>
            have hcontradiction := (memFinalizeString_sound hwritten hanswer).1
            simp [hstring] at hcontradiction
        refine .inl ⟨{ (memResize allocator (length + 1) .plain s).state with
          memory := m.written 0 (assemblePath names []) },?_,.inr ⟨hwritten,?_,?_⟩⟩
        · simp only [State.alter,hfinal]
        · intro hcontradiction
          simp [hstring] at hcontradiction
        · rintro ⟨hcontradiction,-⟩
          rw [← hmode,hstring] at hcontradiction
          cases hcontradiction
    · rw [if_neg hwidth] at hwritable
      rw [hwritable,if_pos rfl]
      exact .inl ⟨_,rfl,.inr ⟨hexact.sound,hexact.terminated,fun hboth => hwidth hboth.2⟩⟩

omit hterminated in
/-- The root itself is called `.`. -/
theorem copyDot (hstring : s.memory.isString = true) (hwidth : s.memory.singleElementSize = 1) :
    memCoreString allocator .fixed .replace 2 (.outside [46,0]) s =
      transferResized allocator (.outside [46,0]) none 0 1 1 2 s := by
  have hdata : ¬(0 < s.memory.length ∧ s.memory.data = none) := h.payload_present
  have hbytes : ∀ count ≤ sizeMax, memGuardedByteSize s.memory count = some count := by
    intro count hcount
    refine memGuardedByteSize_eq_some.mpr ⟨by omega,?_,?_⟩
    · rw [hwidth,Nat.one_mul]
      exact hcount
    · rw [hwidth,Nat.one_mul]
  have hlength : s.memory.length ≤ sizeMax := by
    have hfit := h.covered.trans h.addressable
    rwa [hwidth,Nat.one_mul] at hfit
  rw [memCoreString,if_neg hdata]
  simp [hwidth,hstring,measureSource,Source.offsetWithin,transferMeasured,hbytes _ hlength,
    hbytes 1 (by decide),memGuardedAdd,Libmem.sizeMax]

end

end Precizer.Traversal
