import Precizer.Traversal.RelativePathBuffer

/-! # Relative paths

The path of an entry is made of the names from the child of the traversal root down to the
entry. It says nothing of the root, and tells entries below one root apart.
-/
namespace Precizer.Guarantees
open Libmem Traversal

/-- The entries from one on up to the child of the root, with names as a traversal meets them. -/
def ValidBelow (below : List FtsNode) : Prop :=
  ∀ node ∈ below, ftsRootLevel < node.ftsLevel ∧ node.ftsName ≠ [] ∧ separator ∉ node.ftsName ∧ node.ftsName ≠ [46]

/-- The names from the child of the root down, joined by single separators. -/
def pathBelow (below : List FtsNode) : List UInt8 :=
  if below = [] then [46] else [separator].intercalate (below.reverse.map FtsNode.ftsName)

/-- A descriptor that holds a path, with its length and its terminator. -/
structure HoldsPath (path : List UInt8) (m : Memory) : Prop where
  visible : m.visibleString = path
  stringLength : m.stringLength = path.length
  room : m.stringLength < m.length
  sound : Sound m
  terminated : Terminated m

/-- The outcome for an entry: all writes stay within the buffer, and the path is in the descriptor
unless there is no address space or no memory for it; then the descriptor is as it was. -/
def FaithfulPath (allocator : Allocator) (s : State) (below chain : List FtsNode) : Prop :=
  ∃ answer, pathBuildRelativeInto allocator chain s = some answer ∧
    (answer.succeeded = true → HoldsPath (pathBelow below) answer.state.memory) ∧
    (answer.succeeded = false → answer.state.memory = s.memory ∧
      (Libmem.sizeMax ≤ (pathBelow below).length ∨
        (memResize allocator ((pathBelow below).length + 1) .plain s).succeeded = false))

section

variable {below : List FtsNode} {root : FtsNode} {above : List FtsNode}

theorem belowRoot_append (hbelow : ∀ node ∈ below, ftsRootLevel < node.ftsLevel) (hroot : root.ftsLevel = ftsRootLevel) :
    belowRoot (below ++ root :: above) = below := by
  rw [belowRoot,List.takeWhile_append_of_pos (by simpa using hbelow),
    List.takeWhile_cons_of_neg (by simp [hroot]),List.append_nil]

theorem rootEntry_append (hbelow : ∀ node ∈ below, ftsRootLevel < node.ftsLevel) (hroot : root.ftsLevel = ftsRootLevel) :
    rootEntry (below ++ root :: above) = some root := by
  rw [rootEntry,List.dropWhile_append_of_pos (by simpa using hbelow),List.dropWhile_cons_of_neg (by simp [hroot])]
  rfl

theorem assemblePath_below (hne : below ≠ []) : assemblePath (below.map FtsNode.ftsName) [] = pathBelow below := by
  rw [assemblePath_nil (by simpa using hne),pathBelow,if_neg hne,List.map_reverse]

theorem pathBelow_inj {below' : List FtsNode} (hbelow : ValidBelow below) (hbelow' : ValidBelow below')
    (h : pathBelow below = pathBelow below') : below.map FtsNode.ftsName = below'.map FtsNode.ftsName := by
  have hsplit : ∀ {below : List FtsNode}, ValidBelow below → below ≠ [] →
      (pathBelow below).splitOn separator = below.reverse.map FtsNode.ftsName := by
    intro below hvalid hne
    rw [pathBelow,if_neg hne]
    apply List.splitOn_intercalate
    · intro name hname
      obtain ⟨node,hnode,rfl⟩ := List.mem_map.mp hname
      exact (hvalid node (List.mem_reverse.mp hnode)).2.2.1
    · simpa using hne
  have hdot : ∀ {below : List FtsNode}, ValidBelow below → below ≠ [] → pathBelow below ≠ [46] := by
    intro below hvalid hne heq
    have hnames := hsplit hvalid hne
    have hsingle : [(46 : UInt8)].splitOn separator = [[46]] := by decide
    rw [heq,hsingle] at hnames
    have hmem : [(46 : UInt8)] ∈ below.reverse.map FtsNode.ftsName := hnames ▸ List.mem_singleton_self _
    obtain ⟨node,hnode,hname⟩ := List.mem_map.mp hmem
    exact (hvalid node (List.mem_reverse.mp hnode)).2.2.2 hname
  by_cases hne : below = []
  · by_cases hne' : below' = []
    · rw [hne,hne']
    · have hroot : pathBelow below = [46] := if_pos hne
      exact absurd (h.symm.trans hroot) (hdot hbelow' hne')
  · by_cases hne' : below' = []
    · have hroot : pathBelow below' = [46] := if_pos hne'
      exact absurd (h.trans hroot) (hdot hbelow hne)
    · have hnames := (hsplit hbelow hne).symm.trans ((congrArg (List.splitOn separator) h).trans (hsplit hbelow' hne'))
      rw [List.map_reverse,List.map_reverse] at hnames
      exact List.reverse_injective hnames

variable {s : State} (h : Sound s.memory) (hterminated : Terminated s.memory) (allocator : Allocator)
include h hterminated

theorem faithful_root (hstring : s.memory.isString = true) (hwidth : s.memory.singleElementSize = 1)
    (hroot : root.ftsLevel = ftsRootLevel) : FaithfulPath allocator s [] (root :: above) := by
  have hlevel : ¬ root.ftsLevel < ftsRootLevel := by omega
  refine ⟨memCoreString allocator .fixed .replace 2 (.outside [46,0]) s,?_,?_,?_⟩
  · rw [pathBuildRelativeInto,if_neg hlevel,if_pos hroot]
  · intro hsucceeded
    have hvalid : ValidSource s.memory .fixed 2 (.outside [46,0]) := by
      simp only [ValidSource,EndsInOnlyZero,hwidth]
      decide
    have htransferred := memCoreString_succeeded h hterminated hvalid hsucceeded
    have hvisible : visibleSource s.memory .fixed 2 (.outside [46,0]) = pathBelow [] := by
      simp only [visibleSource,hwidth]
      decide
    rw [hvisible] at htransferred
    generalize (memCoreString allocator .fixed .replace 2 (.outside [46,0]) s).state.memory = m at htransferred
    have hpath : m.visibleString = pathBelow [] := by simpa using htransferred.visible
    have hlength := htransferred.stringLength
    rw [hwidth,Nat.one_mul,hpath] at hlength
    have hroom := htransferred.sound.stringMode htransferred.format.2
    exact ⟨hpath,hlength,hroom.resolve_right (fun hboth => by simp [hboth.2,pathBelow] at hlength),htransferred.sound,
      htransferred.terminated⟩
  · intro hfailed
    refine ⟨memCoreString_failed h hterminated hfailed,.inr ?_⟩
    rw [copyDot h allocator hstring hwidth] at hfailed
    cases hresized : (memResize allocator 2 .plain s).succeeded with
    | false => exact hresized
    | true =>
      have hexact := memResize_exact h hterminated hresized
      have hindex : 1 < (memResize allocator 2 .plain s).state.memory.length := by
        rw [hexact.length]
        omega
      rw [transferResized,Answer.run_succeeded hresized,placeString_eq hexact.sound
        (by rw [hexact.format.1]; omega) (hexact.sound.data_of_length (by omega)) (hexact.sound.covers hindex)] at hfailed
      cases hfailed

theorem faithful_below (hstring : s.memory.isString = true) (hwidth : s.memory.singleElementSize = 1)
    (hbelow : ValidBelow below) (hne : below ≠ []) (hroot : root.ftsLevel = ftsRootLevel) :
    FaithfulPath allocator s below (below ++ root :: above) := by
  have hlevels : ∀ node ∈ below, ftsRootLevel < node.ftsLevel := fun node hnode => (hbelow node hnode).1
  have hpath := assemblePath_below hne
  have hnames : (belowRoot (below ++ root :: above)).map FtsNode.ftsName = below.map FtsNode.ftsName := by
    rw [belowRoot_append hlevels hroot]
  obtain ⟨entry,parents,rfl⟩ := List.exists_cons_of_ne_nil hne
  rcases pathBuildRelativeInto_names h hterminated allocator (List.cons_append ..) (hlevels entry List.mem_cons_self) with
    ⟨state,hanswer,hrefused⟩ | ⟨length,m,state,hanswer,hmemory,hlength,hsound,hmode,hformat,hcount⟩
  · refine ⟨state.fail,hanswer,fun hsucceeded => (by cases hsucceeded),fun _ => ?_⟩
    rcases hrefused with ⟨hsame,hreason⟩ | ⟨-,-,hwrong⟩
    · refine ⟨hsame,?_⟩
      rw [hnames] at hreason
      rcases hreason hstring hwidth with hover | hchain | ⟨length,hlength,hshort⟩
      · left
        have hlong := relativePathLength_none [] (by simpa using fun node hnode => (hbelow node hnode).2.1) (by simp) hover
        rw [hpath] at hlong
        exact hlong.le
      · rw [rootEntry_append hlevels hroot,Option.map_some,hroot] at hchain
        exact absurd rfl hchain
      · have hassembled := relativePathLength_written [] (by simp) hlength
        rw [hpath] at hassembled
        rw [hassembled]
        rcases hshort with hmax | hresize
        · exact .inl hmax.ge
        · exact .inr hresize
    · exact absurd ⟨hstring,hwidth⟩ hwrong
  · rw [hnames,hpath] at hmemory hlength
    have hroom : 0 + (pathBelow (entry :: parents)).length ≤ m.actuallyAllocatedBytes := by
      have hcovered := hsound.covered
      rw [hformat,hcount] at hcovered
      omega
    have hwritten := hsound.written hroom
    have hindex : length < (m.written 0 (pathBelow (entry :: parents))).length := by
      simp only [Memory.written_length]
      omega
    have hdata := hsound.data_of_length (by omega)
    refine ⟨state.succeed,hanswer,fun _ => ?_,fun hfailed => (by cases hfailed)⟩
    dsimp only [State.succeed]
    rw [hmemory]
    refine ⟨?_,hlength.symm,hindex,hwritten.cutAt hmode hindex,Memory.terminated_cutAt hwritten hindex⟩
    rw [visibleString_cutAt hwritten (Memory.data_written hdata) (hwritten.covers hindex),Memory.written_singleElementSize,
      hformat,Nat.one_mul,block_take_written hsound (Nat.zero_le _) hdata (by omega)]
    rfl

/-- Whatever the chain and the descriptor are, nothing is written outside the buffer, and a
failure leaves the descriptor as it was, or sound. -/
theorem pathBuildRelativeInto_failed (chain : List FtsNode) : ∃ answer, pathBuildRelativeInto allocator chain s = some answer ∧
    (answer.succeeded = false →
      answer.state.memory = s.memory ∨ Sound answer.state.memory ∧ Terminated answer.state.memory) := by
  cases chain with
  | nil => exact ⟨s.fail,rfl,fun _ => .inl rfl⟩
  | cons entry parents =>
    rcases lt_trichotomy entry.ftsLevel ftsRootLevel with habove | hroot | hbelow
    · exact ⟨s.fail,by rw [pathBuildRelativeInto,if_pos habove],fun _ => .inl rfl⟩
    · refine ⟨memCoreString allocator .fixed .replace 2 (.outside [46,0]) s,?_,fun hfailed => ?_⟩
      · rw [pathBuildRelativeInto,if_neg (by omega),if_pos hroot]
      · exact .inl (memCoreString_failed h hterminated hfailed)
    · rcases pathBuildRelativeInto_names h hterminated allocator rfl hbelow with
        ⟨state,hanswer,hrefused⟩ | ⟨length,m,state,hanswer,-⟩
      · refine ⟨state.fail,hanswer,fun _ => ?_⟩
        rcases hrefused with ⟨hsame,-⟩ | ⟨hsound,hended,-⟩
        · exact .inl hsame
        · exact .inr ⟨hsound,hended⟩
      · exact ⟨state.succeed,hanswer,fun hfailed => (by cases hfailed)⟩

omit h hterminated in
/-- The root is not part of the result. -/
theorem pathBuildRelativeInto_root {root' : FtsNode} {above' : List FtsNode} (hbelow : ValidBelow below)
    (hroot : root.ftsLevel = ftsRootLevel) (hroot' : root'.ftsLevel = ftsRootLevel) :
    pathBuildRelativeInto allocator (below ++ root :: above) s =
      pathBuildRelativeInto allocator (below ++ root' :: above') s := by
  have hlevels : ∀ node ∈ below, ftsRootLevel < node.ftsLevel := fun node hnode => (hbelow node hnode).1
  have hnames : belowRoot (below ++ root :: above) = below := belowRoot_append hlevels hroot
  have hnames' : belowRoot (below ++ root' :: above') = below := belowRoot_append hlevels hroot'
  have hentry : rootEntry (below ++ root :: above) = some root := rootEntry_append hlevels hroot
  have hentry' : rootEntry (below ++ root' :: above') = some root' := rootEntry_append hlevels hroot'
  cases below with
  | nil =>
    rw [List.nil_append,List.nil_append,pathBuildRelativeInto,pathBuildRelativeInto,if_neg (by omega),if_pos hroot,
      if_neg (by omega),if_pos hroot']
  | cons entry parents =>
    rw [List.cons_append] at hnames hnames' hentry hentry'
    rw [List.cons_append,List.cons_append,pathBuildRelativeInto,pathBuildRelativeInto,hnames,hnames',hentry,hentry',
      Option.map_some,Option.map_some,hroot,hroot']

/-- The path of an entry is its names below the root, whatever the root is called; different
names have different paths, and a failure never spoils the descriptor. -/
theorem relative_paths_faithful (hstring : s.memory.isString = true) (hwidth : s.memory.singleElementSize = 1) :
    (∀ below root above, ValidBelow below → root.ftsLevel = ftsRootLevel →
      FaithfulPath allocator s below (below ++ root :: above)) ∧
    (∀ below root above root' above', ValidBelow below → root.ftsLevel = ftsRootLevel → root'.ftsLevel = ftsRootLevel →
      pathBuildRelativeInto allocator (below ++ root :: above) s =
        pathBuildRelativeInto allocator (below ++ root' :: above') s) ∧
    (∀ below below', ValidBelow below → ValidBelow below' → pathBelow below = pathBelow below' →
      below.map FtsNode.ftsName = below'.map FtsNode.ftsName) ∧
    ∀ chain, ∃ answer, pathBuildRelativeInto allocator chain s = some answer ∧
      (answer.succeeded = false →
        answer.state.memory = s.memory ∨ Sound answer.state.memory ∧ Terminated answer.state.memory) := by
  refine ⟨?_,?_,?_,pathBuildRelativeInto_failed h hterminated allocator⟩
  · intro below root above hbelow hroot
    by_cases hne : below = []
    · rw [hne,List.nil_append]
      exact faithful_root h hterminated allocator hstring hwidth hroot
    · exact faithful_below h hterminated allocator hstring hwidth hbelow hne hroot
  · intro below root above root' above' hbelow hroot hroot'
    exact pathBuildRelativeInto_root allocator hbelow hroot hroot'
  · intro below below' hbelow hbelow' heq
    exact pathBelow_inj hbelow hbelow' heq

end

/-- The file `b` of the directory `a`, below a root that is called `/`, after the path `c`. -/
theorem relative_paths_faithful_again :
    (writtenString 1 [99,0]).memory.visibleString = [99] ∧
      FaithfulPath (fun _ _ => some fun _ => 7) (writtenString 1 [99,0]) [⟨2,[98]⟩,⟨1,[97]⟩]
        ([⟨2,[98]⟩,⟨1,[97]⟩] ++ ⟨0,[47]⟩ :: []) :=
  ⟨by decide +kernel,(relative_paths_faithful (writtenString_keeps (by decide)).1 (writtenString_keeps (by decide)).2
    (fun _ _ => some fun _ => 7) (by decide +kernel) (by decide +kernel)).1 [⟨2,[98]⟩,⟨1,[97]⟩] ⟨0,[47]⟩ [] (by
      intro node hnode
      simp only [List.mem_cons,List.not_mem_nil,or_false] at hnode
      rcases hnode with rfl | rfl <;> decide) rfl⟩

end Precizer.Guarantees
