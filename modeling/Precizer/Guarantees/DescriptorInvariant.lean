import Precizer.Libmem.Runs

/-! # The descriptor invariant

In every run whose wide texts are given up harmlessly every descriptor is well formed in every
state. A wide text that is given up with its buffer written over the old terminator breaks this.
-/
namespace Precizer.Guarantees
open General Libmem

structure WellFormed (m : Memory) : Prop where
  data : m.data = none ↔ m.actuallyAllocatedBytes = 0
  payload : m.singleElementSize * m.length ≤ sizeMax ∧ m.singleElementSize * m.length ≤ m.actuallyAllocatedBytes
  dataMode : m.isString = false → m.stringLength = 0
  string : m.isString = true → 0 < m.length → m.stringLength < m.length ∧
    element m.singleElementSize m.block m.stringLength = zeroElement UInt8 m.singleElementSize

def AllWellFormed (w : World) : Prop := ∀ m ∈ w.live, WellFormed m

/-- The sources of a client may be read. -/
def Served (operation : Operation) (s : State) : Prop := operation.Valid s.memory

/-- Besides, a wide text that is given up leaves the end of the old string alone. -/
def HarmlesslyServed (allocator : Allocator) (operation : Operation) (s : State) : Prop :=
  Served operation s ∧ operation.Harmless allocator s

theorem wellFormed_iff {m : Memory} (h : Sound m) : WellFormed m ↔ Terminated m := by
  constructor
  · intro hwell hstring hlength
    exact (hwell.string hstring hlength).2
  · intro hterminated
    refine ⟨h.allocated,⟨h.covered.trans h.addressable,h.covered⟩,h.dataMode,fun hstring hlength => ?_⟩
    have hinside := h.stringMode hstring
    exact ⟨by omega,hterminated hstring hlength⟩

theorem operation_wellFormed {allocator : Allocator} {s : State} (h : Sound s.memory) (hwell : WellFormed s.memory)
    {operation : Operation} (hvalid : operation.Valid s.memory)
    (hsource : ∀ other, operation.source = some other → Sound other) :
    WellFormed (operation.answer allocator s).state.memory ↔ operation.Harmless allocator s := by
  rw [wellFormed_iff (operation.sound h allocator)]
  exact Operation.terminated h ((wellFormed_iff h).mp hwell) allocator hvalid hsource

theorem operated_wellFormed {allocator : Allocator} {w w' : World} (hstep : Operated allocator (HarmlesslyServed allocator) w w')
    (hsound : ∀ m ∈ w.live, Sound m) (hwell : ∀ m ∈ w.live, WellFormed m) :
    (∀ m ∈ w'.live, Sound m) ∧ ∀ m ∈ w'.live, WellFormed m := by
  cases hstep with
  | create singleElementSize isString =>
    have hnew := sound_memInit singleElementSize isString
    constructor
    · exact List.forall_mem_cons.mpr ⟨hnew,hsound⟩
    · exact List.forall_mem_cons.mpr ⟨(wellFormed_iff hnew).mpr (terminated_memInit singleElementSize isString),hwell⟩
  | @operate m rest operation hlive hsource hallowed =>
    have hmem : ∀ other, other ∈ m :: rest → other ∈ w.live := fun other => hlive.mem_iff.mpr
    have hm := hsound m (hmem m List.mem_cons_self)
    have hothers : ∀ other ∈ rest, Sound other := fun other hother => hsound other (hmem other (List.mem_cons_of_mem m hother))
    constructor
    · exact List.forall_mem_cons.mpr ⟨operation.sound hm allocator,hothers⟩
    · refine List.forall_mem_cons.mpr ⟨?_,fun other hother => hwell other (hmem other (List.mem_cons_of_mem m hother))⟩
      apply (operation_wellFormed (s := w.focus m) hm (hwell m (hmem m List.mem_cons_self)) hallowed.1 ?_).mpr hallowed.2
      exact fun other hother => hothers other (hsource other hother)

theorem descriptors_wellFormed (allocator : Allocator) (w : World)
    (hrun : Relation.ReflTransGen (Operated allocator (HarmlesslyServed allocator)) World.start w) : AllWellFormed w := by
  have hboth : (∀ m ∈ w.live, Sound m) ∧ ∀ m ∈ w.live, WellFormed m := by
    induction hrun with
    | refl => exact ⟨nofun,nofun⟩
    | tail _ hstep ih => exact operated_wellFormed hstep ih.1 ih.2
  exact hboth.2

/-- The letter `A`. -/
def letter : WideFormat where
  rendered := some [65,0,0,0]
  leftover _ := []
  renderedWhole text htext := by
    obtain rfl := Option.some.inj htext
    decide
  leftoverWhole _ := Nat.dvd_zero _
  leftoverFits _ := Nat.zero_le _

/-- The letter `A` before an argument that cannot be converted. -/
def spoilt : WideFormat where
  rendered := none
  leftover capacity := if capacity = 0 then [] else [65,0,0,0]
  renderedWhole text htext := by cases htext
  leftoverWhole capacity := by
    split
    · exact Nat.dvd_zero _
    · decide
  leftoverFits capacity := by
    split
    · exact Nat.zero_le _
    · next hcapacity =>
      have hroom : sizeofWchar * 1 ≤ sizeofWchar * capacity := Nat.mul_le_mul_left _ (Nat.pos_of_ne_zero hcapacity)
      exact hroom

def wideString : State := ⟨memInit sizeofWchar true,.start,.start⟩

theorem operated_wideString {allocator : Allocator} {allowed : Operation → State → Prop} {operation : Operation}
    (hsource : operation.source = none) (hallowed : allowed operation wideString) :
    Relation.ReflTransGen (Operated allocator allowed) World.start ((operation.answer allocator wideString).state.among []) := by
  have hcreated : Operated allocator allowed World.start (wideString.among []) := .create sizeofWchar true
  refine (Relation.ReflTransGen.single hcreated).tail (.operate operation (List.Perm.refl _) (fun other hother => ?_) hallowed)
  rw [hsource] at hother
  cases hother

theorem descriptors_wellFormed_letter :
    AllWellFormed
      (((Operation.formattedWchar (some letter)).answer (fun _ _ => some fun _ => 7) wideString).state.among []) := by
  apply descriptors_wellFormed (fun _ _ => some fun _ => 7)
  apply operated_wideString rfl
  refine ⟨trivial,fun _ _ doublings hgivenUp => ?_⟩
  have hunfit := hgivenUp.unfit 0 (Nat.zero_le _)
  exact absurd hunfit (by decide)

/-- An allocator that serves one slab at a time. -/
def oneSlab : Allocator := fun _ bytes => if bytes ≤ memoryBlockBytes then some fun _ => 0 else none

theorem wideString_widened {doublings : ℕ} (hfirst : 1 ≤ doublings) (hlast : doublings ≤ 3) :
    wideString.reserve.widened doublings = ⟨⟨1,memoryBlockBytes,1,[]⟩,memoryBlockBytes⟩ := by
  interval_cases doublings <;> rfl

theorem spoilt_givenUp : spoilt.GivenUpAt oneSlab wideString.reserve 2 where
  within := by decide
  granted i hi := by
    have hbytes : wideBufferBytes i = memoryBlockBytes := by
      interval_cases i <;> rfl
    rw [Reserve.GrantsWide,Reserve.Granted,hbytes]
    by_cases hfirst : i = 0
    · have hserve : Heap.start.serve oneSlab 0 memoryBlockBytes = some fun _ => 0 := by
        rw [Heap.serve,if_pos (by decide)]
        exact if_pos le_rfl
      subst hfirst
      right
      change Heap.start.serve oneSlab 0 memoryBlockBytes ≠ none
      rw [hserve]
      exact Option.some_ne_none _
    · rw [wideString_widened (Nat.pos_of_ne_zero hfirst) (by omega)]
      exact .inl le_rfl
  unfit _ _ := rfl
  last := by
    have hbytes : wideBufferBytes 3 = 2 * memoryBlockBytes := rfl
    rw [Reserve.GrantsWide,Reserve.Granted,hbytes,wideString_widened (by decide) le_rfl]
    refine .inr (not_or.mpr ⟨by decide,?_⟩)
    exact not_not.mpr rfl

/-- The old string is empty, and gets the letter where it ended. -/
theorem wide_terminator_lost : ¬∀ (allocator : Allocator) (w : World),
    Relation.ReflTransGen (Operated allocator Served) World.start w → AllWellFormed w := by
  intro hall
  have hrun : Relation.ReflTransGen (Operated oneSlab Served) World.start
      (((Operation.formattedWchar (some spoilt)).answer oneSlab wideString).state.among []) := operated_wideString rfl trivial
  have hwell := hall oneSlab _ hrun _ List.mem_cons_self
  have hfresh : WellFormed wideString.memory :=
    (wellFormed_iff (sound_memInit sizeofWchar true)).mpr (terminated_memInit sizeofWchar true)
  have hvalid : (Operation.formattedWchar (some spoilt)).Valid wideString.memory := trivial
  have hharmless : (Operation.formattedWchar (some spoilt)).Harmless oneSlab wideString :=
    (operation_wellFormed (sound_memInit sizeofWchar true) hfresh hvalid (fun other hother => by cases hother)).mp hwell
  have hleft := hharmless rfl rfl 2 spoilt_givenUp
  exact absurd (hleft (by decide)) (by decide)

end Precizer.Guarantees
