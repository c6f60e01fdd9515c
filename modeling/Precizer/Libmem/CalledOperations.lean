import Precizer.Libmem.TelemetryCalls
import Precizer.Libmem.Moves

/-! # What the operations call

All that an operation does to the byte counters is done by calls of the telemetry functions. The counters
of a run of operations are those of its calls one after another.
-/
namespace Precizer.Libmem
open General

/-- A number as a `size_t`. -/
def Size.of (n : ℕ) : Size := Fin.ofNat (2 ^ 64) n

theorem Size.of_addFetch (counter amount : ℕ) : Size.of (addFetch counter amount) = Size.of counter + Size.of amount := by
  apply Fin.ext
  simp [Size.of,addFetch,Fin.val_add,Nat.add_mod]

theorem Size.of_subFetch (counter amount : ℕ) : Size.of (subFetch counter amount) = Size.of counter - Size.of amount := by
  apply Fin.ext
  simp only [Size.of,subFetch,Fin.sub_def,Fin.ofNat]
  omega

theorem Size.of_total {ι : Type} [Fintype ι] (f : ι → ℕ) : Size.of (∑ i, f i) = ∑ i, Size.of (f i) := by
  have hadd : ∀ a b, Size.of (a + b) = Size.of a + Size.of b := by
    intro a b
    apply Fin.ext
    simp [Size.of,Fin.val_add,Nat.add_mod]
  exact map_sum (⟨⟨Size.of,rfl⟩,hadd⟩ : ℕ →+ Size) f Finset.univ

/-- The counters that the operations keep in step. -/
def Counter.kept : Counter → Bool
  | currentHeapReservedBytes => true
  | totalHeapReservedBytesAcquired => true
  | totalHeapReservedBytesReleased => true
  | totalReleaseUnusedHeapReservedBytesReleased => true
  | currentPayloadBytes => true
  | totalPayloadBytesAdded => true
  | currentBlockOverheadBytes => true
  | totalBlockOverheadBytesAdded => true
  | currentActiveDescriptors => true
  | _ => false

theorem keeps_of_kept {c : Counter} (hc : c.kept = true) (call : TelemetryCall) : Code.keeps c call.code = true := by
  refine List.all_eq_true.mpr fun x hx => ?_
  have hconsecutive : c ≠ .currentConsecutiveNoopResizes := by
    rintro rfl
    cases hc
  have hpeak : ∀ q, c.role ≠ .peak q := by
    intro q hq
    cases c <;> simp [Counter.kept,Counter.role] at hc hq
  cases x with
  | addFetch d a | add d a | sub d a => rfl
  | store d a =>
    refine decide_eq_true ?_
    rintro rfl
    cases call <;> simp_all [TelemetryCall.code,increment,TelemetryCall.mem_unlessZero]
  | raise p =>
    refine decide_eq_true ?_
    rintro rfl
    cases call <;> simp_all [TelemetryCall.code,increment,TelemetryCall.mem_unlessZero,Counter.role]

def Telemetry.shown (t : Telemetry) : Counter → Size
  | .currentHeapReservedBytes => .of t.currentHeapReservedBytes
  | .totalHeapReservedBytesAcquired => .of t.totalHeapReservedBytesAcquired
  | .totalHeapReservedBytesReleased => .of t.totalHeapReservedBytesReleased
  | .totalReleaseUnusedHeapReservedBytesReleased => .of t.totalReleaseUnusedHeapReservedBytesReleased
  | .currentPayloadBytes => .of t.currentPayloadBytes
  | .totalPayloadBytesAdded => .of t.totalPayloadBytesAdded
  | .currentBlockOverheadBytes => .of t.currentBlockOverheadBytes
  | .totalBlockOverheadBytesAdded => .of t.totalBlockOverheadBytesAdded
  | .currentActiveDescriptors => .of t.currentActiveDescriptors
  | _ => 0

def bookedBy (calls : List TelemetryCall) (c : Counter) : Size := (calls.map fun call => Code.booked c call.code).sum

def Accounts (calls : List TelemetryCall) (t t' : Telemetry) : Prop :=
  ∀ c, c.kept = true → t'.shown c = t.shown c + bookedBy calls c

theorem accounts_nil (t : Telemetry) : Accounts [] t t := fun _ _ => (add_zero _).symm

theorem accounts_append {a b : List TelemetryCall} {t u v : Telemetry} (ha : Accounts a t u) (hb : Accounts b u v) :
    Accounts (a ++ b) t v := by
  intro c hc
  rw [hb c hc,ha c hc,add_assoc]
  simp [bookedBy]

theorem booked_unlessZero {c : Counter} {amountOfBytes : Size} {code : Code Counter Size}
    (h : amountOfBytes = 0 → Code.booked c code = 0) : Code.booked c (unlessZero amountOfBytes code) = Code.booked c code := by
  unfold unlessZero
  split
  · rename_i hzero
    exact (h hzero).symm
  · rfl

theorem bookedBy_singleton (call : TelemetryCall) (c : Counter) : bookedBy [call] c = Code.booked c call.code := by
  simp [bookedBy]

theorem booked_nil (c : Counter) : Code.booked c ([] : Code Counter Size) = 0 := rfl

theorem Size.of_one : Size.of 1 = 1 := rfl

/-- A call of the telemetry and what it does to the counters of the model. -/
inductive Effect : TelemetryCall → Telemetry → Telemetry → Prop
  | reservedAcquired (t : Telemetry) (n : ℕ) :
    Effect (.heapReservedBytesAcquired (.of n)) t (t.heapReservedBytesAcquired n)
  | reservedReleased (t : Telemetry) (n : ℕ) :
    Effect (.currentHeapReservedBytesReleased (.of n)) t (t.currentHeapReservedBytesReleased n)
  | totalReleased (t : Telemetry) (n : ℕ) :
    Effect (.totalHeapReservedBytesReleased (.of n)) t (t.totalHeapReservedBytesReleasedAdded n)
  | unusedReleased (t : Telemetry) (n : ℕ) :
    Effect (.totalReleaseUnusedHeapReservedBytesReleased (.of n)) t (t.releaseUnusedBytesReleased n)
  | payloadAdded (t : Telemetry) (n : ℕ) : Effect (.payloadBytesAdded (.of n)) t (t.payloadBytesAdded n)
  | payloadRemoved (t : Telemetry) (n : ℕ) :
    Effect (.currentPayloadBytesRemoved (.of n)) t (t.currentPayloadBytesRemoved n)
  | overheadAdded (t : Telemetry) (n : ℕ) :
    Effect (.blockOverheadBytesAdded (.of n)) t (t.blockOverheadBytesAdded n)
  | overheadRemoved (t : Telemetry) (n : ℕ) :
    Effect (.currentBlockOverheadBytesRemoved (.of n)) t (t.currentBlockOverheadBytesRemoved n)
  | acquired (t : Telemetry) : Effect .activeDescriptorsAcquired t t.activeDescriptorsAcquired
  | released (t : Telemetry) : Effect .activeDescriptorsReleased t t.activeDescriptorsReleased

/-- What a call books is what it does to the counters. -/
theorem Effect.accounts {call : TelemetryCall} {t t' : Telemetry} (h : Effect call t t') : Accounts [call] t t' := by
  have hnothing : ∀ code : Code Counter Size, unlessZero (Size.of 0) code = [] := fun _ => if_pos rfl
  intro c hc
  rw [bookedBy_singleton]
  cases h
  case overheadAdded n | overheadRemoved n =>
    by_cases hn : n = 0
    · subst hn
      rw [TelemetryCall.code,hnothing,booked_nil,add_zero]
      rfl
    · cases c <;> simp only [Counter.kept,Bool.false_eq_true] at hc <;>
        simp +contextual [TelemetryCall.code,booked_nil,Instruction.booked,booked_unlessZero,Telemetry.shown,
          Telemetry.blockOverheadBytesAdded,Telemetry.currentBlockOverheadBytesRemoved,Size.of_addFetch,Size.of_subFetch,
          sub_eq_add_neg,hn]
  all_goals
    cases c <;> simp only [Counter.kept,Bool.false_eq_true] at hc <;>
      simp +contextual [TelemetryCall.code,booked_nil,Instruction.booked,booked_unlessZero,Telemetry.shown,
        Telemetry.heapReservedBytesAcquired,Telemetry.currentHeapReservedBytesReleased,
        Telemetry.totalHeapReservedBytesReleasedAdded,Telemetry.releaseUnusedBytesReleased,Telemetry.payloadBytesAdded,
        Telemetry.currentPayloadBytesRemoved,Telemetry.activeDescriptorsAcquired,Telemetry.activeDescriptorsReleased,
        Size.of_addFetch,Size.of_subFetch,Size.of_one,sub_eq_add_neg]

theorem Effect.then {call : TelemetryCall} {rest : List TelemetryCall} {t u v : Telemetry} (hcall : Effect call t u)
    (hrest : Accounts rest u v) : Accounts (call :: rest) t v := accounts_append hcall.accounts hrest

/-! ## The calls of the operations

The calls about the kept counters, in the order of the source.
-/

def reserveCalls (m : Memory) (slabBytes : ℕ) : List TelemetryCall :=
  if m.data = none then [.activeDescriptorsAcquired,.heapReservedBytesAcquired (.of slabBytes)]
  else if m.actuallyAllocatedBytes < slabBytes then
    [.heapReservedBytesAcquired (.of (slabBytes - m.actuallyAllocatedBytes))]
  else if slabBytes < m.actuallyAllocatedBytes then
    let reclaimed := Size.of (m.actuallyAllocatedBytes - slabBytes)
    [.totalReleaseUnusedHeapReservedBytesReleased reclaimed,.currentHeapReservedBytesReleased reclaimed,
      .totalHeapReservedBytesReleased reclaimed]
  else []

def payloadCalls (previous total : ℕ) : List TelemetryCall :=
  if previous < total then [.payloadBytesAdded (.of (total - previous))]
  else if total < previous then [.currentPayloadBytesRemoved (.of (previous - total))]
  else []

def overheadCalls (previous overhead : ℕ) : List TelemetryCall :=
  if previous < overhead then [.blockOverheadBytesAdded (.of (overhead - previous))]
  else if overhead < previous then [.currentBlockOverheadBytesRemoved (.of (previous - overhead))]
  else []

def emptyingCalls (bytes : ℕ) : List TelemetryCall :=
  if 0 < bytes then [.currentPayloadBytesRemoved (.of bytes),.blockOverheadBytesAdded (.of bytes)] else []

/-- The block is given back. -/
def releaseCalls (m : Memory) : List TelemetryCall :=
  if m.data = none then []
  else if 0 < m.actuallyAllocatedBytes then
    [.currentHeapReservedBytesReleased (.of m.actuallyAllocatedBytes),
      .totalHeapReservedBytesReleased (.of m.actuallyAllocatedBytes),.activeDescriptorsReleased]
  else [.activeDescriptorsReleased]

/-- The calls of `mem_delete`. -/
def deleteCalls (m : Memory) : List TelemetryCall :=
  releaseCalls m ++ (if 0 < m.payloadBytes then [.currentPayloadBytesRemoved (.of m.payloadBytes)] else []) ++
    if 0 < m.overheadBytes then [.currentBlockOverheadBytesRemoved (.of m.overheadBytes)] else []

/-- The calls of `mem_resize`, by what it answers. The present length asks for none of them. -/
def resizeCalls (m : Memory) (newCount : ℕ) (flags : ResizeModes) (answer : Answer) : List TelemetryCall :=
  if answer.succeeded = false then []
  else if newCount = 0 then
    if flags.releaseUnused = true ∧ 0 < m.actuallyAllocatedBytes then
      .totalReleaseUnusedHeapReservedBytesReleased (.of m.actuallyAllocatedBytes) :: deleteCalls m
    else emptyingCalls m.payloadBytes
  else
    let total := m.singleElementSize * newCount
    reserveCalls m answer.state.memory.actuallyAllocatedBytes ++ payloadCalls m.payloadBytes total ++
      overheadCalls m.overheadBytes (answer.state.memory.actuallyAllocatedBytes - total)

/-- The calls of `mem_convert_string_to_data`, which drops the terminator of a string. -/
def conversionCalls (m : Memory) (answer : Answer) : List TelemetryCall :=
  if answer.state.memory.length = m.length then [] else emptyingCalls m.singleElementSize

theorem resizeCalls_succeeded {m : Memory} {newCount : ℕ} {flags : ResizeModes} {answer : Answer}
    (hok : answer.succeeded = true) : resizeCalls m newCount flags answer =
      if newCount = 0 then
        if flags.releaseUnused = true ∧ 0 < m.actuallyAllocatedBytes then
          .totalReleaseUnusedHeapReservedBytesReleased (.of m.actuallyAllocatedBytes) :: deleteCalls m
        else emptyingCalls m.payloadBytes
      else reserveCalls m answer.state.memory.actuallyAllocatedBytes ++
        payloadCalls m.payloadBytes (m.singleElementSize * newCount) ++
        overheadCalls m.overheadBytes (answer.state.memory.actuallyAllocatedBytes - m.singleElementSize * newCount) := by
  rw [resizeCalls,if_neg (by rw [hok]; decide)]

theorem accounts_reserveCalls (t : Telemetry) (m : Memory) (slabBytes : ℕ) :
    Accounts (reserveCalls m slabBytes) t (t.reserveChanged m slabBytes) := by
  unfold reserveCalls Telemetry.reserveChanged
  split
  · exact (Effect.acquired _).then ((Effect.reservedAcquired _ _).then (accounts_nil _))
  split
  · exact (Effect.reservedAcquired _ _).then (accounts_nil _)
  split
  · exact (Effect.unusedReleased _ _).then ((Effect.reservedReleased _ _).then
      ((Effect.totalReleased _ _).then (accounts_nil _)))
  · exact accounts_nil t

theorem accounts_payloadCalls (t : Telemetry) (previous total : ℕ) :
    Accounts (payloadCalls previous total) t (t.payloadChanged previous total) := by
  unfold payloadCalls Telemetry.payloadChanged
  split
  · exact (Effect.payloadAdded _ _).then (accounts_nil _)
  split
  · exact (Effect.payloadRemoved _ _).then (accounts_nil _)
  · exact accounts_nil t

theorem accounts_overheadCalls (t : Telemetry) (previous overhead : ℕ) :
    Accounts (overheadCalls previous overhead) t (t.overheadChanged previous overhead) := by
  unfold overheadCalls Telemetry.overheadChanged
  split
  · exact (Effect.overheadAdded _ _).then (accounts_nil _)
  split
  · exact (Effect.overheadRemoved _ _).then (accounts_nil _)
  · exact accounts_nil t

theorem accounts_emptyingCalls (t : Telemetry) {bytes : ℕ} (h : 0 < bytes) :
    Accounts (emptyingCalls bytes) t ((t.currentPayloadBytesRemoved bytes).blockOverheadBytesAdded bytes) := by
  unfold emptyingCalls
  rw [if_pos h]
  exact (Effect.payloadRemoved _ _).then ((Effect.overheadAdded _ _).then (accounts_nil _))

section
variable {s : State} (h : Sound s.memory)
include h

theorem accounts_deleteCalls : Accounts (deleteCalls s.memory) s.telemetry (memDelete s).state.telemetry := by
  have hblock : Accounts (releaseCalls s.memory) s.telemetry (if s.memory.data = none then s.telemetry
      else (if 0 < s.memory.actuallyAllocatedBytes then
        (s.telemetry.currentHeapReservedBytesReleased
          s.memory.actuallyAllocatedBytes).totalHeapReservedBytesReleasedAdded s.memory.actuallyAllocatedBytes
        else s.telemetry).activeDescriptorsReleased) := by
    unfold releaseCalls
    split
    · exact accounts_nil _
    split
    · exact (Effect.reservedReleased _ _).then ((Effect.totalReleased _ _).then
        ((Effect.released _).then (accounts_nil _)))
    · exact (Effect.released _).then (accounts_nil _)
  have hoverhead (t : Telemetry) : Accounts (if 0 < s.memory.overheadBytes then
      [.currentBlockOverheadBytesRemoved (.of s.memory.overheadBytes)] else []) t
      (t.currentBlockOverheadBytesRemoved s.memory.overheadBytes) := by
    split
    · exact (Effect.overheadRemoved _ _).then (accounts_nil _)
    · rename_i hnone
      rw [Telemetry.currentBlockOverheadBytesRemoved,if_pos (by omega)]
      exact accounts_nil t
  rw [memDelete_telemetry h]
  refine accounts_append ?_ (hoverhead _)
  split
  · exact accounts_append hblock ((Effect.payloadRemoved _ _).then (accounts_nil _))
  · exact accounts_append hblock (accounts_nil _)

theorem accounts_resizeCalls (allocator : Allocator) (newCount : ℕ) (flags : ResizeModes) :
    Accounts (resizeCalls s.memory newCount flags (memResize allocator newCount flags s)) s.telemetry
      (memResize allocator newCount flags s).state.telemetry := by
  have hcases := memResize_cases h allocator newCount flags
  generalize memResize allocator newCount flags s = answer at hcases ⊢
  cases hcases with
  | refused heap hheap reason => exact accounts_nil _
  | kept hcount hempty =>
    subst hcount
    have hcalls : resizeCalls s.memory s.memory.length flags s.succeed = [] := by
      rw [resizeCalls_succeeded rfl]
      split
      · rename_i hnothing
        have hreserve : ¬ (flags.releaseUnused = true ∧ 0 < s.memory.actuallyAllocatedBytes) := fun hrelease =>
          absurd (hempty hnothing hrelease.1) (by omega)
        rw [if_neg hreserve,emptyingCalls,if_neg (by simp [Memory.payloadBytes,hnothing])]
      · rename_i hsomething
        have hdata : s.memory.data ≠ none := h.data_of_length (by omega)
        simp [State.succeed,reserveCalls,payloadCalls,overheadCalls,hdata,Memory.payloadBytes,Memory.overheadBytes]
    rw [hcalls]
    exact accounts_nil _
  | released hcount hflag hallocated hdelete =>
    have hcalls := (Effect.unusedReleased s.telemetry s.memory.actuallyAllocatedBytes).then
      (accounts_deleteCalls (s := ⟨s.memory,s.telemetry.releaseUnusedBytesReleased s.memory.actuallyAllocatedBytes,s.heap⟩) h)
    rw [resizeCalls_succeeded hdelete,if_pos hcount,if_pos ⟨hflag,hallocated⟩]
    exact hcalls
  | emptied hcount hlength hkeep memory hmemory =>
    have hpayload : 0 < s.memory.payloadBytes :=
      Nat.mul_pos (Nat.pos_of_ne_zero fun hwidth => absurd (h.initialized hwidth).1 (by omega)) hlength
    rw [resizeCalls_succeeded rfl,if_pos hcount,if_neg hkeep]
    exact accounts_emptyingCalls s.telemetry hpayload
  | sized hcount hwidth block heap hblock hheap =>
    have hreserve : (s.memory.resized block newCount flags).actuallyAllocatedBytes = block.length := by
      unfold Memory.resized
      split <;> rfl
    rw [resizeCalls_succeeded rfl,if_neg hcount]
    dsimp only [State.succeed]
    rw [hreserve]
    exact accounts_append (accounts_append (accounts_reserveCalls _ _ _) (accounts_payloadCalls _ _ _))
      (accounts_overheadCalls _ _ _)

theorem accounts_conversionCalls : Accounts (conversionCalls s.memory (memConvertStringToData s)) s.telemetry
    (memConvertStringToData s).state.telemetry := by
  rcases memConvertStringToData_cases h with hanswer | hanswer | ⟨hwidth,hlength,hanswer⟩
  · rw [hanswer,conversionCalls,if_pos]
    · exact accounts_nil _
    · rfl
  · rw [hanswer,conversionCalls,if_pos]
    · exact accounts_nil _
    · rfl
  · rw [hanswer,conversionCalls,if_neg]
    · exact accounts_emptyingCalls s.telemetry (by omega)
    · change ¬ s.memory.length - 1 = s.memory.length
      omega

end

inductive Issued : List TelemetryCall → Telemetry → Telemetry → Prop
  | nothing (t : Telemetry) : Issued [] t t
  | resize {s : State} (h : Sound s.memory) (allocator : Allocator) (newCount : ℕ) (flags : ResizeModes) :
    Issued (resizeCalls s.memory newCount flags (memResize allocator newCount flags s)) s.telemetry
      (memResize allocator newCount flags s).state.telemetry
  | delete {s : State} (h : Sound s.memory) : Issued (deleteCalls s.memory) s.telemetry (memDelete s).state.telemetry
  | convert {s : State} (h : Sound s.memory) :
    Issued (conversionCalls s.memory (memConvertStringToData s)) s.telemetry (memConvertStringToData s).state.telemetry
  | append {a b : List TelemetryCall} {t u v : Telemetry} (ha : Issued a t u) (hb : Issued b u v) : Issued (a ++ b) t v

theorem Issued.accounts {calls : List TelemetryCall} {t t' : Telemetry} (h : Issued calls t t') :
    Accounts calls t t' := by
  induction h with
  | nothing t => exact accounts_nil t
  | resize h allocator newCount flags => exact accounts_resizeCalls h allocator newCount flags
  | delete h => exact accounts_deleteCalls h
  | convert h => exact accounts_conversionCalls h
  | append _ _ iha ihb => exact accounts_append iha ihb

/-- All that happened to the telemetry are such calls. -/
def Called (t t' : Telemetry) : Prop := ∃ calls, Issued calls t t'

theorem called_refl (t : Telemetry) : Called t t := ⟨[],.nothing t⟩

theorem called_trans {t u v : Telemetry} (htu : Called t u) (huv : Called u v) : Called t v := by
  obtain ⟨a,ha⟩ := htu
  obtain ⟨b,hb⟩ := huv
  exact ⟨a ++ b,ha.append hb⟩

section
variable {s : State} (h : Sound s.memory)
include h

theorem called_memResize (allocator : Allocator) (newCount : ℕ) (flags : ResizeModes) :
    Called s.telemetry (memResize allocator newCount flags s).state.telemetry := ⟨_,.resize h allocator newCount flags⟩

theorem called_memDelete : Called s.telemetry (memDelete s).state.telemetry := ⟨_,.delete h⟩

omit h in
theorem called_tracks : Tracks fun s s' => Called s.telemetry s'.telemetry where
  refl s := called_refl s.telemetry
  trans := called_trans
  resize allocator newCount flags h _ := called_memResize h allocator newCount flags
  write _ _ := called_refl _

theorem Operation.called (allocator : Allocator) (operation : Operation) :
    Called s.telemetry (operation.answer allocator s).state.telemetry := by
  cases operation with
  | resize newCount flags => exact called_memResize h allocator newCount flags
  | delete => exact called_memDelete h
  | copy source => exact memCopy_tracks called_tracks h allocator source
  | data transfer source => exact memCoreData_tracks called_tracks h allocator transfer source
  | buffer transfer sizeBytes source => exact memCoreBuffer_tracks called_tracks h allocator transfer sizeBytes source
  | string mode transfer rangeBytes source =>
    exact memCoreString_tracks called_tracks h allocator mode transfer rangeBytes source
  | concatStrings source => exact memConcatStrings_tracks called_tracks h allocator source
  | formattedChar format => exact memFormattedStringChar_tracks called_tracks h allocator format
  | formattedWchar format => exact memFormattedStringWchar_tracks called_tracks h allocator format
  | truncate n => exact called_tracks.alter fun m hm => footprint_memStringTruncate h hm
  | finalize writtenLength flags => exact called_tracks.alter fun m hm => footprint_memFinalizeString h hm
  | toString => exact memConvertDataToString_tracks called_tracks h allocator
  | toData => exact ⟨_,.convert h⟩

end

theorem Moves.called {allocator : Allocator} {w w' : World} (hmoves : Moves allocator w w') (h : w.Booked) :
    Called w.telemetry w'.telemetry := by
  induction hmoves with
  | refl => exact called_refl _
  | tail hbefore hmove ih =>
    refine called_trans ih ?_
    have hbooked := Moves.booked hbefore h
    cases hmove with
    | operated hoperated =>
      cases hoperated with
      | create singleElementSize isString => exact called_refl _
      | @operate m rest operation hlive =>
        exact Operation.called (s := World.focus _ m) (hbooked.sound_focus hlive) allocator operation
    | write | forget | reorder => exact called_refl _

end Precizer.Libmem
