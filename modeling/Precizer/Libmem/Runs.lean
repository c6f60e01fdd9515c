import Precizer.Libmem.Operations
import Precizer.Libmem.StringArrayRules
import Mathlib.Logic.Relation

/-! # Runs of operations

A world is a set of live descriptors with the counters and the heap that they share. A client
creates descriptors and calls operations on them in any order; with arrays it also appends
elements, deletes them with their root and stores bytes where descriptors let it.
-/
namespace Precizer.Libmem
open General

structure World where
  live : List Memory
  telemetry : Telemetry
  heap : Heap

def World.start : World := ⟨[],Telemetry.start,Heap.start⟩

/-- What an operation on one live descriptor works on. -/
def World.focus (w : World) (m : Memory) : State := ⟨m,w.telemetry,w.heap⟩

/-- The world after an operation, with the descriptors it did not work on. -/
def State.among (s : State) (rest : List Memory) : World := ⟨s.memory :: rest,s.telemetry,s.heap⟩

/-- A descriptor is created, or an allowed operation is called on a live one. -/
inductive Operated (allocator : Allocator) (allowed : Operation → State → Prop) (w : World) : World → Prop
  | create (singleElementSize : ℕ) (isString : Bool) :
      Operated allocator allowed w { w with live := memInit singleElementSize isString :: w.live }
  | operate {m : Memory} {rest : List Memory} (operation : Operation) (hlive : w.live.Perm (m :: rest))
      (hsource : ∀ other, operation.source = some other → other ∈ rest) (hallowed : allowed operation (w.focus m)) :
      Operated allocator allowed w ((operation.answer allocator (w.focus m)).state.among rest)

/-- The elements of a root are live descriptors whose images are its payload. An element that was
changed in place is an operation and a store of its new image. -/
inductive Step (layout : DescriptorLayout) (allocator : Allocator) (w : World) : World → Prop
  | operated {w' : World} (hoperated : Operated allocator (fun _ _ => True) w w') : Step layout allocator w w'
  | store {m : Memory} {rest : List Memory} (offset : ℕ) (bytes : List UInt8) (hlive : w.live.Perm (m :: rest))
      (hroom : offset + bytes.length ≤ m.singleElementSize * m.length) :
      Step layout allocator w (State.among (w.focus (m.written offset bytes)) rest)
  | append {root : Memory} {rest : List Memory} (mode : SourceMode) (singleElementSize rangeBytes : ℕ) (source : Source)
      (hlive : w.live.Perm (root :: rest)) {answer : ArrayAnswer}
      (hanswer : answer = memStringArrayCore layout allocator mode singleElementSize rangeBytes source (w.focus root)) :
      Step layout allocator w (answer.state.among (answer.appended.toList ++ rest))
  | deleteArray {root : Memory} {elements rest : List Memory} (hlive : w.live.Perm (root :: (elements ++ rest)))
      (hheld : root.payload = (elements.map layout.image).flatten) {deleted : Answer × List Memory}
      (hanswer : deleted = memArrayDelete elements (w.focus root)) :
      Step layout allocator w (deleted.1.state.among (deleted.2 ++ rest))

structure World.Booked (w : World) : Prop where
  sound : ∀ m ∈ w.live, Sound m
  balanced : Balanced w.live w.telemetry w.heap

theorem booked_start : World.start.Booked where
  sound _ hm := by cases hm
  balanced := ⟨⟨rfl,rfl,rfl,rfl,rfl,rfl⟩,le_rfl,Nat.zero_le _⟩

/-- A descriptor without a block is not in the books. -/
theorem balanced_idle {m : Memory} (hallocated : m.actuallyAllocatedBytes = 0) (hlength : m.length = 0) (hdata : m.data = none)
    {rest : List Memory} {t : Telemetry} {heap : Heap} : Balanced (m :: rest) t heap ↔ Balanced rest t heap := by
  have hpayload : m.payloadBytes = 0 := by
    rw [Memory.payloadBytes,hlength,Nat.mul_zero]
  have hoverhead : m.overheadBytes = 0 := by
    rw [Memory.overheadBytes,hallocated,Nat.zero_sub]
  have hactive : m.active = 0 := if_pos hdata
  rw [balanced_cons,hallocated,hpayload,hoverhead,hactive]
  simp only [Nat.zero_add]
  constructor
  · rintro ⟨hbooks,hheld,haddressable⟩
    exact ⟨hbooks,hheld,haddressable⟩
  · rintro ⟨hbooks,hheld,haddressable⟩
    exact ⟨hbooks,hheld,haddressable⟩

namespace World.Booked
variable {w : World} (h : w.Booked)
include h

theorem perm {live : List Memory} (hlive : w.live.Perm live) : World.Booked ⟨live,w.telemetry,w.heap⟩ where
  sound m hm := h.sound m (hlive.mem_iff.mpr hm)
  balanced := balanced_perm hlive h.balanced

theorem create (singleElementSize : ℕ) (isString : Bool) :
    World.Booked { w with live := memInit singleElementSize isString :: w.live } where
  sound m hm := by
    rcases List.mem_cons.mp hm with rfl | hm
    · exact sound_memInit singleElementSize isString
    · exact h.sound m hm
  balanced := (balanced_idle rfl rfl rfl).mpr h.balanced

section
variable {m : Memory} {rest : List Memory} (hlive : w.live.Perm (m :: rest))
include hlive

theorem sound_focus : Sound m := h.sound m (hlive.mem_iff.mpr List.mem_cons_self)

theorem sound_rest : ∀ other ∈ rest, Sound other := fun other hother =>
  h.sound other (hlive.mem_iff.mpr (List.mem_cons_of_mem m hother))

theorem among {s : State} (hsound : Sound s.memory) (hkeeps : KeepsBooks (w.focus m) s) : (s.among rest).Booked where
  sound := by
    intro other hother
    rcases List.mem_cons.mp hother with rfl | hrest
    · exact hsound
    · exact h.sound_rest hlive other hrest
  balanced := hkeeps rest (h.sound_rest hlive) (h.perm hlive).balanced

theorem operate (allocator : Allocator) (operation : Operation) :
    ((operation.answer allocator (w.focus m)).state.among rest).Booked :=
  h.among hlive (operation.sound (s := w.focus m) (h.sound_focus hlive) allocator)
    (operation.keepsBooks (s := w.focus m) (h.sound_focus hlive) allocator)

theorem store {offset : ℕ} {bytes : List UInt8} (hroom : offset + bytes.length ≤ m.singleElementSize * m.length) :
    (State.among (w.focus (m.written offset bytes)) rest).Booked :=
  h.among hlive ((h.sound_focus hlive).written (hroom.trans (h.sound_focus hlive).covered))
    (keepsBooks_write (s := w.focus m) _ (footprint_written m offset bytes))

end

theorem operated {allocator : Allocator} {allowed : Operation → State → Prop} {w' : World}
    (hoperated : Operated allocator allowed w w') : w'.Booked := by
  cases hoperated with
  | create singleElementSize isString => exact h.create singleElementSize isString
  | operate operation hlive => exact h.operate hlive allocator operation

end World.Booked

end Precizer.Libmem
