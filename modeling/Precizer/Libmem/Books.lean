import Precizer.Libmem.Tracking
import Mathlib.Algebra.BigOperators.Group.List.Basic
import Mathlib.Algebra.Order.BigOperators.Group.List

/-! # The books of the telemetry

Every counter is a sum over the live descriptors. Each step of the telemetry changes one sum by
what it books, and a resize books exactly what it does to its descriptor.
-/
namespace Precizer.Libmem
open General

theorem addFetch_eq {counter amount : ℕ} (h : counter + amount < 2 ^ 64) : addFetch counter amount = counter + amount :=
  Nat.mod_eq_of_lt h

theorem subFetch_eq {counter amount : ℕ} (h : amount ≤ counter) (hcounter : counter < 2 ^ 64) :
    subFetch counter amount = counter - amount := by
  rw [subFetch]
  omega

/-- The counters show these sums; what was acquired is what was released and what is still reserved. -/
structure Books (reserved payload overhead active : ℕ) (t : Telemetry) : Prop where
  reserved : t.currentHeapReservedBytes = reserved
  payload : t.currentPayloadBytes = payload
  overhead : t.currentBlockOverheadBytes = overhead
  active : t.currentActiveDescriptors = active
  acquired : t.totalHeapReservedBytesAcquired = addFetch t.totalHeapReservedBytesReleased t.currentHeapReservedBytes
  unwrapped : t.wrapped = false

namespace Books
variable {reserved payload overhead active : ℕ} {t : Telemetry} (h : Books reserved payload overhead active t) (amount : ℕ)
include h

theorem heapReservedBytesAcquired (hroom : reserved + amount < 2 ^ 64) :
    Books (reserved + amount) payload overhead active (t.heapReservedBytesAcquired amount) := by
  have hreserved : addFetch t.currentHeapReservedBytes amount = reserved + amount := by
    rw [h.reserved]
    exact addFetch_eq hroom
  refine ⟨hreserved,h.payload,h.overhead,h.active,?_,h.unwrapped⟩
  simp only [Telemetry.heapReservedBytesAcquired,h.acquired,h.reserved,addFetch]
  omega

theorem heapReservedBytesReleased (hheld : amount ≤ reserved) (hroom : reserved < 2 ^ 64) :
    Books (reserved - amount) payload overhead active
      ((t.currentHeapReservedBytesReleased amount).totalHeapReservedBytesReleasedAdded amount) := by
  have hreserved : subFetch reserved amount = reserved - amount := subFetch_eq hheld hroom
  refine ⟨(congrArg (subFetch · amount) h.reserved).trans hreserved,h.payload,h.overhead,h.active,?_,?_⟩
  · simp only [Telemetry.totalHeapReservedBytesReleasedAdded,Telemetry.currentHeapReservedBytesReleased,h.acquired,
      h.reserved,hreserved,addFetch]
    omega
  · simp [Telemetry.totalHeapReservedBytesReleasedAdded,Telemetry.currentHeapReservedBytesReleased,h.unwrapped,h.reserved,hheld]

theorem releaseUnusedBytesReleased :
    Books reserved payload overhead active (t.releaseUnusedBytesReleased amount) :=
  ⟨h.reserved,h.payload,h.overhead,h.active,h.acquired,h.unwrapped⟩

theorem payloadBytesAdded (hroom : payload + amount < 2 ^ 64) :
    Books reserved (payload + amount) overhead active (t.payloadBytesAdded amount) := by
  refine ⟨h.reserved,?_,h.overhead,h.active,h.acquired,h.unwrapped⟩
  rw [← h.payload]
  exact addFetch_eq (by rwa [h.payload])

theorem currentPayloadBytesRemoved (hheld : amount ≤ payload) (hroom : payload < 2 ^ 64) :
    Books reserved (payload - amount) overhead active (t.currentPayloadBytesRemoved amount) := by
  refine ⟨h.reserved,?_,h.overhead,h.active,h.acquired,?_⟩
  · rw [← h.payload]
    exact subFetch_eq (by rwa [h.payload]) (by rwa [h.payload])
  · simp [Telemetry.currentPayloadBytesRemoved,h.unwrapped,h.payload,hheld]

theorem blockOverheadBytesAdded (hroom : overhead + amount < 2 ^ 64) :
    Books reserved payload (overhead + amount) active (t.blockOverheadBytesAdded amount) := by
  rw [Telemetry.blockOverheadBytesAdded]
  split
  · next hzero => simpa [hzero] using h
  · refine ⟨h.reserved,h.payload,?_,h.active,h.acquired,h.unwrapped⟩
    rw [← h.overhead]
    exact addFetch_eq (by rwa [h.overhead])

theorem currentBlockOverheadBytesRemoved (hheld : amount ≤ overhead) (hroom : overhead < 2 ^ 64) :
    Books reserved payload (overhead - amount) active (t.currentBlockOverheadBytesRemoved amount) := by
  rw [Telemetry.currentBlockOverheadBytesRemoved]
  split
  · next hzero => simpa [hzero] using h
  · refine ⟨h.reserved,h.payload,?_,h.active,h.acquired,?_⟩
    · rw [← h.overhead]
      exact subFetch_eq (by rwa [h.overhead]) (by rwa [h.overhead])
    · simp [h.unwrapped,h.overhead,hheld]

theorem activeDescriptorsAcquired (hroom : active + 1 < 2 ^ 64) :
    Books reserved payload overhead (active + 1) t.activeDescriptorsAcquired := by
  have hactive : addFetch active 1 = active + 1 := addFetch_eq hroom
  rw [Telemetry.activeDescriptorsAcquired]
  exact ⟨h.reserved,h.payload,h.overhead,(congrArg (addFetch · 1) h.active).trans hactive,h.acquired,h.unwrapped⟩

theorem activeDescriptorsReleased (hheld : 1 ≤ active) (hroom : active < 2 ^ 64) :
    Books reserved payload overhead (active - 1) t.activeDescriptorsReleased := by
  have hactive : subFetch active 1 = active - 1 := subFetch_eq hheld hroom
  rw [Telemetry.activeDescriptorsReleased]
  refine ⟨h.reserved,h.payload,h.overhead,(congrArg (subFetch · 1) h.active).trans hactive,h.acquired,?_⟩
  simp only [h.unwrapped,h.active,Bool.false_or,decide_eq_false_iff_not]
  omega

end Books

def Memory.payloadBytes (m : Memory) : ℕ := m.singleElementSize * m.length

/-- The bytes of the block behind them. -/
def Memory.overheadBytes (m : Memory) : ℕ := m.actuallyAllocatedBytes - m.payloadBytes

def Memory.active (m : Memory) : ℕ := if m.data = none then 0 else 1

def total (part : Memory → ℕ) (live : List Memory) : ℕ := (live.map part).sum

@[simp] theorem total_cons (part : Memory → ℕ) (m : Memory) (live : List Memory) :
    total part (m :: live) = part m + total part live := by
  simp [total]

theorem total_perm (part : Memory → ℕ) {live live' : List Memory} (h : live.Perm live') : total part live = total part live' :=
  (h.map part).sum_eq

/-- The counters show the sums over the live descriptors, and the heap holds their blocks. -/
structure Balanced (live : List Memory) (t : Telemetry) (heap : Heap) : Prop where
  books : Books (total Memory.actuallyAllocatedBytes live) (total Memory.payloadBytes live) (total Memory.overheadBytes live)
    (total Memory.active live) t
  held : total Memory.actuallyAllocatedBytes live ≤ heap.liveBytes
  addressable : heap.liveBytes ≤ sizeMax

theorem balanced_perm {live live' : List Memory} {t : Telemetry} {heap : Heap} (hperm : live.Perm live')
    (h : Balanced live t heap) : Balanced live' t heap := by
  obtain ⟨hbooks,hheld,haddressable⟩ := h
  rw [total_perm _ hperm,total_perm Memory.payloadBytes hperm,total_perm Memory.overheadBytes hperm,
    total_perm Memory.active hperm] at hbooks
  rw [total_perm _ hperm] at hheld
  exact ⟨hbooks,hheld,haddressable⟩

theorem Sound.active_le {m : Memory} (h : Sound m) : m.active ≤ m.actuallyAllocatedBytes := by
  rw [Memory.active]
  split
  · exact Nat.zero_le _
  · next hdata => exact Nat.pos_of_ne_zero fun hzero => hdata (h.allocated.mpr hzero)

theorem total_le {live : List Memory} (h : ∀ m ∈ live, Sound m) :
    total Memory.payloadBytes live + total Memory.overheadBytes live = total Memory.actuallyAllocatedBytes live ∧
      total Memory.active live ≤ total Memory.actuallyAllocatedBytes live := by
  induction live with
  | nil => simp [total]
  | cons m live ih =>
    obtain ⟨hparts,hactive⟩ := ih fun other hother => h other (List.mem_cons_of_mem m hother)
    have hm := h m List.mem_cons_self
    have hcovered : m.payloadBytes ≤ m.actuallyAllocatedBytes := hm.covered
    have hm_active := hm.active_le
    simp only [total_cons,Memory.overheadBytes] at hparts ⊢
    omega

end Precizer.Libmem
