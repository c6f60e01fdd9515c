import Precizer.Libmem.StringSources

/-! # String transfer

A transfer to a string has the effect of the list operation on visible strings, also when the
source lies in the string itself.
-/
namespace Precizer.Guarantees
open General Libmem

/-- A transfer of a valid source that succeeds appends or replaces by what is visible of it, and
a transfer that fails leaves the descriptor as it was, whatever the source. -/
structure StringTransfer (mode : SourceMode) (transfer : TransferMode) (rangeBytes : ℕ) (source : Source) (s : State)
    (answer : Answer) : Prop where
  succeeded : ValidSource s.memory mode rangeBytes source → answer.succeeded = true →
    Transferred s.memory transfer (visibleSource s.memory mode rangeBytes source) answer.state.memory
  failed : answer.succeeded = false → answer.state.memory = s.memory

theorem memCoreString_transfers (allocator : Allocator) (mode : SourceMode) (transfer : TransferMode) (rangeBytes : ℕ)
    (source : Source) (s : State) (h : Sound s.memory) (hterminated : Terminated s.memory) :
    StringTransfer mode transfer rangeBytes source s (memCoreString allocator mode transfer rangeBytes source s) :=
  ⟨fun hvalid hsucceeded => memCoreString_succeeded h hterminated hvalid hsucceeded,
    fun hfailed => memCoreString_failed h hterminated hfailed⟩

/-- The string `AB` of two-byte elements is followed by its own end. -/
theorem memCoreString_transfers_again :
    (writtenString 2 [65,0,66,0,0,0]).memory.visibleString = [65,0,66,0] ∧
      StringTransfer .unbounded .append 0 (.inside 2) (writtenString 2 [65,0,66,0,0,0])
        (memCoreString (fun _ _ => some fun _ => 7) .unbounded .append 0 (.inside 2)
          (writtenString 2 [65,0,66,0,0,0])) :=
  ⟨by decide +kernel,memCoreString_transfers _ _ _ _ _ _ (writtenString_keeps (by decide)).1
    (writtenString_keeps (by decide)).2⟩

/-- An append of nothing to a fresh string succeeds without a terminator: there is no block. -/
theorem append_nothing_unterminated :
    ∃ s : State, Sound s.memory ∧ Terminated s.memory ∧ s.memory.isString = true ∧
      ValidSource s.memory .unbounded 0 (.outside [0]) ∧
      ∀ allocator, (memCoreString allocator .unbounded .append 0 (.outside [0]) s).succeeded = true ∧
        ¬ element 1 (memCoreString allocator .unbounded .append 0 (.outside [0]) s).state.memory.block
          (memCoreString allocator .unbounded .append 0 (.outside [0]) s).state.memory.stringLength =
            zeroElement UInt8 1 := by
  refine ⟨⟨memInit 1 true,.start,.start⟩,sound_memInit 1 true,terminated_memInit 1 true,rfl,?_,fun allocator => ?_⟩
  · show firstZero 1 1 [(0 : UInt8)] < 1
    decide
  · have hanswer : memCoreString allocator .unbounded .append 0 (.outside [0]) ⟨memInit 1 true,.start,.start⟩ =
        State.succeed ⟨memInit 1 true,.start,.start⟩ := rfl
    rw [hanswer]
    exact ⟨rfl,by decide⟩

end Precizer.Guarantees
