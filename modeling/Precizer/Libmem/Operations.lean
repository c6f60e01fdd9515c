import Precizer.Libmem.BookKeeping

/-! # Operations on one descriptor

The public operations under one type. Each of them keeps its descriptor sound and the books
balanced; all but a wide text that is given up keep a string terminated.
-/
namespace Precizer.Libmem
open General

/-- An operation on a descriptor. Another descriptor that it reads is given as it is; `none` is the
destination itself. -/
inductive Operation
  | resize (newCount : ℕ) (flags : ResizeModes)
  | delete
  | copy (source : Option Memory)
  | data (transfer : TransferMode) (source : Option Memory)
  | buffer (transfer : TransferMode) (sizeBytes : ℕ) (source : Source)
  | string (mode : SourceMode) (transfer : TransferMode) (rangeBytes : ℕ) (source : Source)
  | concatStrings (source : Option Memory)
  | formattedChar (format : Option NarrowFormat)
  | formattedWchar (format : Option WideFormat)
  | truncate (newVisibleLength : ℕ)
  | finalize (writtenLength : ℕ) (flags : TerminatorWriteMode)
  | toString
  | toData

namespace Operation

def answer (allocator : Allocator) : Operation → State → Answer
  | .resize newCount flags,s => memResize allocator newCount flags s
  | .delete,s => memDelete s
  | .copy source,s => memCopy allocator source s
  | .data transfer source,s => memCoreData allocator transfer source s
  | .buffer transfer sizeBytes source,s => memCoreBuffer allocator transfer sizeBytes source s
  | .string mode transfer rangeBytes source,s => memCoreString allocator mode transfer rangeBytes source s
  | .concatStrings source,s => memConcatStrings allocator source s
  | .formattedChar format,s => memFormattedStringChar allocator format s
  | .formattedWchar format,s => memFormattedStringWchar allocator format s
  | .truncate newVisibleLength,s => s.alter (memStringTruncate · newVisibleLength)
  | .finalize writtenLength flags,s => s.alter (memFinalizeString · writtenLength flags)
  | .toString,s => memConvertDataToString allocator s
  | .toData,s => memConvertStringToData s

/-- The other descriptor that is read. -/
def source : Operation → Option Memory
  | .copy source => source
  | .data _ source => source
  | .concatStrings source => source
  | _ => none

/-- The external source may be read, and one of fixed size ends in its only zero element. -/
def Valid (m : Memory) : Operation → Prop
  | .buffer _ sizeBytes source => ValidBuffer m sizeBytes source
  | .string mode _ rangeBytes source => ValidSource m mode rangeBytes source
  | _ => True

/-- A wide text is not given up, or giving it up leaves the end of the old string alone. -/
def Harmless (allocator : Allocator) (s : State) : Operation → Prop
  | .formattedWchar (some format) => s.memory.isString = true → s.memory.singleElementSize = sizeofWchar →
      format.Harmless allocator s.reserve s.memory.stringLength
  | _ => True

section
variable {s : State} (h : Sound s.memory) (allocator : Allocator) (operation : Operation)
include h

theorem sound : Sound (operation.answer allocator s).state.memory := by
  cases operation with
  | resize newCount flags => exact (memResize_sound h allocator newCount flags).1
  | delete =>
    rw [answer,memDelete_memory h]
    exact sound_emptied _
  | copy source => exact memCopy_sound h allocator source
  | data transfer source => exact memCoreData_sound h allocator transfer source
  | buffer transfer sizeBytes source => exact memCoreBuffer_sound h allocator transfer sizeBytes source
  | string mode transfer rangeBytes source => exact memCoreString_sound h allocator mode transfer rangeBytes source
  | concatStrings source => exact memConcatStrings_sound h allocator source
  | formattedChar format => exact (memFormattedStringChar_keeps h allocator format).1
  | formattedWchar format => exact (memFormattedStringWchar_keeps h allocator format).1
  | truncate n =>
    apply alter_sound h
    intro m hm
    rcases memStringTruncate_cases h hm with rfl | ⟨hstring,hindex,rfl⟩
    · exact h
    · exact h.cutAt hstring hindex
  | finalize writtenLength flags =>
    apply alter_sound h
    intro m hm
    obtain ⟨hstring,hindex,rfl⟩ := memFinalizeString_sound h hm
    exact h.cutAt hstring hindex
  | toString => exact memConvertDataToString_sound h allocator
  | toData => exact memConvertStringToData_sound h

theorem keepsBooks : KeepsBooks s (operation.answer allocator s).state := by
  cases operation with
  | resize newCount flags => exact keepsBooks_memResize h allocator newCount flags
  | delete => exact keepsBooks_memDelete h
  | copy source => exact memCopy_tracks keepsBooks_tracks h allocator source
  | data transfer source => exact memCoreData_tracks keepsBooks_tracks h allocator transfer source
  | buffer transfer sizeBytes source => exact memCoreBuffer_tracks keepsBooks_tracks h allocator transfer sizeBytes source
  | string mode transfer rangeBytes source =>
    exact memCoreString_tracks keepsBooks_tracks h allocator mode transfer rangeBytes source
  | concatStrings source => exact memConcatStrings_tracks keepsBooks_tracks h allocator source
  | formattedChar format => exact memFormattedStringChar_tracks keepsBooks_tracks h allocator format
  | formattedWchar format => exact memFormattedStringWchar_tracks keepsBooks_tracks h allocator format
  | truncate n => exact keepsBooks_tracks.alter fun m hm => footprint_memStringTruncate h hm
  | finalize writtenLength flags => exact keepsBooks_tracks.alter fun m hm => footprint_memFinalizeString h hm
  | toString => exact memConvertDataToString_tracks keepsBooks_tracks h allocator
  | toData => exact keepsBooks_memConvertStringToData h

end

section
variable {s : State} (h : Sound s.memory) (hterminated : Terminated s.memory) (allocator : Allocator)
include h hterminated

theorem terminated_alter {change : Memory → Option Memory}
    (hchange : ∀ m, change s.memory = some m → m = s.memory ∨ ∃ index < s.memory.length, m = s.memory.cutAt index) :
    Terminated (s.alter change).state.memory := by
  rw [State.alter]
  split
  · exact hterminated
  · next m hm =>
    rcases hchange m hm with hsame | ⟨index,hindex,hcut⟩
    · exact hsame ▸ hterminated
    · exact hcut ▸ Memory.terminated_cutAt h hindex

theorem memCoreBuffer_terminated {transfer : TransferMode} {sizeBytes : ℕ} {source : Source}
    (hvalid : ValidBuffer s.memory sizeBytes source) :
    Terminated (memCoreBuffer allocator transfer sizeBytes source s).state.memory := by
  cases hsucceeded : (memCoreBuffer allocator transfer sizeBytes source s).succeeded with
  | false =>
    rw [memCoreBuffer_failed h hsucceeded]
    exact hterminated
  | true =>
    intro hstring
    rw [(memCoreBuffer_succeeded h hvalid hsucceeded).format.2] at hstring
    cases hstring

theorem memConvertDataToString_terminated : Terminated (memConvertDataToString allocator s).state.memory := by
  cases hmode : s.memory.isString with
  | true =>
    rw [memConvertDataToString_string h allocator hmode]
    exact hterminated
  | false =>
    obtain ⟨hbecame,hsame⟩ := memConvertDataToString_data h allocator hmode
    cases hsucceeded : (memConvertDataToString allocator s).succeeded with
    | true => exact (hbecame hsucceeded).terminated
    | false =>
      rw [hsame hsucceeded]
      exact hterminated

theorem memConvertStringToData_terminated : Terminated (memConvertStringToData s).state.memory := by
  rcases memConvertStringToData_cases h with hanswer | hanswer | ⟨-,-,hanswer⟩
  · rw [hanswer]
    exact hterminated
  · rw [hanswer]
    intro hstring
    cases hstring
  · rw [hanswer]
    intro hstring
    cases hstring

theorem terminated {operation : Operation} (hvalid : operation.Valid s.memory)
    (hsource : ∀ other, operation.source = some other → Sound other) :
    Terminated (operation.answer allocator s).state.memory ↔ operation.Harmless allocator s := by
  cases operation with
  | resize newCount flags => exact iff_of_true (memResize_keeps h hterminated allocator newCount flags).2 trivial
  | delete =>
    rw [answer,memDelete_memory h]
    exact iff_of_true (fun _ hlength => absurd hlength (lt_irrefl 0)) trivial
  | copy source => exact iff_of_true (memCopy_keeps h hterminated hsource allocator).2 trivial
  | data transfer source => exact iff_of_true (memCoreData_keeps h hterminated hsource allocator transfer).2 trivial
  | buffer transfer sizeBytes source => exact iff_of_true (memCoreBuffer_terminated h hterminated allocator hvalid) trivial
  | string mode transfer rangeBytes source => exact iff_of_true (memCoreString_keeps h hterminated (.inl hvalid)).2 trivial
  | concatStrings source => exact iff_of_true (memConcatStrings_keeps h hterminated hsource allocator).2 trivial
  | formattedChar format => exact iff_of_true ((memFormattedStringChar_keeps h allocator format).2 hterminated) trivial
  | formattedWchar format =>
    rw [answer,(memFormattedStringWchar_keeps h allocator format).2 hterminated]
    cases format with
    | none => exact iff_of_true (fun _ _ wide hwide => by cases hwide) trivial
    | some format =>
      constructor
      · exact fun hall hstring hwidth => hall hstring hwidth format rfl
      · rintro hharmless hstring hwidth wide hwide
        cases hwide
        exact hharmless hstring hwidth
  | truncate n =>
    refine iff_of_true (terminated_alter h hterminated fun m hm => ?_) trivial
    rcases memStringTruncate_cases h hm with hsame | ⟨-,hindex,hcut⟩
    · exact .inl hsame
    · exact .inr ⟨n,hindex,hcut⟩
  | finalize writtenLength flags =>
    refine iff_of_true (terminated_alter h hterminated fun m hm => ?_) trivial
    obtain ⟨-,hindex,hcut⟩ := memFinalizeString_sound h hm
    exact .inr ⟨writtenLength,hindex,hcut⟩
  | toString => exact iff_of_true (memConvertDataToString_terminated h hterminated allocator) trivial
  | toData => exact iff_of_true (memConvertStringToData_terminated h hterminated) trivial

end

end Operation

end Precizer.Libmem
