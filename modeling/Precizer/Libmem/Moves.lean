import Precizer.Libmem.Ledger
import Precizer.Libmem.Runs

/-! # Moves

What a client does with arrays is made of operations on single descriptors, of writes that leave
the size of a descriptor alone, and of descriptors without a block that come and go. What these
moves keep, every run keeps.
-/
namespace Precizer.Libmem
open General

/-- A step that concerns one descriptor. -/
inductive Move (allocator : Allocator) (w : World) : World → Prop
  | operated {w' : World} (hoperated : Operated allocator (fun _ _ => True) w w') : Move allocator w w'
  | write {m m' : Memory} {rest : List Memory} (hlive : w.live.Perm (m :: rest)) (hsound : Sound m')
      (hfootprint : m'.footprint = m.footprint) : Move allocator w (State.among (w.focus m') rest)
  | forget {m : Memory} {rest : List Memory} (hlive : w.live.Perm (m :: rest)) (hdata : m.data = none) :
      Move allocator w ⟨rest,w.telemetry,w.heap⟩
  | reorder {live : List Memory} (hlive : w.live.Perm live) : Move allocator w ⟨live,w.telemetry,w.heap⟩

abbrev Moves (allocator : Allocator) : World → World → Prop := Relation.ReflTransGen (Move allocator)

variable {allocator : Allocator} {w : World}

theorem Sound.idle {m : Memory} (h : Sound m) (hdata : m.data = none) : m.actuallyAllocatedBytes = 0 ∧ m.length = 0 :=
  ⟨h.allocated.mp hdata,Nat.eq_zero_of_not_pos fun hlength => h.payload_present ⟨hlength,hdata⟩⟩

theorem Move.booked {w' : World} (hmove : Move allocator w w') (h : w.Booked) : w'.Booked := by
  cases hmove with
  | operated hoperated => exact h.operated hoperated
  | write hlive hsound hfootprint => exact h.among hlive hsound (keepsBooks_write _ hfootprint)
  | @forget m rest hlive hdata =>
    obtain ⟨hallocated,hlength⟩ := (h.sound_focus hlive).idle hdata
    refine ⟨h.sound_rest hlive,?_⟩
    exact (balanced_idle hallocated hlength hdata).mp (h.perm hlive).balanced
  | reorder hlive => exact h.perm hlive

theorem Moves.booked {w' : World} (hmoves : Moves allocator w w') (h : w.Booked) : w'.Booked := by
  induction hmoves with
  | refl => exact h
  | tail _ hmove ih => exact hmove.booked ih

section
variable {m : Memory} {rest : List Memory}

theorem moves_operation (hlive : w.live.Perm (m :: rest)) (operation : Operation) (hsource : operation.source = none) :
    Moves allocator w ((operation.answer allocator (w.focus m)).state.among rest) := by
  refine Relation.ReflTransGen.single (.operated (.operate operation hlive (fun other hother => ?_) trivial))
  rw [hsource] at hother
  cases hother

theorem moves_write (h : w.Booked) (hlive : w.live.Perm (m :: rest)) {offset : ℕ} {bytes : List UInt8}
    (hroom : offset + bytes.length ≤ m.actuallyAllocatedBytes) :
    Moves allocator w (State.among (w.focus (m.written offset bytes)) rest) :=
  .single (.write hlive ((h.sound_focus hlive).written hroom) (footprint_written m offset bytes))

theorem moves_forget (hlive : w.live.Perm (m :: rest)) (hdata : m.data = none) :
    Moves allocator w ⟨rest,w.telemetry,w.heap⟩ := .single (.forget hlive hdata)

theorem moves_reorder {live : List Memory} (hlive : w.live.Perm live) : Moves allocator w ⟨live,w.telemetry,w.heap⟩ :=
  .single (.reorder hlive)

end

/-- A failed copy deletes the element, and the root gets its old length back. -/
theorem moves_rollBack (h : w.Booked) {child root : Memory} {rest : List Memory} (hlive : w.live.Perm (child :: root :: rest))
    (layout : DescriptorLayout) {offset nextIndex : ℕ} (hoffset : offset + sizeofMemory ≤ root.actuallyAllocatedBytes) :
    Moves allocator w ((memResize allocator nextIndex .plain { (memDelete (w.focus child)).state with
      memory := root.written offset (layout.image (memDelete (w.focus child)).state.memory) }).state.among rest) := by
  set deleted := (memDelete (w.focus child)).state with hdeleted
  have hdelete : Moves allocator w (deleted.among (root :: rest)) := moves_operation hlive .delete rfl
  have hdata : deleted.memory.data = none := by
    rw [hdeleted,memDelete_memory (s := w.focus child) (h.sound_focus hlive)]
    rfl
  have hforget : Moves allocator (deleted.among (root :: rest)) ⟨root :: rest,deleted.telemetry,deleted.heap⟩ :=
    moves_forget (List.Perm.refl _) hdata
  have hroom : offset + (layout.image deleted.memory).length ≤ root.actuallyAllocatedBytes := by
    rw [layout.length_image]
    exact hoffset
  have hwrite : Moves allocator ⟨root :: rest,deleted.telemetry,deleted.heap⟩
      (State.among { deleted with memory := root.written offset (layout.image deleted.memory) } rest) :=
    moves_write (hforget.booked (hdelete.booked h)) (List.Perm.refl _) hroom
  have hresize : Moves allocator (State.among { deleted with memory := root.written offset (layout.image deleted.memory) } rest)
      ((memResize allocator nextIndex .plain
        { deleted with memory := root.written offset (layout.image deleted.memory) }).state.among rest) :=
    moves_operation (w := State.among { deleted with memory := root.written offset (layout.image deleted.memory) } rest)
      (List.Perm.refl _) (.resize nextIndex .plain) rfl
  exact ((hdelete.trans hforget).trans hwrite).trans hresize

/-- An append resizes the root, and creates, fills and keeps an element, or takes both back. -/
theorem moves_append (h : w.Booked) {root : Memory} {rest : List Memory} (hlive : w.live.Perm (root :: rest))
    (layout : DescriptorLayout) (mode : SourceMode) (singleElementSize rangeBytes : ℕ) (source : Source) :
    let answer := memStringArrayCore layout allocator mode singleElementSize rangeBytes source (w.focus root)
    Moves allocator w (answer.state.among (answer.appended.toList ++ rest)) := by
  have hsound : Sound root := h.sound_focus hlive
  dsimp only
  by_cases haccepted : isArrayRoot (w.focus root).memory = false
  · have hsame : memStringArrayCore layout allocator mode singleElementSize rangeBytes source (w.focus root) =
        ⟨false,w.focus root,none⟩ := by
      rw [memStringArrayCore,if_pos haccepted]
    rw [hsame]
    exact moves_reorder hlive
  have hroot : ArrayRoot (w.focus root).memory := by
    simp only [isArrayRoot,decide_eq_false_iff_not,not_not] at haccepted
    exact ⟨hsound,haccepted.2.1,haccepted.2.2.1⟩
  have hresize : Moves allocator w ((memResize allocator (root.length + 1) ⟨true,false⟩ (w.focus root)).state.among rest) :=
    moves_operation hlive (.resize (root.length + 1) ⟨true,false⟩) rfl
  rcases memStringArrayCore_cases hroot layout allocator mode singleElementSize rangeBytes source with
    ⟨-,hnone,-,hstate | hstate⟩ | ⟨resized,copied,hresized,hexact,-,-,hcopied,-,hanswer⟩
  · rw [hnone,hstate]
    exact moves_reorder hlive
  · rw [hnone,hstate]
    exact hresize
  have hgrown : Moves allocator w (resized.state.among rest) := by
    rw [hresized]
    exact hresize
  have hcreate : Moves allocator (resized.state.among rest)
      ⟨memInit singleElementSize true :: resized.state.memory :: rest,resized.state.telemetry,resized.state.heap⟩ :=
    .single (.operated (.create singleElementSize true))
  have hcopy : Moves allocator
      ⟨memInit singleElementSize true :: resized.state.memory :: rest,resized.state.telemetry,resized.state.heap⟩
      (copied.state.among (resized.state.memory :: rest)) := by
    rw [hcopied]
    exact moves_operation (w := ⟨memInit singleElementSize true :: resized.state.memory :: rest,resized.state.telemetry,
      resized.state.heap⟩) (List.Perm.refl _) (.string mode .replace rangeBytes source) rfl
  have hfilled : Moves allocator w (copied.state.among (resized.state.memory :: rest)) := (hgrown.trans hcreate).trans hcopy
  have hfit : sizeofMemory * root.length + sizeofMemory ≤ resized.state.memory.actuallyAllocatedBytes :=
    (root_grown hroot hexact).2
  rw [hanswer]
  split
  · refine hfilled.trans ?_
    have hroom : sizeofMemory * root.length + (layout.image copied.state.memory).length ≤
        resized.state.memory.actuallyAllocatedBytes := by
      rw [layout.length_image]
      exact hfit
    exact moves_write (hfilled.booked h) (List.Perm.swap resized.state.memory copied.state.memory rest) hroom
  · exact hfilled.trans (moves_rollBack (hfilled.booked h) (List.Perm.refl _) layout hfit)

theorem moves_deleteElements {elements rest : List Memory} (answer : Answer) (hlive : w.live.Perm (elements ++ rest))
    (hstate : answer.state.telemetry = w.telemetry ∧ answer.state.heap = w.heap) :
    Moves allocator w ⟨(deleteElements elements answer).2 ++ rest,(deleteElements elements answer).1.state.telemetry,
      (deleteElements elements answer).1.state.heap⟩ := by
  induction elements generalizing w answer rest with
  | nil =>
    rw [deleteElements,hstate.1,hstate.2]
    exact moves_reorder hlive
  | cons m elements ih =>
    have hfocus : { answer.state with memory := m } = w.focus m := by
      rw [World.focus,← hstate.1,← hstate.2]
    have hdelete : Moves allocator w ((memDelete (w.focus m)).state.among (elements ++ rest)) :=
      moves_operation hlive .delete rfl
    have hmove : ((memDelete (w.focus m)).state.among (elements ++ rest)).live.Perm
        (elements ++ (memDelete (w.focus m)).state.memory :: rest) := List.perm_middle.symm
    have hrest := ih ⟨answer.succeeded && (memDelete (w.focus m)).succeeded,(memDelete (w.focus m)).state⟩ hmove ⟨rfl,rfl⟩
    rw [deleteElements,hfocus]
    exact (hdelete.trans hrest).trans (moves_reorder List.perm_middle)

theorem moves_deleteArray {root : Memory} {elements rest : List Memory} (hlive : w.live.Perm (root :: (elements ++ rest))) :
    let deleted := memArrayDelete elements (w.focus root)
    Moves allocator w (deleted.1.state.among (deleted.2 ++ rest)) := by
  have hmove : w.live.Perm (elements ++ root :: rest) := hlive.trans List.perm_middle.symm
  have hdeleted : Moves allocator w (World.mk
      ((deleteElements elements (w.focus root).succeed).2 ++ root :: rest)
      (deleteElements elements (w.focus root).succeed).1.state.telemetry
      (deleteElements elements (w.focus root).succeed).1.state.heap) :=
    moves_deleteElements (w.focus root).succeed hmove ⟨rfl,rfl⟩
  dsimp only
  rw [memArrayDelete]
  split
  · exact moves_reorder hlive
  dsimp only
  split
  · exact moves_operation hlive .delete rfl
  split
  · exact moves_operation hlive .delete rfl
  · refine hdeleted.trans ?_
    exact moves_operation (w := ⟨(deleteElements elements (w.focus root).succeed).2 ++ root :: rest,_,_⟩)
      List.perm_middle .delete rfl

theorem Step.moves {layout : DescriptorLayout} {w' : World} (hstep : Step layout allocator w w') (h : w.Booked) :
    Moves allocator w w' := by
  cases hstep with
  | operated hoperated => exact .single (.operated hoperated)
  | store offset bytes hlive hroom => exact moves_write h hlive (hroom.trans (h.sound_focus hlive).covered)
  | append mode singleElementSize rangeBytes source hlive hanswer =>
    rw [hanswer]
    exact moves_append h hlive layout mode singleElementSize rangeBytes source
  | deleteArray hlive hheld hanswer =>
    rw [hanswer]
    exact moves_deleteArray hlive

end Precizer.Libmem
