import Precizer.Libmem.Runs

/-! # Arrays in the books

An append books the growth of the root and the string of the new element, and takes both back
when the copy fails. The deletion of an array takes every block out of the books.
-/
namespace Precizer.Libmem
open General

section
variable {w : World} (h : w.Booked)
include h

theorem World.Booked.element {root : Memory} {rest : List Memory} (hlive : w.live.Perm (root :: rest)) (singleElementSize : ℕ) :
    World.Booked ⟨memInit singleElementSize true :: root :: rest,w.telemetry,w.heap⟩ :=
  (h.perm hlive).create singleElementSize true

/-- A failed copy leaves the root with the old number of elements and no element behind. -/
theorem World.Booked.rollBack {child root : Memory} {rest : List Memory} (hlive : w.live.Perm (child :: root :: rest))
    (layout : DescriptorLayout) (allocator : Allocator) {offset nextIndex : ℕ} (hoffset : offset + sizeofMemory ≤ root.actuallyAllocatedBytes) :
    ((memResize allocator nextIndex .plain { (memDelete (w.focus child)).state with
      memory := root.written offset (layout.image (memDelete (w.focus child)).state.memory) }).state.among rest).Booked := by
  have hchild : Sound child := h.sound_focus hlive
  have hdeleted := h.operate hlive (fun _ _ => none) .delete
  have hempty : (memDelete (w.focus child)).state.memory = child.emptied := memDelete_memory (s := w.focus child) hchild
  have hswap : (Operation.delete.answer (fun _ _ => none) (w.focus child)).state.among (root :: rest) =
      ⟨child.emptied :: root :: rest,(memDelete (w.focus child)).state.telemetry,(memDelete (w.focus child)).state.heap⟩ := by
    rw [State.among,Operation.answer,hempty]
  rw [hswap] at hdeleted
  have hroot : World.Booked ⟨root :: rest,(memDelete (w.focus child)).state.telemetry,(memDelete (w.focus child)).state.heap⟩ :=
    ⟨fun m hm => hdeleted.sound m (List.mem_cons_of_mem _ hm),(balanced_idle rfl rfl rfl).mp hdeleted.balanced⟩
  have hsound : Sound root := hroot.sound root List.mem_cons_self
  have himage := layout.length_image (memDelete (w.focus child)).state.memory
  have hwritten : Sound (root.written offset (layout.image (memDelete (w.focus child)).state.memory)) := hsound.written (by omega)
  apply hroot.among (List.Perm.refl _)
  · exact (memResize_sound hwritten allocator nextIndex .plain).1
  · exact keepsBooks_trans (keepsBooks_write _ (footprint_written root offset _))
      (keepsBooks_memResize hwritten allocator nextIndex .plain)

theorem World.Booked.append {root : Memory} {rest : List Memory} (hlive : w.live.Perm (root :: rest)) (layout : DescriptorLayout)
    (allocator : Allocator) (mode : SourceMode) (singleElementSize rangeBytes : ℕ) (source : Source) :
    let answer := memStringArrayCore layout allocator mode singleElementSize rangeBytes source (w.focus root)
    (answer.state.among (answer.appended.toList ++ rest)).Booked := by
  have hsound : Sound root := h.sound_focus hlive
  dsimp only
  by_cases haccepted : isArrayRoot (w.focus root).memory = false
  · have hsame : memStringArrayCore layout allocator mode singleElementSize rangeBytes source (w.focus root) =
        ⟨false,w.focus root,none⟩ := by
      rw [memStringArrayCore,if_pos haccepted]
    rw [hsame]
    exact h.perm hlive
  have hroot : ArrayRoot (w.focus root).memory := by
    simp only [isArrayRoot,decide_eq_false_iff_not,not_not] at haccepted
    exact ⟨hsound,haccepted.2.1,haccepted.2.2.1⟩
  have hresize := h.operate hlive allocator (.resize (root.length + 1) ⟨true,false⟩)
  rcases memStringArrayCore_cases hroot layout allocator mode singleElementSize rangeBytes source with
    ⟨-,hnone,-,hstate | hstate⟩ | ⟨resized,copied,hresized,hexact,-,-,hcopied,-,hanswer⟩
  · rw [hnone,hstate]
    exact h.perm hlive
  · rw [hnone,hstate]
    exact hresize
  · have hgrown : (resized.state.among rest).Booked := by
      rw [hresized]
      exact hresize
    have helement := hgrown.element (List.Perm.refl _) singleElementSize
    have hcopy : (copied.state.among (resized.state.memory :: rest)).Booked := by
      rw [hcopied]
      exact helement.operate (List.Perm.refl _) allocator (.string mode .replace rangeBytes source)
    have hfit : sizeofMemory * root.length + sizeofMemory ≤ resized.state.memory.actuallyAllocatedBytes :=
      (root_grown hroot hexact).2
    rw [hanswer]
    split
    · have himage := layout.length_image copied.state.memory
      have hswapped := hcopy.perm (List.Perm.swap resized.state.memory copied.state.memory rest)
      apply hswapped.among (List.Perm.refl _)
      · exact (hswapped.sound_focus (List.Perm.refl _)).written (by dsimp only [World.focus]; omega)
      · exact keepsBooks_write _ (footprint_written resized.state.memory _ _)
    · exact hcopy.rollBack (List.Perm.refl _) layout allocator hfit

theorem deleteElements_booked {elements rest : List Memory} (answer : Answer) (hlive : w.live.Perm (elements ++ rest))
    (hstate : answer.state.telemetry = w.telemetry ∧ answer.state.heap = w.heap) :
    World.Booked ⟨(deleteElements elements answer).2 ++ rest,(deleteElements elements answer).1.state.telemetry,
      (deleteElements elements answer).1.state.heap⟩ := by
  induction elements generalizing w answer rest with
  | nil =>
    rw [deleteElements,hstate.1,hstate.2]
    exact h.perm hlive
  | cons m elements ih =>
    have hfocus : { answer.state with memory := m } = w.focus m := by
      rw [World.focus,← hstate.1,← hstate.2]
    have hdeleted := h.operate hlive (fun _ _ => none) .delete
    have hmove : ((memDelete (w.focus m)).state.among (elements ++ rest)).live.Perm
        (elements ++ (memDelete (w.focus m)).state.memory :: rest) := List.perm_middle.symm
    have hrest := ih hdeleted
      ⟨answer.succeeded && (memDelete (w.focus m)).succeeded,(memDelete (w.focus m)).state⟩ hmove ⟨rfl,rfl⟩
    rw [deleteElements,hfocus]
    exact hrest.perm List.perm_middle

theorem World.Booked.deleteArray {root : Memory} {elements rest : List Memory} (hlive : w.live.Perm (root :: (elements ++ rest))) :
    let deleted := memArrayDelete elements (w.focus root)
    (deleted.1.state.among (deleted.2 ++ rest)).Booked := by
  dsimp only
  have hsame : ((w.focus root).among (elements ++ rest)).Booked := h.perm hlive
  have hmove : w.live.Perm (elements ++ root :: rest) := hlive.trans List.perm_middle.symm
  have hdeleted := deleteElements_booked h (w.focus root).succeed hmove ⟨rfl,rfl⟩
  rw [memArrayDelete]
  split
  · exact hsame
  dsimp only
  split
  · exact hsame.operate (List.Perm.refl _) (fun _ _ => none) .delete
  split
  · exact hsame.operate (List.Perm.refl _) (fun _ _ => none) .delete
  · exact hdeleted.operate List.perm_middle (fun _ _ => none) .delete

end

theorem Step.booked {layout : DescriptorLayout} {allocator : Allocator} {w w' : World} (hstep : Step layout allocator w w')
    (h : w.Booked) : w'.Booked := by
  cases hstep with
  | operated hoperated => exact h.operated hoperated
  | store offset bytes hlive hroom => exact h.store hlive hroom
  | append mode singleElementSize rangeBytes source hlive hanswer =>
    rw [hanswer]
    exact h.append hlive layout allocator mode singleElementSize rangeBytes source
  | deleteArray hlive hheld hanswer =>
    rw [hanswer]
    exact h.deleteArray hlive

theorem run_booked {layout : DescriptorLayout} {allocator : Allocator} {w : World}
    (hrun : Relation.ReflTransGen (Step layout allocator) World.start w) : w.Booked := by
  induction hrun with
  | refl => exact booked_start
  | tail _ hstep ih => exact hstep.booked ih

end Precizer.Libmem
