import Precizer.General.SharedCell
import Precizer.Rational.Return

/-! # The halt in the process-wide status

Every normalization loads the process-wide status, cleans it and stores it back, and the
signal handler stores `HALTED` into it. A halt stored between a normalization's load and
its store is overwritten.
-/
namespace Precizer.Guarantees
open General Rational

/-- The steps of the signal handler and of the normalizations. -/
inductive StatusStep where
  | raiseFlag
  | storeHalted
  | load (i : ℕ)
  | store (i : ℕ)
  deriving DecidableEq

def StatusStep.cell : StatusStep → CellStep Return
  | .raiseFlag => .skip
  | .storeHalted => .assign haltedStatus
  | .load i => .load i
  | .store i => .store i

/-- The process-wide status after an interleaving, if the interleaving is possible. -/
def reach (steps : List StatusStep) : Option (Cell Return) :=
  (Cell.start successStatus).run Return.clean (steps.map StatusStep.cell)

/-- The handler stores the halt after it has raised the flag. -/
def handlerOrder (flag : Bool) : List StatusStep → Bool
  | [] => true
  | .raiseFlag :: rest => handlerOrder true rest
  | .storeHalted :: rest => flag && handlerOrder flag rest
  | _ :: rest => handlerOrder flag rest

/-- A status under which every return carries the halt and no later call is executed. -/
def Delivers (globalStatus : Return) : Prop :=
  globalStatus.halted = true ∧ ∀ status, status.awaiting = false →
    (provide globalStatus status).halted = true ∧
    ∀ globalStatus' returned returned', run globalStatus' (provide globalStatus status) returned =
      run globalStatus' (provide globalStatus status) returned'

/-- Once the halt is stored, every later value of the process-wide status delivers it. -/
def InterruptKept (steps : List StatusStep) : Prop :=
  ∀ before part rest s, steps = before ++ .storeHalted :: (part ++ rest) →
    reach (before ++ .storeHalted :: part) = some s → Delivers s.value

theorem delivers_iff {globalStatus : Return} : Delivers globalStatus ↔ globalStatus.halted = true := by
  refine ⟨fun h => h.1,fun h => ⟨h,?_⟩⟩
  intro status hawaiting
  have hnormal : (rationalNormalizeReturn globalStatus status).halted = true := by
    simp [rationalNormalizeReturn,Return.clean,Return.union,Return.globalBits,h]
  have hhalted : (provide globalStatus status).halted = true := by
    simp only [provide,hawaiting,Bool.false_eq_true,if_false]
    split
    · exact hnormal
    · exact hnormal
  refine ⟨hhalted,?_⟩
  intro globalStatus' returned returned'
  have hskip : (provide globalStatus status).skip = true := by
    rw [Return.skip,hhalted,Bool.or_true]
  unfold run
  rw [if_pos hskip,if_pos hskip]

theorem reach_append {before after : List StatusStep} {s : Cell Return}
    (h : reach (before ++ .storeHalted :: after) = some s) :
    ∃ t, reach before = some t ∧
      ({ t with value := haltedStatus } : Cell Return).run Return.clean (after.map StatusStep.cell) = some s := by
  rw [reach,List.map_append,Cell.run_append] at h
  obtain ⟨t,ht,hrest⟩ := Option.bind_eq_some_iff.mp h
  exact ⟨t,ht,hrest⟩

theorem reach_of_run {before after : List StatusStep} {s t : Cell Return} (ht : reach before = some t)
    (h : ({ t with value := haltedStatus } : Cell Return).run Return.clean (after.map StatusStep.cell) = some s) :
    reach (before ++ .storeHalted :: after) = some s := by
  rw [reach,List.map_append,Cell.run_append]
  exact Option.bind_eq_some_iff.mpr ⟨t,ht,h⟩

theorem assignsOnly_halted (steps : List StatusStep) :
    Cell.AssignsOnly (fun status : Return => status.halted = true) (steps.map StatusStep.cell) := by
  intro v hv
  obtain ⟨step,-,hstep⟩ := List.mem_map.mp hv
  cases step <;> cases hstep
  rfl

theorem store_mem {i : ℕ} {steps : List StatusStep} :
    .store i ∈ steps.map StatusStep.cell ↔ .store i ∈ steps := by
  constructor
  · intro h
    obtain ⟨step,hmem,hstep⟩ := List.mem_map.mp h
    cases step <;> cases hstep
    exact hmem
  · exact fun h => List.mem_map.mpr ⟨_,h,rfl⟩

/-- In an interleaving the halt is kept exactly when no normalization that loaded a status
without it before the handler's store performs its own store afterwards. -/
theorem interrupt_kept_iff {steps : List StatusStep} {final : Cell Return} (hfinal : reach steps = some final) :
    InterruptKept steps ↔ ∀ before after s i v, steps = before ++ .storeHalted :: after →
      reach before = some s → s.call i = .loaded v → v.halted = false → .store i ∉ after := by
  have hkept := fun {t : Cell Return} {after : List StatusStep}
      (h : ({ t with value := haltedStatus } : Cell Return).run Return.clean (after.map StatusStep.cell) =
        some final) =>
    @Cell.kept_iff Return Return.clean (fun status => status.halted = true) (fun _ => Iff.rfl)
      { t with value := haltedStatus } final (after.map StatusStep.cell) (assignsOnly_halted after) rfl h
  constructor
  · intro h before after s i v hsteps hbefore hcall hbad
    rw [hsteps] at hfinal
    obtain ⟨t,ht,hrun⟩ := reach_append hfinal
    rw [hbefore] at ht
    cases ht
    rw [← store_mem]
    refine (hkept hrun).mp ?_ i v hcall (by simp [hbad])
    intro a b t hsplit hpart
    obtain ⟨part,rest,rfl,rfl,rfl⟩ := List.map_eq_append_iff.mp hsplit
    exact (h before part rest t hsteps (reach_of_run hbefore hpart)).1
  · intro h before part rest s hsteps hreach
    rw [delivers_iff]
    rw [hsteps] at hfinal
    obtain ⟨t,ht,hrun⟩ := reach_append hfinal
    obtain ⟨t',ht',hpart⟩ := reach_append hreach
    rw [ht] at ht'
    cases ht'
    refine (hkept hrun).mpr ?_ (part.map StatusStep.cell) (rest.map StatusStep.cell) s List.map_append hpart
    intro i v hcall hbad
    rw [store_mem]
    exact h before (part ++ rest) t i v hsteps ht hcall (by simpa using hbad)

/-- A normalization that has loaded the status when the signal arrives. -/
def racing : List StatusStep := [.load 0,.raiseFlag,.storeHalted,.store 0]

theorem interrupt_kept_racing : handlerOrder false racing = true ∧
    (InterruptKept racing ↔ ∀ before after s i v, racing = before ++ .storeHalted :: after →
      reach before = some s → s.call i = .loaded v → v.halted = false → .store i ∉ after) :=
  ⟨rfl,interrupt_kept_iff rfl⟩

/-- Its store takes the halt back. -/
theorem interrupt_lost : handlerOrder false racing = true ∧ (∃ final, reach racing = some final) ∧
    ¬ InterruptKept racing := by
  refine ⟨rfl,⟨_,rfl⟩,?_⟩
  intro h
  have hdelivers := h [.load 0,.raiseFlag] [.store 0] [] _ rfl rfl
  exact absurd hdelivers.1 (by decide)

end Precizer.Guarantees
