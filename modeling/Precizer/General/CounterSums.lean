import Precizer.General.SharedCounters

/-! # No addition is lost

What the calls in progress have not added yet is missing from a counter, and nothing else is.
-/
namespace Precizer.General

variable {κ α β ι : Type*} [DecidableEq κ] [AddCommGroup α]

def Instruction.booked (counter : κ) : Instruction κ α → α
  | addFetch c amount => if c = counter then amount else 0
  | add c amount => if c = counter then amount else 0
  | sub c amount => if c = counter then -amount else 0
  | store _ _ => 0
  | raise _ => 0

def Code.booked (counter : κ) (code : Code κ α) : α := (code.map (·.booked counter)).sum

def Instruction.keeps (counter : κ) : Instruction κ α → Bool
  | store c _ => c ≠ counter
  | raise c => c ≠ counter
  | _ => true

def Code.keeps (counter : κ) (code : Code κ α) : Bool := code.all (·.keeps counter)

/-- Neither what is left of the call nor the present loop overwrites the counter. -/
def Thread.keeps (counter : κ) : Thread κ α → Bool
  | running _ code => Code.keeps counter code
  | exchanging _ _ c code => c ≠ counter && Code.keeps counter code

@[simp] theorem Code.booked_cons (counter : κ) (x : Instruction κ α) (code : Code κ α) :
    Code.booked counter (x :: code) = x.booked counter + Code.booked counter code := rfl

omit [AddCommGroup α] in
@[simp] theorem Code.keeps_cons (counter : κ) (x : Instruction κ α) (code : Code κ α) :
    Code.keeps counter (x :: code) = (x.keeps counter && Code.keeps counter code) := rfl

namespace Thread
variable [LinearOrder α] {counter : κ} (value : κ → α)

omit [AddCommGroup α] in
theorem keeps_observe {register observed : α} {c : κ} {code : Code κ α} (hc : c ≠ counter)
    (h : Code.keeps counter code = true) : (observe register observed c code).keeps counter = true := by
  unfold observe
  split
  · simp [keeps,hc,h]
  · simpa [keeps] using h

/-- An addition that is made is no longer left, and an addition that is left is not made yet. -/
theorem next_booked {t : Thread κ α} (h : t.keeps counter = true) :
    (t.next value).1 counter + Code.booked counter (t.next value).2.1.rest = value counter + Code.booked counter t.rest := by
  cases t with
  | running register code =>
    cases code with
    | nil => rfl
    | cons x code =>
      cases x with
      | addFetch c a | add c a =>
        by_cases hc : c = counter
        · subst hc
          simp [next,rest,Instruction.booked,add_assoc]
        · simp [next,rest,Instruction.booked,hc,Function.update_of_ne (Ne.symm hc)]
      | sub c a =>
        by_cases hc : c = counter
        · subst hc
          simp [next,rest,Instruction.booked,sub_eq_add_neg,add_assoc]
        · simp [next,rest,Instruction.booked,hc,Function.update_of_ne (Ne.symm hc)]
      | store c v =>
        have hc : c ≠ counter := by simpa [keeps,Instruction.keeps] using (Bool.and_eq_true_iff.mp h).1
        simp [next,rest,Instruction.booked,Function.update_of_ne hc.symm]
      | raise c =>
        change value counter + Code.booked counter (observe register (value c) c code).rest =
          value counter + (0 + Code.booked counter code)
        rw [rest_observe,zero_add]
  | exchanging register observed c code =>
    have hc : c ≠ counter := by simpa using (Bool.and_eq_true_iff.mp h).1
    rw [next_exchanging]
    split
    · simp [rest,Function.update_of_ne hc.symm]
    · rw [rest_observe]
      rfl

theorem next_keeps {t : Thread κ α} (h : t.keeps counter = true) : (t.next value).2.1.keeps counter = true := by
  cases t with
  | running register code =>
    cases code with
    | nil => exact h
    | cons x code =>
      have hrest : Code.keeps counter code = true := (Bool.and_eq_true_iff.mp h).2
      cases x with
      | raise c =>
        have hc : c ≠ counter := by simpa [Instruction.keeps] using (Bool.and_eq_true_iff.mp h).1
        exact keeps_observe hc hrest
      | addFetch c a | add c a | sub c a | store c a => exact hrest
  | exchanging register observed c code =>
    have hc : c ≠ counter := by simpa using (Bool.and_eq_true_iff.mp h).1
    have hrest : Code.keeps counter code = true := (Bool.and_eq_true_iff.mp h).2
    rw [next_exchanging]
    split
    · exact hrest
    · exact keeps_observe hc hrest

end Thread

namespace Counters
variable [DecidableEq ι] [LinearOrder α] [Fintype ι] {code : β → Code κ α} {counter : κ}

/-- A counter and what is left to be added to it are together what the calls add to it. -/
structure Balanced (code : β → Code κ α) (counter : κ) (s : Counters κ α β ι) : Prop where
  keeps : ∀ i, (s.thread i).keeps counter = true
  sum : s.value counter + ∑ i, Code.booked counter (s.thread i).rest = (s.begun.map fun call => (code call).booked counter).sum

omit [DecidableEq ι] [LinearOrder α] in
theorem Balanced.start : Balanced code counter (start : Counters κ α β ι) := by
  refine ⟨fun _ => rfl,?_⟩
  simp [Counters.start,Thread.rest,Code.booked]

theorem Balanced.turn (hkeeps : ∀ call, (code call).keeps counter = true) {s : Counters κ α β ι}
    (h : Balanced code counter s) (t : Turn β ι) : Balanced code counter (s.turn code t) := by
  rcases s.turn_cases code t with hsame | ⟨i,call,register,hi,hbegin⟩ | ⟨i,hstep⟩
  · rw [hsame]
    exact h
  · rw [hbegin]
    refine ⟨?_,?_⟩
    · exact (Function.forall_update_iff s.thread fun _ t => t.keeps counter = true).mpr
        ⟨hkeeps call,fun j _ => h.keeps j⟩
    · have hsum := sum_update (fun t : Thread κ α => Code.booked counter t.rest) s.thread i (.running 0 (code call))
      have hnothing : Code.booked counter (s.thread i).rest = 0 := by
        rw [hi]
        rfl
      rw [hnothing,add_zero] at hsum
      dsimp only
      rw [hsum,← add_assoc,h.sum,List.map_append,List.sum_append,List.map_singleton,List.sum_singleton]
      rfl
  · rw [hstep]
    refine ⟨?_,?_⟩
    · exact (Function.forall_update_iff s.thread fun _ t => t.keeps counter = true).mpr
        ⟨Thread.next_keeps s.value (h.keeps i),fun j _ => h.keeps j⟩
    · have hnext := Thread.next_booked s.value (h.keeps i)
      have hsum := sum_update (fun t : Thread κ α => Code.booked counter t.rest) s.thread i ((s.thread i).next s.value).2.1
      rw [← h.sum]
      refine add_right_cancel (b := Code.booked counter (s.thread i).rest) ?_
      calc
        _ = ((s.thread i).next s.value).1 counter + Code.booked counter ((s.thread i).next s.value).2.1.rest
              + ∑ j, Code.booked counter (s.thread j).rest := by
          dsimp only
          rw [add_assoc,hsum]
          abel
        _ = _ := by
          rw [hnext]
          abel

theorem balanced_run (hkeeps : ∀ call, (code call).keeps counter = true) (schedule : List (Turn β ι)) :
    Balanced code counter (run code schedule) :=
  run_induction code .start (fun _ t h => h.turn hkeeps t) schedule

theorem value_of_quiet (hkeeps : ∀ call, (code call).keeps counter = true) {schedule : List (Turn β ι)}
    (hquiet : (run code schedule).Quiet) : (run code schedule).value counter =
      ((run code schedule).begun.map fun call => (code call).booked counter).sum := by
  have hnothing : ∀ i, Code.booked counter ((run code schedule).thread i).rest = 0 := by
    intro i
    obtain ⟨register,hi⟩ := Thread.running_of_idle (hquiet i)
    rw [hi]
    rfl
  rw [← (balanced_run hkeeps schedule).sum]
  simp [hnothing]

end Counters
end Precizer.General
