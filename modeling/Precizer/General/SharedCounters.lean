import Mathlib.Algebra.BigOperators.Group.Finset.Basic
import Mathlib.Algebra.BigOperators.Group.List.Basic
import Mathlib.Tactic

/-! # Shared counters

Threads make calls that add to shared counters with atomic instructions, and raise a maximum with
a loop that exchanges it as long as it is too small and unchanged since it was read. The
instructions of the threads interleave in any order.
-/
namespace Precizer.General

variable {κ α β ι : Type*}

/-- The register of a thread keeps what its last `addFetch` returned; `raise` offers it to a maximum. -/
inductive Instruction (κ α : Type*)
  | addFetch (counter : κ) (amount : α)
  | add (counter : κ) (amount : α)
  | sub (counter : κ) (amount : α)
  | store (counter : κ) (value : α)
  | raise (counter : κ)
  deriving DecidableEq

abbrev Code (κ α : Type*) := List (Instruction κ α)

/-- A thread is between two instructions, or in a loop with the maximum that it has observed. -/
inductive Thread (κ α : Type*)
  | running (register : α) (code : Code κ α)
  | exchanging (register observed : α) (counter : κ) (code : Code κ α)
  deriving DecidableEq

/-- The counters, the threads, the calls begun so far and what the additions returned. -/
structure Counters (κ α β ι : Type*) where
  value : κ → α
  thread : ι → Thread κ α
  begun : List β
  returned : List (κ × α)

inductive Turn (β ι : Type*)
  | begin (i : ι) (call : β)
  | step (i : ι)
  deriving DecidableEq

namespace Thread

/-- What is left of the call after the present loop. -/
def rest : Thread κ α → Code κ α
  | running _ code => code
  | exchanging _ _ _ code => code

def register : Thread κ α → α
  | running register _ => register
  | exchanging register _ _ _ => register

def idle : Thread κ α → Bool
  | running _ [] => true
  | _ => false

/-- The loop goes on as long as the maximum is too small. -/
def observe [LinearOrder α] (register observed : α) (counter : κ) (code : Code κ α) : Thread κ α :=
  if observed < register then exchanging register observed counter code else running register code

theorem running_of_idle {t : Thread κ α} (h : t.idle = true) : ∃ register, t = running register [] := by
  cases t with
  | running register code =>
    cases code with
    | nil => exact ⟨register,rfl⟩
    | cons x code => cases h
  | exchanging register observed c code => cases h

theorem rest_observe [LinearOrder α] (register observed : α) (c : κ) (code : Code κ α) :
    (observe register observed c code).rest = code := by
  unfold observe
  split
  · rfl
  · rfl

variable [DecidableEq κ] [AddCommGroup α] [LinearOrder α]

/-- One atomic instruction: the counters, the thread and what an addition returned. -/
def next (value : κ → α) : Thread κ α → (κ → α) × Thread κ α × List (κ × α)
  | running register [] => (value,running register [],[])
  | running _ (.addFetch c a :: code) =>
    (Function.update value c (value c + a),running (value c + a) code,[(c,value c + a)])
  | running register (.add c a :: code) => (Function.update value c (value c + a),running register code,[])
  | running register (.sub c a :: code) => (Function.update value c (value c - a),running register code,[])
  | running register (.store c v :: code) => (Function.update value c v,running register code,[])
  | running register (.raise c :: code) => (value,observe register (value c) c code,[])
  | exchanging register observed c code =>
    if value c = observed then (Function.update value c register,running register code,[])
    else (value,observe register (value c) c code,[])

theorem next_exchanging (value : κ → α) (register observed : α) (c : κ) (code : Code κ α) :
    (exchanging register observed c code).next value =
      if value c = observed then (Function.update value c register,running register code,[])
      else (value,observe register (value c) c code,[]) := rfl

end Thread

namespace Counters
variable [DecidableEq κ] [DecidableEq ι] [AddCommGroup α] [LinearOrder α]
variable (code : β → Code κ α)

def begin (s : Counters κ α β ι) (i : ι) (call : β) : Counters κ α β ι :=
  if (s.thread i).idle then
    { s with thread := Function.update s.thread i (.running 0 (code call)), begun := s.begun ++ [call] }
  else s

def step (s : Counters κ α β ι) (i : ι) : Counters κ α β ι :=
  let (value,thread,returned) := (s.thread i).next s.value
  { s with
    value := value
    thread := Function.update s.thread i thread
    returned := s.returned ++ returned }

def turn (s : Counters κ α β ι) : Turn β ι → Counters κ α β ι
  | .begin i call => s.begin code i call
  | .step i => s.step i

/-- No call is in progress. -/
def Quiet (s : Counters κ α β ι) : Prop := ∀ i, (s.thread i).idle = true

instance [Fintype ι] (s : Counters κ α β ι) : Decidable s.Quiet :=
  inferInstanceAs (Decidable (∀ i, (s.thread i).idle = true))

/-- All counters are zero, and nothing was begun. -/
def start : Counters κ α β ι := ⟨fun _ => 0,fun _ => .running 0 [],[],[]⟩

def run (schedule : List (Turn β ι)) : Counters κ α β ι := schedule.foldl (turn code) start

/-- A turn changes nothing, begins a call of an idle thread, or executes one instruction. -/
theorem turn_cases (s : Counters κ α β ι) (t : Turn β ι) : s.turn code t = s ∨
    (∃ i call register, s.thread i = .running register [] ∧ s.turn code t =
      { s with thread := Function.update s.thread i (.running 0 (code call)), begun := s.begun ++ [call] }) ∨
    ∃ i, s.turn code t =
      { s with
        value := ((s.thread i).next s.value).1
        thread := Function.update s.thread i ((s.thread i).next s.value).2.1
        returned := s.returned ++ ((s.thread i).next s.value).2.2 } := by
  cases t with
  | begin i call =>
    by_cases hidle : (s.thread i).idle = true
    · obtain ⟨register,hi⟩ := Thread.running_of_idle hidle
      exact .inr (.inl ⟨i,call,register,hi,if_pos hidle⟩)
    · exact .inl (if_neg hidle)
  | step i => exact .inr (.inr ⟨i,rfl⟩)

theorem run_induction {motive : Counters κ α β ι → Prop} (hstart : motive start)
    (hturn : ∀ s t, motive s → motive (turn code s t)) (schedule : List (Turn β ι)) :
    motive (run code schedule) := by
  unfold run
  generalize (start : Counters κ α β ι) = s at hstart
  induction schedule generalizing s with
  | nil => exact hstart
  | cons t rest ih => exact ih (turn code s t) (hturn s t hstart)

end Counters

theorem sum_update [Fintype ι] [DecidableEq ι] {M τ : Type*} [AddCommMonoid M] (f : τ → M) (t : ι → τ) (i : ι)
    (x : τ) : ∑ j, f (Function.update t i x j) + f (t i) = ∑ j, f (t j) + f x := by
  rw [← Finset.add_sum_erase Finset.univ (fun j => f (Function.update t i x j)) (Finset.mem_univ i),
    ← Finset.add_sum_erase Finset.univ (fun j => f (t j)) (Finset.mem_univ i)]
  have hothers : ∑ j ∈ Finset.univ.erase i, f (Function.update t i x j) = ∑ j ∈ Finset.univ.erase i, f (t j) := by
    refine Finset.sum_congr rfl fun j hj => ?_
    rw [Function.update_of_ne (Finset.ne_of_mem_erase hj)]
  rw [hothers,Function.update_self,add_right_comm,add_comm (f x),add_right_comm,add_assoc]

end Precizer.General
