import Precizer.General.CounterSums

/-! # Calls one after another

Some counters are sums, some are levels whose changes every call sees in one order, and some are
the maxima that a level had. A call is orderly when it changes at most one level, and raises a maximum
only to what its change of the level returned. Orderly calls that interleave in any way leave what
they leave one after another, in the order of their changes of the levels.
-/
namespace Precizer.General

variable {κ α β ι : Type*}

inductive Role (κ : Type*)
  | total
  | level
  | peak (of : κ)
  deriving DecidableEq

section Orderly
variable [DecidableEq κ] (role : κ → Role κ)

namespace Instruction

/-- Adds to a sum. -/
def plain : Instruction κ α → Bool
  | addFetch c _ => role c = .total
  | add c _ => role c = .total
  | sub c _ => role c = .total
  | _ => false

def moves : Instruction κ α → Bool
  | addFetch c _ => role c = .level
  | add c _ => role c = .level
  | sub c _ => role c = .level
  | store c _ => role c = .level
  | raise _ => false

/-- May come after the change `x` of a level. -/
def follows (x : Instruction κ α) : Instruction κ α → Bool
  | add c _ => role c = .total
  | sub c _ => role c = .total
  | raise p =>
    match x with
    | addFetch c _ => role p = .peak c
    | _ => false
  | _ => false

end Instruction

def Code.orderly : Code κ α → Bool
  | [] => true
  | x :: code => if x.plain role then Code.orderly code else x.moves role && code.all (x.follows role)

/-- What an addition to a level returns is offered to all its maxima. -/
def Code.Records (code : Code κ α) : Prop :=
  ∀ c a p, .addFetch c a ∈ code → role p = .peak c → .raise p ∈ code

end Orderly

section Alone
variable [DecidableEq κ] [AddCommGroup α] [LinearOrder α]

/-- The instruction without other threads: the counters and the register. -/
def Instruction.perform (s : (κ → α) × α) : Instruction κ α → (κ → α) × α
  | addFetch c a => (Function.update s.1 c (s.1 c + a),s.1 c + a)
  | add c a => (Function.update s.1 c (s.1 c + a),s.2)
  | sub c a => (Function.update s.1 c (s.1 c - a),s.2)
  | store c v => (Function.update s.1 c v,s.2)
  | raise p => (Function.update s.1 p (max (s.1 p) s.2),s.2)

def Code.perform (s : (κ → α) × α) (code : Code κ α) : (κ → α) × α := code.foldl Instruction.perform s

/-- The counters after one call. -/
def Code.alone (value : κ → α) (code : Code κ α) : κ → α := (Code.perform (value,0) code).1

/-- The counters after calls one after another. -/
def serially (code : β → Code κ α) (order : List β) : κ → α :=
  order.foldl (fun value call => (code call).alone value) fun _ => 0

end Alone

section Rules
variable [DecidableEq κ] [AddCommGroup α] [LinearOrder α] {role : κ → Role κ}

omit [AddCommGroup α] [LinearOrder α] in
theorem Instruction.raised_of_follows {x : Instruction κ α} {p : κ} (h : x.follows role (.raise p) = true) :
    ∃ c a, x = .addFetch c a ∧ role p = .peak c := by
  cases x with
  | addFetch c a => exact ⟨c,a,rfl,of_decide_eq_true h⟩
  | add c a | sub c a | store c a | raise c => cases h

theorem Code.perform_append (s : (κ → α) × α) (a b : Code κ α) :
    Code.perform s (a ++ b) = Code.perform (Code.perform s a) b := List.foldl_append

theorem serially_append (code : β → Code κ α) (order : List β) (call : β) :
    serially code (order ++ [call]) = (code call).alone (serially code order) := by
  simp [serially]

theorem Instruction.perform_plain {x : Instruction κ α} (h : x.plain role = true) (s : (κ → α) × α) {c : κ}
    (hc : role c ≠ .total) : (x.perform s).1 c = s.1 c := by
  cases x with
  | addFetch d a | add d a | sub d a =>
    have hd : role d = .total := of_decide_eq_true h
    have hne : c ≠ d := by
      rintro rfl
      exact hc hd
    exact Function.update_of_ne hne _ _
  | store d a | raise d => cases h

theorem Code.perform_plain {code : Code κ α} (h : code.all (·.plain role) = true) (s : (κ → α) × α) {c : κ}
    (hc : role c ≠ .total) : (Code.perform s code).1 c = s.1 c := by
  induction code generalizing s with
  | nil => rfl
  | cons x code ih =>
    have hparts := Bool.and_eq_true_iff.mp h
    exact (ih hparts.2 (x.perform s)).trans (Instruction.perform_plain hparts.1 s hc)

/-- What follows a change of a level keeps the levels and the register. -/
theorem Instruction.perform_follows {x y : Instruction κ α} (h : x.follows role y = true) (s : (κ → α) × α) :
    (y.perform s).2 = s.2 ∧ ∀ c, role c ≠ .total → (y.perform s).1 c = if y = raise c then max (s.1 c) s.2 else s.1 c := by
  cases y with
  | add d a | sub d a =>
    have hd : role d = .total := of_decide_eq_true h
    refine ⟨rfl,fun c hc => ?_⟩
    have hne : c ≠ d := by
      rintro rfl
      exact hc hd
    rw [if_neg (by simp)]
    exact Function.update_of_ne hne _ _
  | raise q =>
    refine ⟨rfl,fun c _ => ?_⟩
    by_cases hq : q = c
    · subst hq
      rw [if_pos rfl]
      exact Function.update_self _ _ _
    · rw [if_neg (by simp [hq])]
      exact Function.update_of_ne (Ne.symm hq) _ _
  | addFetch d a | store d a => cases h

theorem Code.perform_follows {x : Instruction κ α} {code : Code κ α} (h : code.all (x.follows role) = true)
    (s : (κ → α) × α) {c : κ} (hc : role c ≠ .total) :
    (Code.perform s code).1 c = if .raise c ∈ code then max (s.1 c) s.2 else s.1 c := by
  induction code generalizing s with
  | nil => rfl
  | cons y code ih =>
    have hparts := Bool.and_eq_true_iff.mp h
    obtain ⟨hregister,hvalue⟩ := Instruction.perform_follows hparts.1 s
    have hrest := ih hparts.2 (y.perform s)
    rw [hregister,hvalue c hc] at hrest
    refine hrest.trans ?_
    by_cases hy : y = .raise c
    · subst hy
      simp
    · simp [hy,Ne.symm hy]

/-- A call whose change of a level is `x`. -/
structure Code.Split (role : κ → Role κ) (early : Code κ α) (x : Instruction κ α) (late : Code κ α) : Prop where
  early : early.all (·.plain role) = true
  moves : x.moves role = true
  late : late.all (x.follows role) = true

omit [AddCommGroup α] [LinearOrder α] in
theorem Code.split_of_orderly {code : Code κ α} (h : code.orderly role = true)
    (hplain : ¬code.all (·.plain role) = true) : ∃ early x late, code = early ++ x :: late ∧ Code.Split role early x late := by
  induction code with
  | nil => exact absurd rfl hplain
  | cons y code ih =>
    by_cases hy : y.plain role = true
    · rw [orderly,if_pos hy] at h
      have hrest : ¬code.all (·.plain role) = true := by
        intro hall
        exact hplain (by simp [hy,hall])
      obtain ⟨early,x,late,rfl,hsplit⟩ := ih h hrest
      refine ⟨y :: early,x,late,rfl,?_,hsplit.moves,hsplit.late⟩
      simp [hy,hsplit.early]
    · rw [orderly,if_neg hy,Bool.and_eq_true] at h
      exact ⟨[],y,code,rfl,rfl,h.1,h.2⟩

theorem Instruction.perform_congr {x : Instruction κ α} (h : x.moves role = true) {s t : (κ → α) × α}
    (hlevels : ∀ c, role c = .level → s.1 c = t.1 c) {c : κ} (hc : role c = .level) :
    (x.perform s).1 c = (x.perform t).1 c := by
  cases x with
  | addFetch d a | add d a | sub d a | store d a =>
    have hd : role d = .level := of_decide_eq_true h
    by_cases hcd : c = d
    · subst hcd
      simp [perform,hlevels c hc]
    · simp [perform,hcd,hlevels c hc]
  | raise d => cases h

theorem Instruction.perform_peak {x : Instruction κ α} (h : x.moves role = true) (s : (κ → α) × α) {p c : κ}
    (hp : role p = .peak c) : (x.perform s).1 p = s.1 p := by
  cases x with
  | addFetch d a | add d a | sub d a | store d a =>
    have hd : role d = .level := of_decide_eq_true h
    have hne : p ≠ d := by
      rintro rfl
      rw [hp] at hd
      cases hd
    exact Function.update_of_ne hne _ _
  | raise d => cases h

theorem Code.alone_level {early late : Code κ α} {x : Instruction κ α} (h : Code.Split role early x late)
    (value : κ → α) {c : κ} (hc : role c = .level) : Code.alone value (early ++ x :: late) c = (x.perform (value,0)).1 c := by
  have hkeep : ∀ d, role d = .level → (Code.perform (value,0) early).1 d = value d := by
    intro d hd
    exact Code.perform_plain h.early _ (by rw [hd]; simp)
  have hraise : .raise c ∉ late := by
    intro hmem
    obtain ⟨d,a,_,hd⟩ := Instruction.raised_of_follows (List.all_eq_true.mp h.late _ hmem)
    rw [hc] at hd
    cases hd
  unfold Code.alone
  rw [Code.perform_append]
  refine (Code.perform_follows h.late _ (by rw [hc]; simp)).trans ?_
  rw [if_neg hraise]
  exact Instruction.perform_congr h.moves hkeep hc

theorem Code.alone_peak {early late : Code κ α} {x : Instruction κ α} (h : Code.Split role early x late)
    (value : κ → α) {p c : κ} (hp : role p = .peak c) :
    Code.alone value (early ++ x :: late) p = if .raise p ∈ late then max (value p) ((x.perform (value,0)).2) else value p := by
  have hkeep : ∀ d, role d ≠ .total → (Code.perform (value,0) early).1 d = value d := fun d hd =>
    Code.perform_plain h.early _ hd
  have hpeak : role p ≠ .total := by
    rw [hp]
    simp
  unfold Code.alone
  rw [Code.perform_append]
  refine (Code.perform_follows h.late _ hpeak).trans ?_
  rw [Instruction.perform_peak h.moves _ hp,hkeep p hpeak]
  by_cases hmem : .raise p ∈ late
  · rw [if_pos hmem,if_pos hmem]
    obtain ⟨d,a,rfl,_⟩ := Instruction.raised_of_follows (List.all_eq_true.mp h.late _ hmem)
    have hd : role d = .level := of_decide_eq_true h.moves
    congr 1
    exact congrArg (· + a) (hkeep d (by rw [hd]; simp))
  · rw [if_neg hmem,if_neg hmem]

theorem Code.alone_plain {code : Code κ α} (h : code.all (·.plain role) = true) (value : κ → α) {c : κ}
    (hc : role c ≠ .total) : Code.alone value code c = value c := Code.perform_plain h _ hc

omit [AddCommGroup α] [LinearOrder α] in
/-- Orderly calls do not overwrite sums. -/
theorem Code.keeps_of_orderly {code : Code κ α} (h : code.orderly role = true) {c : κ} (hc : role c = .total) :
    Code.keeps c code = true := by
  have hfollows : ∀ {x y : Instruction κ α}, x.follows role y = true → y.keeps c = true := by
    intro x y hy
    cases y with
    | raise p =>
      obtain ⟨d,a,_,hp⟩ := Instruction.raised_of_follows hy
      refine decide_eq_true ?_
      rintro rfl
      rw [hc] at hp
      cases hp
    | addFetch d a | add d a | sub d a => rfl
    | store d a => cases hy
  induction code with
  | nil => rfl
  | cons x code ih =>
    rw [Code.orderly] at h
    split at h
    · rename_i hx
      have hkeeps : x.keeps c = true := by
        cases x with
        | addFetch d a | add d a | sub d a => rfl
        | store d a | raise d => cases hx
      rw [keeps_cons,hkeeps,ih h]
      rfl
    · obtain ⟨hmoves,hlate⟩ := Bool.and_eq_true_iff.mp h
      have hkeeps : x.keeps c = true := by
        cases x with
        | addFetch d a | add d a | sub d a => rfl
        | store d a =>
          have hd : role d = .level := of_decide_eq_true hmoves
          refine decide_eq_true ?_
          rintro rfl
          rw [hc] at hd
          cases hd
        | raise d => cases hmoves
      have hrest : Code.keeps c code = true := List.all_eq_true.mpr fun y hy => hfollows (List.all_eq_true.mp hlate y hy)
      rw [keeps_cons,hkeeps,hrest]
      rfl

/-- A counter that no call overwrites is the sum of what the calls add to it, in every order. -/
theorem Code.perform_booked {code : Code κ α} {counter : κ} (h : Code.keeps counter code = true) (s : (κ → α) × α) :
    (Code.perform s code).1 counter = s.1 counter + Code.booked counter code := by
  induction code generalizing s with
  | nil => exact (add_zero _).symm
  | cons x code ih =>
    have hparts := Bool.and_eq_true_iff.mp h
    have hx : (x.perform s).1 counter = s.1 counter + x.booked counter := by
      cases x with
      | addFetch c a | add c a | sub c a =>
        by_cases hc : c = counter
        · subst hc
          simp [Instruction.perform,Instruction.booked,sub_eq_add_neg]
        · simp [Instruction.perform,Instruction.booked,hc,Function.update_of_ne (Ne.symm hc)]
      | store c v | raise c =>
        have hc : c ≠ counter := by simpa [Instruction.keeps] using hparts.1
        simp [Instruction.perform,Instruction.booked,Function.update_of_ne hc.symm]
    rw [Code.booked_cons,← add_assoc,← hx]
    exact ih hparts.2 (x.perform s)

theorem serially_booked {code : β → Code κ α} {counter : κ} (h : ∀ call, (code call).keeps counter = true)
    (order : List β) : serially code order counter = (order.map fun call => (code call).booked counter).sum := by
  induction order using List.reverseRecOn with
  | nil => rfl
  | append_singleton order call ih =>
    rw [serially_append,List.map_append,List.sum_append,← ih,List.map_singleton,List.sum_singleton]
    exact Code.perform_booked (h call) _

end Rules
end Precizer.General
