import Precizer.General.SerialCounters
import Mathlib.Order.Bounds.Basic

/-! # Interleaved calls have a serial order

A call takes its place in the order when it changes a level, or when it begins if it changes none.
What a thread then still owes to a maximum is in its register.
-/
namespace Precizer.General

variable {κ α β ι : Type*} [DecidableEq κ] [AddCommGroup α] [LinearOrder α]

namespace Thread

/-- The instructions that are left, the present loop included. -/
def pending : Thread κ α → Code κ α
  | running _ code => code
  | exchanging _ _ p code => .raise p :: code

/-- A loop is entered when the maximum is too small. -/
def Loops : Thread κ α → Prop
  | running _ _ => True
  | exchanging register observed _ _ => observed < register

/-- After the change `x` of a level, with the maxima that the serial order has. -/
structure Settled (role : κ → Role κ) (top : κ → α) (x : Instruction κ α) (t : Thread κ α) : Prop where
  loops : t.Loops
  late : t.pending.all (x.follows role) = true
  owed : ∀ p, .raise p ∈ t.pending → t.register ≤ top p

/-- Where a thread stands that waits for its place in the order with the call `code`, or has it. -/
inductive Placed (role : κ → Role κ) (top : κ → α) (call : Option (Code κ α)) (t : Thread κ α) : Prop
  | waiting {register : α} {done early late : Code κ α} {x : Instruction κ α}
      (hcall : call = some (done ++ (early ++ x :: late))) (ht : t = running register (early ++ x :: late))
      (hdone : done.all (·.plain role) = true) (hsplit : Code.Split role early x late)
  | plain {register : α} {code : Code κ α} (hcall : call = none) (ht : t = running register code)
      (hplain : code.all (·.plain role) = true)
  | settled {x : Instruction κ α} (hcall : call = none) (h : Settled role top x t)

variable {role : κ → Role κ} {top : κ → α} {x : Instruction κ α}

omit [DecidableEq κ] [AddCommGroup α] in
theorem loops_observe (register observed : α) (p : κ) (code : Code κ α) : (observe register observed p code).Loops := by
  unfold observe
  split
  · assumption
  · exact trivial

omit [DecidableEq κ] [AddCommGroup α] in
theorem register_observe (register observed : α) (p : κ) (code : Code κ α) :
    (observe register observed p code).register = register := by
  unfold observe
  split
  · rfl
  · rfl

omit [AddCommGroup α] in
theorem Settled.observe {register observed : α} {p : κ} {code : Code κ α}
    (hlate : List.all (.raise p :: code) (x.follows role) = true)
    (howed : ∀ q, .raise q ∈ (.raise p :: code : Code κ α) → register ≤ top q) :
    Settled role top x (observe register observed p code) := by
  refine ⟨loops_observe _ _ _ _,?_,?_⟩
  · unfold Thread.observe
    split
    · exact hlate
    · exact (Bool.and_eq_true_iff.mp hlate).2
  · rw [register_observe]
    intro q hq
    refine howed q ?_
    unfold Thread.observe at hq
    split at hq
    · exact hq
    · exact List.mem_cons_of_mem _ hq

structure Advances (role : κ → Role κ) (top value : κ → α) (x : Instruction κ α) (t : Thread κ α) : Prop where
  settled : Settled role top x (t.next value).2.1
  register : (t.next value).2.1.register = t.register
  level : ∀ c, role c = .level → (t.next value).1 c = value c
  above : ∀ p c, role p = .peak c → value p ≤ (t.next value).1 p ∧ (t.next value).1 p ≤ top p
  offered : ∀ p c, role p = .peak c → .raise p ∈ t.pending →
    .raise p ∈ (t.next value).2.1.pending ∨ t.register ≤ (t.next value).1 p
  returned : ∀ c v, (c,v) ∈ (t.next value).2.2 → role c = .total

theorem Settled.running_cons {register : α} {y : Instruction κ α} {code : Code κ α} {c : κ} {a : α} {value : κ → α}
    (h : Settled role top x (running register (y :: code))) (hc : role c = .total)
    (hnext : (running register (y :: code)).next value = (Function.update value c a,running register code,[]))
    (hy : ∀ p, y ≠ .raise p) (hbelow : ∀ p c, role p = .peak c → value p ≤ top p) :
    Advances role top value x (running register (y :: code)) := by
  have hother : ∀ d, role d ≠ .total → Function.update value c a d = value d := by
    intro d hd
    refine Function.update_of_ne ?_ _ _
    rintro rfl
    exact hd hc
  refine ⟨?_,?_,?_,?_,?_,?_⟩
  · rw [hnext]
    exact ⟨trivial,(Bool.and_eq_true_iff.mp h.late).2,fun p hp => h.owed p (List.mem_cons_of_mem _ hp)⟩
  · rw [hnext]
    rfl
  · intro d hd
    rw [hnext]
    exact hother d (by rw [hd]; simp)
  · intro p d hp
    rw [hnext]
    dsimp only
    rw [hother p (by rw [hp]; simp)]
    exact ⟨le_rfl,hbelow p d hp⟩
  · intro p d hp hmem
    rw [hnext]
    exact .inl ((List.mem_cons.mp hmem).resolve_left fun heq => hy p heq.symm)
  · intro d v hmem
    rw [hnext] at hmem
    cases hmem

/-- The maximum is read, and the loop goes on if it is too small. -/
theorem Settled.offering {t : Thread κ α} {q : κ} {code : Code κ α} {value : κ → α} (h : Settled role top x t)
    (hpending : t.pending = .raise q :: code)
    (hnext : t.next value = (value,Thread.observe t.register (value q) q code,[]))
    (hbelow : ∀ p c, role p = .peak c → value p ≤ top p) : Advances role top value x t := by
  have hlate := h.late
  have howed := h.owed
  rw [hpending] at hlate howed
  refine ⟨?_,?_,?_,?_,?_,?_⟩
  · rw [hnext]
    exact .observe hlate howed
  · rw [hnext]
    exact register_observe _ _ _ _
  · intro c _
    rw [hnext]
  · intro p c hp
    rw [hnext]
    exact ⟨le_rfl,hbelow p c hp⟩
  · intro p c hp hmem
    rw [hnext]
    rw [hpending] at hmem
    dsimp only
    by_cases hlt : value q < t.register
    · rw [Thread.observe,if_pos hlt]
      exact .inl hmem
    · rw [Thread.observe,if_neg hlt]
      rcases List.mem_cons.mp hmem with heq | hmem
      · cases heq
        exact .inr (not_lt.mp hlt)
      · exact .inl hmem
  · intro c v hmem
    rw [hnext] at hmem
    cases hmem

theorem Settled.exchanged {register observed : α} {q : κ} {code : Code κ α} {value : κ → α}
    (h : Settled role top x (exchanging register observed q code)) (hobserved : value q = observed)
    (hbelow : ∀ p c, role p = .peak c → value p ≤ top p) :
    Advances role top value x (exchanging register observed q code) := by
  have hnext : (exchanging register observed q code).next value =
      (Function.update value q register,running register code,[]) := if_pos hobserved
  have hlevel : role q ≠ .level := by
    obtain ⟨d,a,_,hq⟩ := Instruction.raised_of_follows (Bool.and_eq_true_iff.mp h.late).1
    rw [hq]
    simp
  refine ⟨?_,?_,?_,?_,?_,?_⟩
  · rw [hnext]
    exact ⟨trivial,(Bool.and_eq_true_iff.mp h.late).2,fun p hp => h.owed p (List.mem_cons_of_mem _ hp)⟩
  · rw [hnext]
    rfl
  · intro c hc
    rw [hnext]
    refine Function.update_of_ne ?_ _ _
    rintro rfl
    exact hlevel hc
  · intro p c hp
    rw [hnext]
    dsimp only
    by_cases hpq : p = q
    · subst hpq
      rw [Function.update_self,hobserved]
      exact ⟨le_of_lt h.loops,h.owed p List.mem_cons_self⟩
    · rw [Function.update_of_ne hpq]
      exact ⟨le_rfl,hbelow p c hp⟩
  · intro p c hp hmem
    rw [hnext]
    dsimp only
    rcases List.mem_cons.mp hmem with heq | hmem
    · cases heq
      rw [Function.update_self]
      exact .inr le_rfl
    · exact .inl hmem
  · intro c v hmem
    rw [hnext] at hmem
    cases hmem

theorem Settled.next {t : Thread κ α} (h : Settled role top x t) {value : κ → α}
    (hbelow : ∀ p c, role p = .peak c → value p ≤ top p) : Advances role top value x t := by
  cases t with
  | running register code =>
    cases code with
    | nil =>
      refine ⟨h,rfl,fun _ _ => rfl,fun p c hp => ⟨le_rfl,hbelow p c hp⟩,?_,?_⟩
      · intro _ _ _ hmem
        cases hmem
      · intro _ _ hmem
        cases hmem
    | cons y code =>
      have hy : x.follows role y = true := (Bool.and_eq_true_iff.mp h.late).1
      cases y with
      | addFetch c a | store c a => cases hy
      | add c a | sub c a => exact h.running_cons (of_decide_eq_true hy) rfl (fun _ => by simp) hbelow
      | raise q => exact h.offering rfl rfl hbelow
  | exchanging register observed q code =>
    by_cases hobserved : value q = observed
    · exact h.exchanged hobserved hbelow
    · exact h.offering rfl (if_neg hobserved) hbelow

omit [AddCommGroup α] in
/-- The order may grow meanwhile. -/
theorem Placed.mono {call : Option (Code κ α)} {t : Thread κ α} {top' : κ → α} (h : Placed role top call t)
    (hgrown : ∀ p c, role p = .peak c → top p ≤ top' p) : Placed role top' call t := by
  cases h with
  | waiting hcall ht hdone hsplit => exact .waiting hcall ht hdone hsplit
  | plain hcall ht hplain => exact .plain hcall ht hplain
  | @settled x hcall h =>
    refine .settled hcall ⟨h.loops,h.late,?_⟩
    intro p hp
    obtain ⟨d,a,_,hpeak⟩ := Instruction.raised_of_follows (List.all_eq_true.mp h.late _ hp)
    exact (h.owed p hp).trans (hgrown p d hpeak)

theorem next_perform {y : Instruction κ α} (hy : ∀ p, y ≠ .raise p) (register : α) (code : Code κ α) (value : κ → α) :
    ((running register (y :: code)).next value).1 = (y.perform (value,register)).1 ∧
    ((running register (y :: code)).next value).2.1 = running (y.perform (value,register)).2 code ∧
    ∀ c v, (c,v) ∈ ((running register (y :: code)).next value).2.2 ↔ ∃ a, y = .addFetch c a ∧ v = value c + a := by
  cases y with
  | addFetch d a =>
    refine ⟨rfl,rfl,fun c v => ?_⟩
    constructor
    · intro hmem
      cases List.mem_singleton.mp hmem
      exact ⟨a,rfl,rfl⟩
    · rintro ⟨b,heq,rfl⟩
      cases heq
      exact List.mem_singleton.mpr rfl
  | add d a | sub d a | store d a =>
    refine ⟨rfl,rfl,fun c v => ?_⟩
    constructor
    · intro hmem
      cases hmem
    · rintro ⟨b,heq,_⟩
      cases heq
  | raise p => exact absurd rfl (hy p)

end Thread

namespace Counters
variable [DecidableEq ι] [Fintype ι]

/-- The calls that have their place in the order are the calls whose change of a level is done. -/
structure Serial (role : κ → Role κ) (code : β → Code κ α) (s : Counters κ α β ι) (order : List β)
    (waiting : ι → Option β) : Prop where
  begun : (order : Multiset β) + ∑ i, ((waiting i).toList : Multiset β) = (s.begun : Multiset β)
  level : ∀ c, role c = .level → s.value c = serially code order c
  below : ∀ p c, role p = .peak c → s.value p ≤ serially code order p
  reached : ∀ p c, role p = .peak c → serially code order p = s.value p ∨
    ∃ i, waiting i = none ∧ .raise p ∈ (s.thread i).pending ∧ (s.thread i).register = serially code order p
  placed : ∀ i, Thread.Placed role (serially code order) ((waiting i).map code) (s.thread i)
  greatest : ∀ p c, role p = .peak c → role c = .level →
    IsGreatest (insert 0 {v | (c,v) ∈ s.returned}) (serially code order p)

variable {role : κ → Role κ} {code : β → Code κ α} {s : Counters κ α β ι} {order : List β} {waiting : ι → Option β}

omit [DecidableEq ι] in
theorem Serial.start : Serial role code (start : Counters κ α β ι) [] fun _ => none := by
  refine ⟨?_,fun _ _ => rfl,fun _ _ _ => le_rfl,fun _ _ _ => .inl rfl,fun _ => .plain rfl rfl rfl,?_⟩
  · simp [Counters.start]
  · intro p c _ _
    refine ⟨Set.mem_insert _ _,?_⟩
    rintro v (rfl | hv)
    · exact le_rfl
    · cases hv

omit [DecidableEq ι] in
theorem Serial.not_waiting (h : Serial role code s order waiting) {i : ι} {register : α}
    (hi : s.thread i = .running register []) : waiting i = none := by
  cases h.placed i with
  | waiting hcall ht hdone hsplit =>
    rw [hi] at ht
    simp at ht
  | plain hcall ht hplain => exact Option.map_eq_none_iff.mp hcall
  | settled hcall hsettled => exact Option.map_eq_none_iff.mp hcall

theorem Serial.begin (h : Serial role code s order waiting) {i : ι} {register : α} (call : β)
    (hi : s.thread i = .running register []) (horderly : (code call).orderly role = true) :
    ∃ order waiting, Serial role code
      { s with thread := Function.update s.thread i (.running 0 (code call)), begun := s.begun ++ [call] } order waiting := by
  have hnone := h.not_waiting hi
  have hwitness : ∀ {p : κ} {v : α}, (∃ j, waiting j = none ∧ .raise p ∈ (s.thread j).pending ∧ (s.thread j).register = v) →
      ∃ j, j ≠ i ∧ waiting j = none ∧ .raise p ∈ (s.thread j).pending ∧ (s.thread j).register = v := by
    rintro p v ⟨j,hj,hmem,hregister⟩
    refine ⟨j,?_,hj,hmem,hregister⟩
    rintro rfl
    rw [hi] at hmem
    cases hmem
  by_cases hplain : (code call).all (·.plain role) = true
  · have hsame : ∀ c, role c ≠ .total → serially code (order ++ [call]) c = serially code order c := by
      intro c hc
      rw [serially_append]
      exact Code.alone_plain hplain _ hc
    have hpeak : ∀ p c, role p = .peak c → serially code (order ++ [call]) p = serially code order p := by
      intro p c hp
      exact hsame p (by rw [hp]; simp)
    refine ⟨order ++ [call],waiting,?_,?_,?_,?_,?_,?_⟩
    · rw [← Multiset.coe_add,← Multiset.coe_add,← h.begun]
      abel
    · intro c hc
      rw [hsame c (by rw [hc]; simp)]
      exact h.level c hc
    · intro p c hp
      rw [hpeak p c hp]
      exact h.below p c hp
    · intro p c hp
      rw [hpeak p c hp]
      rcases h.reached p c hp with heq | hpending
      · exact .inl heq
      · obtain ⟨j,hj,hw,hmem,hregister⟩ := hwitness hpending
        refine .inr ⟨j,hw,?_⟩
        dsimp only
        rw [Function.update_of_ne hj]
        exact ⟨hmem,hregister⟩
    · intro j
      dsimp only
      by_cases hj : j = i
      · subst hj
        rw [Function.update_self,hnone]
        exact .plain rfl rfl hplain
      · rw [Function.update_of_ne hj]
        exact (h.placed j).mono fun p c hp => (hpeak p c hp).ge
    · intro p c hp hc
      rw [hpeak p c hp]
      exact h.greatest p c hp hc
  · obtain ⟨early,x,late,heq,hsplit⟩ := Code.split_of_orderly horderly hplain
    refine ⟨order,Function.update waiting i (some call),?_,h.level,h.below,?_,?_,h.greatest⟩
    · have hsum := sum_update (fun w : Option β => (w.toList : Multiset β)) waiting i (some call)
      rw [hnone] at hsum
      rw [← Multiset.coe_add,← h.begun,add_assoc]
      congr 1
      simpa using hsum
    · intro p c hp
      rcases h.reached p c hp with heq | hpending
      · exact .inl heq
      · obtain ⟨j,hj,hw,hmem,hregister⟩ := hwitness hpending
        refine .inr ⟨j,?_⟩
        dsimp only
        rw [Function.update_of_ne hj,Function.update_of_ne hj]
        exact ⟨hw,hmem,hregister⟩
    · intro j
      dsimp only
      by_cases hj : j = i
      · subst hj
        rw [Function.update_self,Function.update_self]
        have hnothing : ([] : Code κ α).all (·.plain role) = true := rfl
        exact .waiting (congrArg some heq) (by rw [heq]) hnothing hsplit
      · rw [Function.update_of_ne hj,Function.update_of_ne hj]
        exact h.placed j

/-- The next instruction of a thread leaves the order as it is. -/
structure Harmless (role : κ → Role κ) (top value : κ → α) (call : Option (Code κ α)) (t : Thread κ α) : Prop where
  placed : Thread.Placed role top call (t.next value).2.1
  level : ∀ c, role c = .level → (t.next value).1 c = value c
  above : ∀ p c, role p = .peak c → value p ≤ (t.next value).1 p ∧ (t.next value).1 p ≤ top p
  offered : ∀ p c, role p = .peak c → call = none → .raise p ∈ t.pending → t.register = top p →
    (.raise p ∈ (t.next value).2.1.pending ∧ (t.next value).2.1.register = top p) ∨ top p ≤ (t.next value).1 p
  returned : ∀ c v, (c,v) ∈ (t.next value).2.2 → role c = .total

theorem Serial.harmless (h : Serial role code s order waiting) {i : ι}
    (hi : Harmless role (serially code order) s.value ((waiting i).map code) (s.thread i)) :
    Serial role code (s.step i) order waiting := by
  refine ⟨h.begun,?_,?_,?_,?_,?_⟩
  · intro c hc
    exact (hi.level c hc).trans (h.level c hc)
  · intro p c hp
    exact (hi.above p c hp).2
  · intro p c hp
    rcases h.reached p c hp with heq | ⟨j,hw,hmem,hregister⟩
    · refine .inl (le_antisymm ?_ (hi.above p c hp).2)
      rw [heq]
      exact (hi.above p c hp).1
    · by_cases hj : j = i
      · subst hj
        rcases hi.offered p c hp (by rw [hw]; rfl) hmem hregister with hpending | hle
        · refine .inr ⟨j,hw,?_⟩
          change .raise p ∈ (Function.update s.thread j _ j).pending ∧ (Function.update s.thread j _ j).register = _
          rw [Function.update_self]
          exact hpending
        · exact .inl (le_antisymm hle (hi.above p c hp).2)
      · refine .inr ⟨j,hw,?_⟩
        change .raise p ∈ (Function.update s.thread i _ j).pending ∧ (Function.update s.thread i _ j).register = _
        rw [Function.update_of_ne hj]
        exact ⟨hmem,hregister⟩
  · intro j
    change Thread.Placed role _ _ (Function.update s.thread i _ j)
    by_cases hj : j = i
    · subst hj
      rw [Function.update_self]
      exact hi.placed
    · rw [Function.update_of_ne hj]
      exact h.placed j
  · intro p c hp hc
    have hset : {v | (c,v) ∈ (s.step i).returned} = {v | (c,v) ∈ s.returned} := by
      ext v
      refine ⟨fun hv => (List.mem_append.mp hv).resolve_right fun hmem => ?_,fun hv => List.mem_append_left _ hv⟩
      have htotal := hi.returned c v hmem
      rw [hc] at htotal
      cases htotal
    rw [hset]
    exact h.greatest p c hp hc

/-- An addition to a sum is harmless. -/
theorem Harmless.plain {top value : κ → α} {call : Option (Code κ α)} {register : α} {y : Instruction κ α} {rest : Code κ α}
    (hy : y.plain role = true) (hbelow : ∀ p c, role p = .peak c → value p ≤ top p)
    (hplaced : ∀ register, Thread.Placed role top call (.running register rest))
    (hoffer : call = none → rest.all (·.plain role) = true) :
    Harmless role top value call (.running register (y :: rest)) := by
  have hraise : ∀ p, y ≠ .raise p := by
    rintro p rfl
    cases hy
  obtain ⟨hvalue,hthread,hreturned⟩ := Thread.next_perform hraise register rest value
  have hother : ∀ c, role c ≠ .total → (Thread.next value (.running register (y :: rest))).1 c = value c := by
    intro c hc
    rw [hvalue]
    exact Instruction.perform_plain hy _ hc
  refine ⟨?_,?_,?_,?_,?_⟩
  · rw [hthread]
    exact hplaced _
  · intro c hc
    exact hother c (by rw [hc]; simp)
  · intro p c hp
    rw [hother p (by rw [hp]; simp)]
    exact ⟨le_rfl,hbelow p c hp⟩
  · intro p c hp hnone hmem
    rcases List.mem_cons.mp hmem with heq | hmem
    · exact absurd heq.symm (hraise p)
    · cases List.all_eq_true.mp (hoffer hnone) _ hmem
  · intro c v hmem
    obtain ⟨a,rfl,_⟩ := (hreturned c v).mp hmem
    exact of_decide_eq_true hy

/-- What comes after the change of a level is harmless. -/
theorem Harmless.settled {top value : κ → α} {x : Instruction κ α} {t : Thread κ α}
    (h : Thread.Settled role top x t) (hbelow : ∀ p c, role p = .peak c → value p ≤ top p) :
    Harmless role top value none t := by
  have hadvances := h.next hbelow
  refine ⟨.settled rfl hadvances.settled,hadvances.level,hadvances.above,?_,hadvances.returned⟩
  intro p c hp _ hmem hregister
  rcases hadvances.offered p c hp hmem with hpending | hle
  · exact .inl ⟨hpending,hadvances.register.trans hregister⟩
  · rw [hregister] at hle
    exact .inr hle

section Commit

/-- The call `call` of the thread `i` has its change `x` of a level before it. -/
structure Ready (role : κ → Role κ) (code : β → Code κ α) (s : Counters κ α β ι) (waiting : ι → Option β) (i : ι) (call : β)
    (register : α) (done : Code κ α) (x : Instruction κ α) (late : Code κ α) : Prop where
  waits : waiting i = some call
  whole : code call = done ++ x :: late
  thread : s.thread i = .running register (x :: late)
  split : Code.Split role done x late
  records : (code call).Records role

variable {i : ι} {call : β} {register : α} {done late : Code κ α} {x : Instruction κ α}

omit [DecidableEq ι] [Fintype ι] [LinearOrder α] [AddCommGroup α] in
theorem Ready.not_raise (hready : Ready role code s waiting i call register done x late) (p : κ) : x ≠ .raise p := by
  rintro rfl
  cases hready.split.moves

omit [DecidableEq ι] [Fintype ι] in
theorem Ready.next (hready : Ready role code s waiting i call register done x late) :
    ((s.thread i).next s.value).1 = (x.perform (s.value,register)).1 ∧
    ((s.thread i).next s.value).2.1 = .running (x.perform (s.value,register)).2 late ∧
    ∀ c v, (c,v) ∈ ((s.thread i).next s.value).2.2 ↔ ∃ a, x = .addFetch c a ∧ v = s.value c + a := by
  rw [hready.thread]
  exact Thread.next_perform hready.not_raise register late s.value

omit [DecidableEq ι] [Fintype ι] in
theorem Ready.same_peak (hready : Ready role code s waiting i call register done x late) {p c : κ} (hp : role p = .peak c) :
    ((s.thread i).next s.value).1 p = s.value p := by
  rw [hready.next.1]
  exact Instruction.perform_peak hready.split.moves _ hp

omit [DecidableEq ι] in
theorem Ready.returns (hready : Ready role code s waiting i call register done x late)
    (h : Serial role code s order waiting) {p : κ} (hmem : .raise p ∈ late) :
    (x.perform (s.value,register)).2 = (x.perform (serially code order,0)).2 := by
  obtain ⟨c,a,rfl,_⟩ := Instruction.raised_of_follows (List.all_eq_true.mp hready.split.late _ hmem)
  exact congrArg (· + a) (h.level c (of_decide_eq_true hready.split.moves))

omit [DecidableEq ι] [Fintype ι] in
theorem Ready.level (hready : Ready role code s waiting i call register done x late) (order : List β) {c : κ}
    (hc : role c = .level) : serially code (order ++ [call]) c = (x.perform (serially code order,0)).1 c := by
  rw [serially_append,hready.whole]
  exact Code.alone_level hready.split _ hc

omit [DecidableEq ι] [Fintype ι] in
theorem Ready.peak (hready : Ready role code s waiting i call register done x late) (order : List β) {p c : κ}
    (hp : role p = .peak c) : serially code (order ++ [call]) p =
      if .raise p ∈ late then max (serially code order p) (x.perform (serially code order,0)).2 else serially code order p := by
  rw [serially_append,hready.whole]
  exact Code.alone_peak hready.split _ hp

omit [DecidableEq ι] [Fintype ι] in
theorem Ready.grown (hready : Ready role code s waiting i call register done x late) (order : List β) (p c : κ)
    (hp : role p = .peak c) : serially code order p ≤ serially code (order ++ [call]) p := by
  rw [hready.peak order hp]
  split
  · exact le_max_left _ _
  · exact le_rfl

theorem Ready.begun (hready : Ready role code s waiting i call register done x late) (h : Serial role code s order waiting) :
    ((order ++ [call] : List β) : Multiset β) + ∑ j, ((Function.update waiting i none j).toList : Multiset β) = (s.begun : Multiset β) := by
  have hsum := sum_update (fun w : Option β => (w.toList : Multiset β)) waiting i none
  rw [hready.waits] at hsum
  rw [← Multiset.coe_add,← h.begun,add_assoc]
  congr 1
  rw [add_comm]
  simpa using hsum

theorem Ready.reached (hready : Ready role code s waiting i call register done x late) (h : Serial role code s order waiting)
    {p c : κ} (hp : role p = .peak c) : serially code (order ++ [call]) p = (s.step i).value p ∨
      ∃ j, Function.update waiting i none j = none ∧ .raise p ∈ ((s.step i).thread j).pending ∧
        ((s.step i).thread j).register = serially code (order ++ [call]) p := by
  change _ = ((s.thread i).next s.value).1 p ∨ ∃ j, Function.update waiting i none j = none ∧
    .raise p ∈ (Function.update s.thread i ((s.thread i).next s.value).2.1 j).pending ∧
    (Function.update s.thread i ((s.thread i).next s.value).2.1 j).register = _
  rw [hready.same_peak hp]
  by_cases hnew : .raise p ∈ late ∧ serially code order p ≤ (x.perform (serially code order,0)).2
  · refine .inr ⟨i,?_⟩
    rw [Function.update_self,Function.update_self,hready.next.2.1,hready.peak order hp,if_pos hnew.1,max_eq_right hnew.2]
    exact ⟨rfl,hnew.1,hready.returns h hnew.1⟩
  · have hold : serially code (order ++ [call]) p = serially code order p := by
      rw [hready.peak order hp]
      split
      · rename_i hmem
        exact max_eq_left (le_of_not_ge fun hle => hnew ⟨hmem,hle⟩)
      · rfl
    rcases h.reached p c hp with htop | ⟨j,hw,hmem,hr⟩
    · exact .inl (hold.trans htop)
    · have hj : j ≠ i := by
        rintro rfl
        cases hw.symm.trans hready.waits
      refine .inr ⟨j,?_⟩
      rw [Function.update_of_ne hj,Function.update_of_ne hj,hold]
      exact ⟨hw,hmem,hr⟩

theorem Ready.placed (hready : Ready role code s waiting i call register done x late) (h : Serial role code s order waiting)
    (j : ι) : Thread.Placed role (serially code (order ++ [call])) ((Function.update waiting i none j).map code)
      ((s.step i).thread j) := by
  change Thread.Placed role _ _ (Function.update s.thread i ((s.thread i).next s.value).2.1 j)
  by_cases hj : j = i
  · subst hj
    rw [Function.update_self,Function.update_self,hready.next.2.1]
    refine .settled rfl (x := x) ⟨trivial,hready.split.late,?_⟩
    intro p hmem
    change .raise p ∈ late at hmem
    obtain ⟨c,a,_,hp⟩ := Instruction.raised_of_follows (List.all_eq_true.mp hready.split.late _ hmem)
    change (x.perform (s.value,register)).2 ≤ _
    rw [hready.returns h hmem,hready.peak order hp,if_pos hmem]
    exact le_max_right _ _
  · rw [Function.update_of_ne hj,Function.update_of_ne hj]
    exact (h.placed j).mono (hready.grown order)

/-- What an addition to a level returns is offered to its maxima, and nothing else is. -/
theorem Ready.greatest (hready : Ready role code s waiting i call register done x late) (h : Serial role code s order waiting)
    {p c : κ} (hp : role p = .peak c) (hc : role c = .level) :
    IsGreatest (insert 0 {v | (c,v) ∈ (s.step i).returned}) (serially code (order ++ [call]) p) := by
  have hgreatest := h.greatest p c hp hc
  have hmem : ∀ v, (c,v) ∈ (s.step i).returned ↔ (c,v) ∈ s.returned ∨ ∃ a, x = .addFetch c a ∧ v = s.value c + a := by
    intro v
    exact List.mem_append.trans (or_congr Iff.rfl (hready.next.2.2 c v))
  rw [hready.peak order hp]
  by_cases hx : ∃ a, x = .addFetch c a
  · obtain ⟨a,rfl⟩ := hx
    have hlate : .raise p ∈ late := by
      have hraised := hready.records c a p (by rw [hready.whole]; simp) hp
      rw [hready.whole] at hraised
      rcases List.mem_append.mp hraised with hearly | hlate
      · cases List.all_eq_true.mp hready.split.early _ hearly
      · simpa using hlate
    have hset : insert 0 {v | (c,v) ∈ (s.step i).returned} = insert (s.value c + a) (insert 0 {v | (c,v) ∈ s.returned}) := by
      rw [Set.insert_comm]
      congr 1
      ext v
      refine (hmem v).trans ?_
      constructor
      · rintro (hold | ⟨b,heq,rfl⟩)
        · exact .inr hold
        · cases heq
          exact .inl rfl
      · rintro (rfl | hold)
        · exact .inr ⟨a,rfl,rfl⟩
        · exact .inl hold
    rw [if_pos hlate,hset,max_comm,← hready.returns h hlate]
    exact hgreatest.insert _
  · have hlate : .raise p ∉ late := by
      intro hraise
      obtain ⟨d,a,rfl,hd⟩ := Instruction.raised_of_follows (List.all_eq_true.mp hready.split.late _ hraise)
      rw [hp] at hd
      cases hd
      exact hx ⟨a,rfl⟩
    have hset : {v | (c,v) ∈ (s.step i).returned} = {v | (c,v) ∈ s.returned} := by
      ext v
      exact (hmem v).trans ⟨fun hv => hv.resolve_right fun ⟨a,heq,_⟩ => hx ⟨a,heq⟩,.inl⟩
    rw [if_neg hlate,hset]
    exact hgreatest

/-- A call takes its place in the order when it changes a level. -/
theorem Serial.commit (h : Serial role code s order waiting)
    (hready : Ready role code s waiting i call register done x late) :
    Serial role code (s.step i) (order ++ [call]) (Function.update waiting i none) := by
  refine ⟨hready.begun h,?_,?_,fun p c hp => hready.reached h hp,hready.placed h,fun p c hp hc => hready.greatest h hp hc⟩
  · intro c hc
    rw [hready.level order hc]
    change ((s.thread i).next s.value).1 c = _
    rw [hready.next.1]
    exact Instruction.perform_congr hready.split.moves (fun d hd => h.level d hd) hc
  · intro p c hp
    change ((s.thread i).next s.value).1 p ≤ _
    rw [hready.same_peak hp]
    exact (h.below p c hp).trans (hready.grown order p c hp)

end Commit

theorem Serial.step (h : Serial role code s order waiting) (hrecords : ∀ call, (code call).Records role) (i : ι) :
    ∃ order waiting, Serial role code (s.step i) order waiting := by
  have hplaced := h.placed i
  cases hplaced with
  | @waiting register done early late x hcall ht hdone hsplit =>
    cases early with
    | nil =>
      obtain ⟨call,hw,hcode⟩ := Option.map_eq_some_iff.mp hcall
      exact ⟨_,_,h.commit ⟨hw,hcode,ht,⟨hdone,hsplit.moves,hsplit.late⟩,hrecords call⟩⟩
    | cons y early =>
      have hparts := Bool.and_eq_true_iff.mp hsplit.early
      refine ⟨order,waiting,h.harmless ?_⟩
      rw [ht]
      refine .plain hparts.1 h.below (fun register => ?_) ?_
      · have hmore : (done ++ [y]).all (·.plain role) = true := by
          simp [hdone,hparts.1]
        refine .waiting ?_ rfl hmore ⟨hparts.2,hsplit.moves,hsplit.late⟩
        rw [hcall]
        simp
      · intro hnone
        rw [hcall] at hnone
        cases hnone
  | @plain register rest hcall ht hplain =>
    refine ⟨order,waiting,h.harmless ?_⟩
    cases rest with
    | nil =>
      rw [ht]
      refine ⟨.plain hcall rfl rfl,fun _ _ => rfl,fun p c hp => ⟨le_rfl,h.below p c hp⟩,?_,?_⟩
      · intro _ _ _ _ hmem
        cases hmem
      · intro _ _ hmem
        cases hmem
    | cons y rest =>
      have hparts := Bool.and_eq_true_iff.mp hplain
      rw [ht]
      exact .plain hparts.1 h.below (fun register => .plain hcall rfl hparts.2) fun _ => hparts.2
  | settled hcall hsettled =>
    refine ⟨order,waiting,h.harmless ?_⟩
    rw [hcall]
    exact .settled hsettled h.below

theorem serial_run (horderly : ∀ call, (code call).orderly role = true) (hrecords : ∀ call, (code call).Records role)
    (schedule : List (Turn β ι)) : ∃ order waiting, Serial role code (run code schedule) order waiting := by
  refine run_induction code (motive := fun s => ∃ order waiting, Serial role code s order waiting)
    ⟨[],fun _ => none,.start⟩ ?_ schedule
  rintro s t ⟨order,waiting,h⟩
  rcases s.turn_cases code t with hsame | ⟨i,call,register,hi,hbegin⟩ | ⟨i,hstep⟩
  · rw [hsame]
    exact ⟨order,waiting,h⟩
  · rw [hbegin]
    exact h.begin call hi (horderly call)
  · rw [hstep]
    exact h.step hrecords i

/-- Once no call is in progress, the counters are what the calls leave one after another. -/
theorem serializable (horderly : ∀ call, (code call).orderly role = true) (hrecords : ∀ call, (code call).Records role)
    {schedule : List (Turn β ι)}
    (hquiet : (run code schedule).Quiet) :
    ∃ order, order.Perm (run code schedule).begun ∧ (run code schedule).value = serially code order ∧
      ∀ p c, role p = .peak c → role c = .level →
        IsGreatest (insert 0 {v | (c,v) ∈ (run code schedule).returned}) ((run code schedule).value p) := by
  obtain ⟨order,waiting,h⟩ := serial_run horderly hrecords schedule
  have hnone : ∀ i, waiting i = none := by
    intro i
    obtain ⟨register,hi⟩ := Thread.running_of_idle (hquiet i)
    exact h.not_waiting hi
  have hperm : order.Perm (run code schedule).begun := by
    have hbegun := h.begun
    simp only [hnone,Option.toList_none,Multiset.coe_nil,Finset.sum_const_zero,add_zero] at hbegun
    exact Multiset.coe_eq_coe.mp hbegun
  have hpeak : ∀ p c, role p = .peak c → (run code schedule).value p = serially code order p := by
    intro p c hp
    rcases h.reached p c hp with heq | ⟨i,_,hmem,_⟩
    · exact heq.symm
    · obtain ⟨register,hi⟩ := Thread.running_of_idle (hquiet i)
      rw [hi] at hmem
      cases hmem
  refine ⟨order,hperm,?_,?_⟩
  · funext c
    cases hc : role c with
    | level => exact h.level c hc
    | peak of => exact hpeak c of hc
    | total =>
      have hkeeps : ∀ call, (code call).keeps c = true := fun call => Code.keeps_of_orderly (horderly call) hc
      rw [value_of_quiet hkeeps hquiet,serially_booked hkeeps]
      exact ((hperm.map _).sum_eq).symm
  · intro p c hp hc
    rw [hpeak p c hp]
    exact h.greatest p c hp hc

end Counters
end Precizer.General
