import Precizer.General.SerialCounters

/-! # Loops that end

A maximum only grows, so a thread that fails to exchange it has seen it grow. However the other threads
are scheduled, a call returns after a bounded number of its own turns.
-/
namespace Precizer.General

variable {κ α β ι : Type*} [DecidableEq κ]

/-- Maxima are only raised, and nothing else is. -/
def Instruction.sorted (role : κ → Role κ) : Instruction κ α → Bool
  | addFetch c _ => role c = .total || role c = .level
  | add c _ => role c = .total || role c = .level
  | sub c _ => role c = .total || role c = .level
  | store c _ => role c = .total || role c = .level
  | raise p => role p ≠ .total && role p ≠ .level

variable {role : κ → Role κ}

theorem Instruction.sorted_of_plain {x : Instruction κ α} (h : x.plain role = true) : x.sorted role = true := by
  cases x with
  | addFetch c a | add c a | sub c a => exact Bool.or_eq_true_iff.mpr (.inl h)
  | store c v | raise p => cases h

theorem Instruction.sorted_of_moves {x : Instruction κ α} (h : x.moves role = true) : x.sorted role = true := by
  cases x with
  | addFetch c a | add c a | sub c a | store c a => exact Bool.or_eq_true_iff.mpr (.inr h)
  | raise p => cases h

theorem Instruction.sorted_of_follows {x y : Instruction κ α} (h : x.follows role y = true) : y.sorted role = true := by
  cases y with
  | add c a | sub c a => exact Bool.or_eq_true_iff.mpr (.inl h)
  | raise p =>
    obtain ⟨c,a,_,hp⟩ := raised_of_follows h
    simp [sorted,hp]
  | addFetch c a | store c v => cases h

theorem Code.sorted_of_orderly {code : Code κ α} (h : code.orderly role = true) : code.all (·.sorted role) = true := by
  induction code with
  | nil => rfl
  | cons x code ih =>
    rw [Code.orderly] at h
    split at h
    · rename_i hx
      simp [Instruction.sorted_of_plain hx,ih h]
    · have hparts := Bool.and_eq_true_iff.mp h
      have hrest : code.all (·.sorted role) = true := by
        refine List.all_eq_true.mpr fun y hy => ?_
        exact Instruction.sorted_of_follows (List.all_eq_true.mp hparts.2 y hy)
      simp [Instruction.sorted_of_moves hparts.1,hrest]

variable [AddCommGroup α] [LinearOrder α]

/-- How many turns an instruction takes at most, where `bound` bounds the rank of a number. -/
def Instruction.turns (bound : ℕ) : Instruction κ α → ℕ
  | raise _ => bound + 1
  | _ => 1

namespace Thread

/-- A loop has observed less than it offers, and no more than the maximum is. -/
def Climbs (role : κ → Role κ) (value : κ → α) : Thread κ α → Prop
  | running _ code => code.all (·.sorted role) = true
  | exchanging register observed p code =>
    role p ≠ .total ∧ role p ≠ .level ∧ observed < register ∧ observed ≤ value p ∧ code.all (·.sorted role) = true

/-- How many turns the thread still takes at most. -/
def turns (rank : α → ℕ) (bound : ℕ) : Thread κ α → ℕ
  | running _ code => (code.map (·.turns bound)).sum
  | exchanging register observed _ code => rank register - rank observed + (code.map (·.turns bound)).sum

variable {value : κ → α}

omit [AddCommGroup α] in
theorem climbs_observe {register observed : α} {p : κ} {code : Code κ α} (hp : role p ≠ .total ∧ role p ≠ .level)
    (hobserved : observed ≤ value p) (h : code.all (·.sorted role) = true) :
    (observe register observed p code).Climbs role value := by
  unfold observe
  split
  · exact ⟨hp.1,hp.2,by assumption,hobserved,h⟩
  · exact h

/-- Every instruction of every thread leaves a maximum or makes it larger. -/
theorem Climbs.next {t : Thread κ α} (h : t.Climbs role value) :
    (t.next value).2.1.Climbs role (t.next value).1 ∧
    ∀ p, role p ≠ .total → role p ≠ .level → value p ≤ (t.next value).1 p := by
  cases t with
  | running register code =>
    cases code with
    | nil => exact ⟨h,fun _ _ _ => le_rfl⟩
    | cons x code =>
      have hparts := Bool.and_eq_true_iff.mp h
      cases x with
      | addFetch c a | add c a | sub c a | store c a =>
        refine ⟨hparts.2,fun p htotal hlevel => ?_⟩
        have hp : p ≠ c := by
          rintro rfl
          rcases Bool.or_eq_true_iff.mp hparts.1 with hc | hc
          · exact htotal (of_decide_eq_true hc)
          · exact hlevel (of_decide_eq_true hc)
        exact (Function.update_of_ne hp _ _).ge
      | raise p =>
        have hp := Bool.and_eq_true_iff.mp hparts.1
        exact ⟨climbs_observe ⟨of_decide_eq_true hp.1,of_decide_eq_true hp.2⟩ le_rfl hparts.2,fun _ _ _ => le_rfl⟩
  | exchanging register observed q code =>
    obtain ⟨htotal,hlevel,hlt,hle,hcode⟩ := h
    rw [next_exchanging]
    split
    · rename_i hobserved
      refine ⟨hcode,fun p _ _ => ?_⟩
      by_cases hp : p = q
      · subst hp
        dsimp only
        rw [Function.update_self,hobserved]
        exact hlt.le
      · exact (Function.update_of_ne hp _ _).ge
    · exact ⟨climbs_observe ⟨htotal,hlevel⟩ le_rfl hcode,fun _ _ _ => le_rfl⟩

omit [DecidableEq κ] [AddCommGroup α] in
theorem turns_observe {rank : α → ℕ} {bound : ℕ} (register observed : α) (p : κ) (code : Code κ α) :
    (observe register observed p code).turns rank bound ≤ rank register - rank observed + (code.map (·.turns bound)).sum := by
  unfold observe
  split
  · exact le_rfl
  · exact Nat.le_add_left _ _

theorem Climbs.turns_next {rank : α → ℕ} {bound : ℕ} (hrank : StrictMono rank) (hbound : ∀ a, rank a ≤ bound) {t : Thread κ α}
    (h : t.Climbs role value) (hbusy : t.idle = false) : (t.next value).2.1.turns rank bound < t.turns rank bound := by
  cases t with
  | running register code =>
    cases code with
    | nil => cases hbusy
    | cons x code =>
      change _ < x.turns bound + (code.map (·.turns bound)).sum
      cases x with
      | addFetch c a | add c a | sub c a | store c a => exact Nat.lt_add_of_pos_left Nat.one_pos
      | raise p =>
        refine (turns_observe register (value p) p code).trans_lt ?_
        have hregister := hbound register
        change _ < bound + 1 + (code.map (·.turns bound)).sum
        omega
  | exchanging register observed p code =>
    obtain ⟨_,_,hlt,hle,_⟩ := h
    have hfirst := hrank hlt
    change _ < rank register - rank observed + (code.map (·.turns bound)).sum
    rw [next_exchanging]
    split
    · change (code.map (·.turns bound)).sum < _
      omega
    · rename_i hobserved
      refine (turns_observe register (value p) p code).trans_lt ?_
      have hgrown := hrank (lt_of_le_of_ne hle (Ne.symm hobserved))
      omega

omit [AddCommGroup α] in
theorem Climbs.mono {t : Thread κ α} {value' : κ → α} (h : t.Climbs role value)
    (hgrown : ∀ p, role p ≠ .total → role p ≠ .level → value p ≤ value' p) : t.Climbs role value' := by
  cases t with
  | running register code => exact h
  | exchanging register observed p code =>
    obtain ⟨htotal,hlevel,hlt,hle,hcode⟩ := h
    exact ⟨htotal,hlevel,hlt,hle.trans (hgrown p htotal hlevel),hcode⟩

end Thread

/-- The turn executes an instruction of the thread. -/
def Turn.takenBy [DecidableEq ι] (i : ι) : Turn β ι → Bool
  | begin _ _ => false
  | step j => j = i

namespace Counters
variable [DecidableEq ι] {code : β → Code κ α}

theorem climbs_turn (horderly : ∀ call, (code call).orderly role = true) {s : Counters κ α β ι}
    (h : ∀ i, (s.thread i).Climbs role s.value) (t : Turn β ι) :
    (∀ i, ((s.turn code t).thread i).Climbs role (s.turn code t).value) ∧
    ∀ p, role p ≠ .total → role p ≠ .level → s.value p ≤ (s.turn code t).value p := by
  rcases s.turn_cases code t with hsame | ⟨i,call,register,hi,hbegin⟩ | ⟨i,hstep⟩
  · rw [hsame]
    exact ⟨h,fun _ _ _ => le_rfl⟩
  · rw [hbegin]
    refine ⟨?_,fun _ _ _ => le_rfl⟩
    exact (Function.forall_update_iff s.thread fun _ t => t.Climbs role s.value).mpr
      ⟨Code.sorted_of_orderly (horderly call),fun j _ => h j⟩
  · rw [hstep]
    refine ⟨?_,(h i).next.2⟩
    exact (Function.forall_update_iff s.thread fun _ t => t.Climbs role ((s.thread i).next s.value).1).mpr
      ⟨(h i).next.1,fun j _ => (h j).mono (h i).next.2⟩

theorem climbs_run (horderly : ∀ call, (code call).orderly role = true) (schedule : List (Turn β ι)) :
    ∀ i, ((run code schedule).thread i).Climbs role (run code schedule).value :=
  run_induction code (motive := fun s => ∀ i, (s.thread i).Climbs role s.value) (fun _ => rfl)
    (fun _ t h => (climbs_turn horderly h t).1) schedule

/-- However the turns go on, a maximum never falls. -/
theorem peak_le (horderly : ∀ call, (code call).orderly role = true) {p c : κ} (hp : role p = .peak c)
    (before after : List (Turn β ι)) : (run code before).value p ≤ (run code (before ++ after)).value p := by
  induction after using List.reverseRecOn with
  | nil => rw [List.append_nil]
  | append_singleton after t ih =>
    refine ih.trans ?_
    rw [← List.append_assoc]
    have hturn := (climbs_turn horderly (climbs_run horderly (before ++ after)) t).2 p (by rw [hp]; simp) (by rw [hp]; simp)
    have hlast : run code (before ++ after ++ [t]) = (run code (before ++ after)).turn code t := by
      simp [run]
    rw [hlast]
    exact hturn

theorem thread_turn {s : Counters κ α β ι} {i : ι} (hbusy : (s.thread i).idle = false) {t : Turn β ι} (ht : t ≠ .step i) :
    (s.turn code t).thread i = s.thread i := by
  cases t with
  | begin j call =>
    by_cases hj : i = j
    · subst hj
      exact congrArg (fun s : Counters κ α β ι => s.thread i) (if_neg (by simp [hbusy]))
    · change (s.begin code j call).thread i = s.thread i
      unfold Counters.begin
      split
      · exact Function.update_of_ne hj _ _
      · rfl
  | step j =>
    have hj : i ≠ j := by
      rintro rfl
      exact ht rfl
    exact Function.update_of_ne hj _ _

theorem returns (horderly : ∀ call, (code call).orderly role = true) {rank : α → ℕ} {bound : ℕ} (hrank : StrictMono rank)
    (hbound : ∀ a, rank a ≤ bound) (i : ι) (before after : List (Turn β ι))
    (hturns : ((run code before).thread i).turns rank bound ≤ after.countP (·.takenBy i)) :
    ∃ a b, after = a ++ b ∧ ((run code (before ++ a)).thread i).idle = true := by
  induction after generalizing before with
  | nil =>
    refine ⟨[],[],rfl,?_⟩
    rw [List.append_nil]
    by_contra hbusy
    have hless := ((climbs_run horderly before) i).turns_next hrank hbound (Bool.eq_false_iff.mpr hbusy)
    exact Nat.not_lt_zero _ (hless.trans_le hturns)
  | cons t rest ih =>
    by_cases hidle : ((run code before).thread i).idle = true
    · exact ⟨[],t :: rest,rfl,by rwa [List.append_nil]⟩
    have hbusy : ((run code before).thread i).idle = false := Bool.eq_false_iff.mpr hidle
    have hone : run code (before ++ [t]) = (run code before).turn code t := by
      simp [run]
    have hleft : ((run code (before ++ [t])).thread i).turns rank bound ≤ rest.countP (·.takenBy i) := by
      rw [hone]
      by_cases ht : t = .step i
      · subst ht
        have hless := ((climbs_run horderly before) i).turns_next hrank hbound hbusy
        have hnow : ((run code before).turn code (.step i)).thread i =
            (((run code before).thread i).next (run code before).value).2.1 := Function.update_self _ _ _
        have hcount : (Turn.step i :: rest : List (Turn β ι)).countP (·.takenBy i) = rest.countP (·.takenBy i) + 1 :=
          List.countP_cons_of_pos (by simp [Turn.takenBy])
        rw [hnow]
        omega
      · rw [thread_turn hbusy ht]
        have hcount : (t :: rest).countP (·.takenBy i) = rest.countP (·.takenBy i) := by
          refine List.countP_cons_of_neg ?_
          cases t with
          | begin j call => simp [Turn.takenBy]
          | step j =>
            intro hj
            exact ht (congrArg Turn.step (of_decide_eq_true hj))
        rwa [hcount] at hturns
    obtain ⟨a,b,hsplit,hdone⟩ := ih (before ++ [t]) hleft
    refine ⟨t :: a,b,by rw [hsplit,List.cons_append],?_⟩
    rwa [List.append_assoc,List.singleton_append] at hdone

end Counters
end Precizer.General
