import Precizer.General.TransactionStore

/-! # Batches of writes

A store is written in batches: a transaction is begun, filled with writes and committed.
The durable content is the start content with the writes of the committed batches
applied, whatever happened in between.
-/
namespace Precizer.General

variable {T E W : Type*}

/-- The performed writes with the entries they left in the store. -/
inductive Performed (write : T → W → Option T) (issued : W → List E → Prop) (start : T) :
    List W → List (T × List E) → Prop where
  | nothing : Performed write issued start [] []
  | write {ws : List W} {written : List (T × List E)} {t t' : T} {w : W} {log : List E}
      (h : Performed write issued start ws written) (hbase : ws.foldlM write start = some t)
      (hwrite : write t w = some t') (hissued : issued w log) :
      Performed write issued start (ws ++ [w]) ((t',log) :: written)

namespace Store

/-- The writes that happened before the content last became durable. -/
def committedWrites (s : Store T E) : ℕ :=
  (s.written.filter fun w => w.2.length ≤ s.stamp.length).length

/-- The contents of the store are the start content under the writes, all of them inside the
open transaction and those of the committed batches outside. -/
structure Batched (write : T → W → Option T) (issued : W → List E → Prop) (start : T) (ws : List W)
    (s : Store T E) : Prop where
  performed : Performed write issued start ws s.written
  committed : (ws.take s.committedWrites).foldlM write start = some s.committed
  working : s.autocommit = false → ws.foldlM write start = some s.working
  stamped : s.stamp.length ≤ s.log.length
  logged : ∀ w ∈ s.written, w.2.length ≤ s.log.length

variable {write : T → W → Option T} {issued : W → List E → Prop} {start : T} {ws : List W}
  {s : Store T E}

theorem batched_opened (write : T → W → Option T) (issued : W → List E → Prop) (t : T) (log : List E) :
    Batched write issued t [] (opened t log) :=
  ⟨.nothing,rfl,(fun h => by cases h),Nat.le_refl _,by simp [opened]⟩

omit s in
theorem Performed.length {written : List (T × List E)} (h : Performed write issued start ws written) :
    written.length = ws.length := by
  induction h with
  | nothing => rfl
  | write h hbase hwrite hissued ih => rw [List.length_cons,List.length_append,ih]; rfl

theorem Batched.le (h : Batched write issued start ws s) : s.committedWrites ≤ ws.length := by
  rw [← Performed.length h.performed]
  exact List.length_filter_le _ _

namespace Batched

theorem closed (h : Batched write issued start ws s) (hclosed : s.autocommit = true) :
    (ws.take s.committedWrites).foldlM write start = some s.working := by
  rw [h.committed,s.settled hclosed]

theorem note (h : Batched write issued start ws s) (e : E) : Batched write issued start ws (s.note e) where
  performed := h.performed
  committed := h.committed
  working := h.working
  stamped := by
    rw [note_log,List.length_append]
    exact Nat.le_trans h.stamped (Nat.le_add_right _ _)
  logged := by
    intro w hw
    rw [note_log,List.length_append]
    exact Nat.le_trans (h.logged w hw) (Nat.le_add_right _ _)

theorem begin (h : Batched write issued start ws s) (hclosed : s.autocommit = true)
    (hall : s.committedWrites = ws.length) : Batched write issued start ws s.begin where
  performed := h.performed
  committed := h.committed
  working := by
    intro _
    have hworking := h.closed hclosed
    rwa [hall,List.take_length] at hworking
  stamped := h.stamped
  logged := h.logged

/-- A write inside a transaction, under its own event. -/
theorem write_note (h : Batched write issued start ws s) (hopen : s.autocommit = false) {e : E} {w : W}
    {t : T} (hwrite : write s.working w = some t) (hissued : issued w (s.log ++ [e])) :
    Batched write issued start (ws ++ [w]) ((s.note e).write t) ∧
      ((s.note e).write t).committedWrites = s.committedWrites := by
  have hwritten : (s.note e).write t =
      { s.note e with
        working := t
        autocommit := false
        written := (t,s.log ++ [e]) :: s.written
        settled := by simp } := by
    unfold Store.write
    dsimp only
    rw [if_neg (by simp [hopen])]
    rfl
  have hlater : ¬ (s.log ++ [e]).length ≤ s.stamp.length := by
    have hstamped := h.stamped
    rw [List.length_append,List.length_singleton]
    omega
  have hcount : ((s.note e).write t).committedWrites = s.committedWrites := by
    rw [hwritten]
    unfold committedWrites
    dsimp only
    rw [List.filter_cons_of_neg (by simpa [Store.note] using hlater)]
    rfl
  refine ⟨⟨?_,?_,?_,?_,?_⟩,hcount⟩
  · rw [hwritten]
    exact h.performed.write (h.working hopen) hwrite hissued
  · rw [hcount,List.take_append_of_le_length h.le,h.committed,hwritten]
    rfl
  · intro _
    rw [List.foldlM_append,h.working hopen,write_working]
    simp [hwrite]
  · rw [hwritten]
    exact (h.note e).stamped
  · rw [hwritten]
    intro x hx
    rcases List.mem_cons.mp hx with rfl | hx
    · exact Nat.le_refl _
    · exact (h.note e).logged x hx

theorem commit (h : Batched write issued start ws s) (hopen : s.autocommit = false) :
    Batched write issued start ws s.commit ∧ s.commit.committedWrites = ws.length := by
  have hcount : s.commit.committedWrites = ws.length := by
    rw [← Performed.length h.performed]
    change (s.written.filter fun w => w.2.length ≤ s.log.length).length = s.written.length
    congr 1
    apply List.filter_eq_self.mpr
    intro w hw
    simpa using h.logged w hw
  refine ⟨⟨h.performed,?_,?_,Nat.le_refl _,h.logged⟩,hcount⟩
  · rw [hcount,List.take_length]
    exact h.working hopen
  · intro hclosed
    cases hclosed

theorem rollback (h : Batched write issued start ws s) : Batched write issued start ws s.rollback where
  performed := h.performed
  committed := h.committed
  working := by
    intro hclosed
    cases hclosed
  stamped := h.stamped
  logged := h.logged

end Batched
end Store
end Precizer.General
