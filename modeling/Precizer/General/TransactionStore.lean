import Mathlib.Data.List.Basic

/-! # A transactional store with a log

A store has the content its own connection reads, the content that is durable, and a
log of what happened. Every content that ever became durable is kept together with the
log of that moment: these are exactly the states a crash can leave. Every content a
write produced is kept as well, whether it was committed or not. Outside a transaction
the two contents agree; the agreement is a field of the structure.
-/
namespace Precizer.General

structure Store (T E : Type*) where
  working : T
  committed : T
  log : List E
  stamp : List E
  past : List (T × List E)
  written : List (T × List E)
  autocommit : Bool
  settled : autocommit = true → working = committed

namespace Store

variable {T E : Type*}

/-- A store just opened on a content, with the log that led to it. -/
def opened (t : T) (log : List E) : Store T E := ⟨t,t,log,log,[],[],true,fun _ => rfl⟩

def note (s : Store T E) (e : E) : Store T E := { s with log := s.log ++ [e] }

/-- `BEGIN` only closes the autocommit mode. -/
def begin (s : Store T E) : Store T E := { s with autocommit := false, settled := by simp }

/-- The content becomes durable under the present log. -/
def durably (s : Store T E) (t : T) : Store T E where
  working := t
  committed := t
  log := s.log
  stamp := s.log
  past := (s.committed,s.stamp) :: s.past
  written := s.written
  autocommit := true
  settled := fun _ => rfl

def commit (s : Store T E) : Store T E := s.durably s.working

def rollback (s : Store T E) : Store T E :=
  { s with working := s.committed, autocommit := true, settled := fun _ => rfl }

/-- A write outside a transaction is durable at once. -/
def write (s : Store T E) (t : T) : Store T E :=
  let s := { s with written := (t,s.log) :: s.written }
  if s.autocommit then s.durably t else { s with working := t, autocommit := false, settled := by simp }

@[simp] theorem note_working (s : Store T E) (e : E) : (s.note e).working = s.working := rfl
@[simp] theorem note_committed (s : Store T E) (e : E) : (s.note e).committed = s.committed := rfl
@[simp] theorem note_autocommit (s : Store T E) (e : E) : (s.note e).autocommit = s.autocommit := rfl
@[simp] theorem note_log (s : Store T E) (e : E) : (s.note e).log = s.log ++ [e] := rfl
@[simp] theorem begin_working (s : Store T E) : s.begin.working = s.working := rfl
@[simp] theorem begin_autocommit (s : Store T E) : s.begin.autocommit = false := rfl
@[simp] theorem begin_log (s : Store T E) : s.begin.log = s.log := rfl
@[simp] theorem commit_working (s : Store T E) : s.commit.working = s.working := rfl
@[simp] theorem commit_committed (s : Store T E) : s.commit.committed = s.working := rfl
@[simp] theorem commit_autocommit (s : Store T E) : s.commit.autocommit = true := rfl
@[simp] theorem commit_log (s : Store T E) : s.commit.log = s.log := rfl
@[simp] theorem rollback_working (s : Store T E) : s.rollback.working = s.committed := rfl
@[simp] theorem rollback_autocommit (s : Store T E) : s.rollback.autocommit = true := rfl
@[simp] theorem rollback_log (s : Store T E) : s.rollback.log = s.log := rfl

@[simp] theorem write_working (s : Store T E) (t : T) : (s.write t).working = t := by
  unfold write
  dsimp only
  split <;> rfl

@[simp] theorem write_log (s : Store T E) (t : T) : (s.write t).log = s.log := by
  unfold write
  dsimp only
  split <;> rfl

@[simp] theorem write_autocommit (s : Store T E) (t : T) : (s.write t).autocommit = s.autocommit := by
  unfold write
  dsimp only
  split
  · rename_i h
    exact h.symm
  · rename_i h
    exact (Bool.eq_false_iff.mpr h).symm

theorem write_committed {s : Store T E} (h : s.autocommit = false) (t : T) :
    (s.write t).committed = s.committed := by
  unfold write
  dsimp only
  rw [if_neg (by simp [h])]

theorem write_durable {s : Store T E} (h : s.autocommit = true) (t : T) : (s.write t).committed = t := by
  unfold write
  dsimp only
  rw [if_pos h]
  rfl

/-- Every content a crash, now or earlier, leaves on disk, with the log of its commit. -/
def durable (s : Store T E) : List (T × List E) := (s.committed,s.stamp) :: s.past

/-- Nothing became durable between two stores, both outside a transaction. -/
structure Unmoved (s s' : Store T E) : Prop where
  durable : s'.durable = s.durable
  log : s'.log = s.log
  closed : s'.autocommit = true

/-- One content became durable between two stores, under one more event. -/
structure Moved (s s' : Store T E) (e : E) (t : T) : Prop where
  durable : s'.durable = (t,s.log ++ [e]) :: s.durable
  log : s'.log = s.log ++ [e]
  closed : s'.autocommit = true

theorem Unmoved.refl {s : Store T E} (h : s.autocommit = true) : Unmoved s s := ⟨rfl,rfl,h⟩

theorem Unmoved.working {s s' : Store T E} (hs : s.autocommit = true) (h : Unmoved s s') :
    s'.working = s.working := by
  have hhead : s'.committed = s.committed := congrArg Prod.fst (List.cons.inj h.durable).1
  rw [s'.settled h.closed,s.settled hs,hhead]

theorem Moved.working {s s' : Store T E} {e : E} {t : T} (h : Moved s s' e t) : s'.working = t := by
  rw [s'.settled h.closed]
  exact congrArg Prod.fst (List.cons.inj h.durable).1

/-- A store inside a transaction that began in another store. -/
structure Within (s s' : Store T E) : Prop where
  durable : s'.durable = s.durable
  log : s'.log = s.log
  opened : s'.autocommit = false

theorem within_begin (s : Store T E) : Within s s.begin := ⟨rfl,rfl,rfl⟩

theorem Within.write {s s' : Store T E} (h : Within s s') (t : T) : Within s (s'.write t) := by
  have hopen : (s'.write t).autocommit = false := (write_autocommit s' t).trans h.opened
  refine ⟨?_,(write_log s' t).trans h.log,hopen⟩
  unfold Store.write
  dsimp only
  rw [if_neg (by simp [h.opened])]
  exact h.durable

theorem Within.rollback {s s' : Store T E} (h : Within s s') : Unmoved s s'.rollback :=
  ⟨h.durable,h.log,rfl⟩

theorem Within.commit {s s' : Store T E} (h : Within s s') (e : E) :
    Moved s (s'.note e).commit e s'.working := by
  refine ⟨?_,?_,rfl⟩
  · rw [← h.durable,← h.log]
    rfl
  · rw [← h.log]
    rfl

/-- What a later part of the log cannot take back. -/
def Stable (P : List E → T → Prop) : Prop := ∀ log e t, P log t → P (log ++ [e]) t

/-- The property holds of the content in use and of every content ever durable or written. -/
structure Always (P : List E → T → Prop) (s : Store T E) : Prop where
  working : P s.log s.working
  committed : P s.log s.committed
  durable : ∀ d ∈ s.durable, P d.2 d.1
  written : ∀ w ∈ s.written, P w.2 w.1

section Always

variable {P : List E → T → Prop} {s : Store T E}

theorem always_opened {t : T} {log : List E} (h : P log t) : Always P (opened t log) :=
  ⟨h,h,by simpa [Store.durable,opened] using h,by simp [opened]⟩

theorem Always.note (hP : Stable P) (h : Always P s) (e : E) : Always P (s.note e) :=
  ⟨hP _ _ _ h.working,hP _ _ _ h.committed,h.durable,h.written⟩

theorem Always.begin (h : Always P s) : Always P s.begin := ⟨h.working,h.committed,h.durable,h.written⟩

theorem Always.durably (h : Always P s) {t : T} (ht : P s.log t) : Always P (s.durably t) := by
  refine ⟨ht,ht,?_,h.written⟩
  intro d hd
  rcases List.mem_cons.mp hd with rfl | hd
  · exact ht
  · exact h.durable d hd

theorem Always.commit (h : Always P s) : Always P s.commit := h.durably h.working

theorem Always.rollback (h : Always P s) : Always P s.rollback := ⟨h.committed,h.committed,h.durable,h.written⟩

/-- A write keeps the property as soon as the written content has it. -/
theorem Always.write (h : Always P s) {t : T} (ht : P s.log t) : Always P (s.write t) := by
  have hwritten : ∀ w ∈ (t,s.log) :: s.written, P w.2 w.1 := by
    intro w hw
    rcases List.mem_cons.mp hw with rfl | hw
    · exact ht
    · exact h.written w hw
  have hnoted : Always P { s with written := (t,s.log) :: s.written } :=
    ⟨h.working,h.committed,h.durable,hwritten⟩
  unfold Store.write
  dsimp only
  split
  · exact hnoted.durably ht
  · exact ⟨ht,h.committed,h.durable,hwritten⟩

theorem Always.mono {Q : List E → T → Prop} (h : Always P s) (hPQ : ∀ log t, P log t → Q log t) :
    Always Q s :=
  ⟨hPQ _ _ h.working,hPQ _ _ h.committed,fun d hd => hPQ _ _ (h.durable d hd),
    fun w hw => hPQ _ _ (h.written w hw)⟩

end Always
end Store
end Precizer.General
