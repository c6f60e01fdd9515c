import Mathlib.Tactic.Common

/-! # Return statuses and their propagation

A status is a set of flags. Every function leaves through `provide`, which merges
the process-wide status, and callers accumulate what they receive through `run`,
`call` and `ask`. The process-wide status is an argument here: it is the literal
value one normalization loads.
-/
namespace Precizer.Rational

structure Return where
  failure : Bool := false
  success : Bool := false
  halted : Bool := false
  warning : Bool := false
  donothing : Bool := false
  info : Bool := false
  yes : Bool := false
  no : Bool := false
  awaiting : Bool := false
  deriving DecidableEq

namespace Return

/-- The union of two flag sets, the source's `|`. -/
def union (s t : Return) : Return where
  failure := s.failure || t.failure
  success := s.success || t.success
  halted := s.halted || t.halted
  warning := s.warning || t.warning
  donothing := s.donothing || t.donothing
  info := s.info || t.info
  yes := s.yes || t.yes
  no := s.no || t.no
  awaiting := s.awaiting || t.awaiting

def critical (s : Return) : Bool := s.warning || s.failure
def triumph (s : Return) : Bool := s.success || s.halted || s.donothing || s.info
def decision (s : Return) : Bool := s.yes || s.no
def skip (s : Return) : Bool := s.warning || s.failure || s.halted

def globalBits (s : Return) : Return := { info := s.info, warning := s.warning, halted := s.halted }

/-- `CRITICAL` drops `SUCCESS` and `NO` drops `YES`. -/
def clean (s : Return) : Return :=
  { s with success := s.success && !s.critical, yes := s.yes && !s.no }

/-- The status without `AWAITING` and without the answer. -/
def technical (s : Return) : Return := { s with awaiting := false, yes := false, no := false }

end Return

def successStatus : Return := { success := true }
def failureStatus : Return := { failure := true }
def warningStatus : Return := { warning := true }
def haltedStatus : Return := { halted := true }

def rationalNormalizeReturn (globalStatus status : Return) : Return :=
  (status.clean.union globalStatus.clean.globalBits).clean

def provide (globalStatus status : Return) : Return :=
  if status.awaiting then failureStatus
  else
    let returned := rationalNormalizeReturn globalStatus status
    if returned.decision then { returned with awaiting := true } else returned

/-- The merge at the end of `call`, and of `run` when the callee was executed. -/
def call (globalStatus status returned : Return) : Return :=
  if status.awaiting then failureStatus
  else if returned.awaiting then failureStatus
  else rationalNormalizeReturn globalStatus (status.union returned)

/-- `run` leaves the status alone when it carries a `SKIP` bit. -/
def run (globalStatus status returned : Return) : Return :=
  if status.awaiting then failureStatus
  else if status.skip then status
  else call globalStatus status returned

/-- The answer of a yes/no function and the caller's status after it. -/
def rationalAsk (globalStatus status returned : Return) : Bool × Return :=
  let returned := rationalNormalizeReturn globalStatus returned
  if !returned.awaiting || !returned.decision then
    (false,rationalNormalizeReturn globalStatus (status.technical.union failureStatus))
  else
    (!returned.critical && returned.yes,
      rationalNormalizeReturn globalStatus (status.technical.union returned.technical))

def ask (globalStatus status returned : Return) : Bool × Return :=
  if !status.skip || status.awaiting then rationalAsk globalStatus status returned else (false,status)

/-- The process-wide status: only the signal handler ever stores into it. -/
def globalReturnStatus (halted : Bool) : Return := if halted then haltedStatus else successStatus

/-- A success or a technical failure, with or without the halt merged in. -/
def outcome (ok halted : Bool) : Return := { success := ok, failure := !ok, halted := halted }

theorem outcome_inj {a b c d : Bool} : outcome a b = outcome c d ↔ a = c ∧ b = d := by
  cases a <;> cases b <;> cases c <;> cases d <;> decide

@[simp] theorem outcome_success (ok halted : Bool) : (outcome ok halted).success = ok := rfl
@[simp] theorem outcome_failure (ok halted : Bool) : (outcome ok halted).failure = !ok := rfl
@[simp] theorem outcome_halted (ok halted : Bool) : (outcome ok halted).halted = halted := rfl
@[simp] theorem outcome_warning (ok halted : Bool) : (outcome ok halted).warning = false := rfl
@[simp] theorem outcome_awaiting (ok halted : Bool) : (outcome ok halted).awaiting = false := rfl

@[simp] theorem outcome_triumph (ok halted : Bool) : (outcome ok halted).triumph = (ok || halted) := by
  cases ok <;> cases halted <;> rfl

@[simp] theorem outcome_skip (ok halted : Bool) : (outcome ok halted).skip = (!ok || halted) := by
  cases ok <;> cases halted <;> rfl

theorem outcome_eq_success {ok halted : Bool} :
    outcome ok halted = successStatus ↔ ok = true ∧ halted = false := by
  cases ok <;> cases halted <;> decide

theorem successStatus_eq : successStatus = outcome true false := rfl
theorem failureStatus_eq : failureStatus = outcome false false := rfl

@[simp] theorem provide_outcome (h ok halted : Bool) :
    provide (globalReturnStatus h) (outcome ok halted) = outcome ok (halted || h) := by
  cases h <;> cases ok <;> cases halted <;> decide

@[simp] theorem call_outcome (h ok halted ok' halted' : Bool) :
    call (globalReturnStatus h) (outcome ok halted) (outcome ok' halted') =
      outcome (ok && ok') (halted || halted' || h) := by
  cases h <;> cases ok <;> cases halted <;> cases ok' <;> cases halted' <;> decide

theorem run_outcome (h ok halted ok' halted' : Bool) :
    run (globalReturnStatus h) (outcome ok halted) (outcome ok' halted') =
      if ok && !halted then outcome ok' (halted' || h) else outcome ok halted := by
  cases h <;> cases ok <;> cases halted <;> cases ok' <;> cases halted' <;> decide

/-- `run` ends in success only when it executed its callee and the callee succeeded. -/
theorem run_success {h : Bool} {status : Return} {ok halted : Bool}
    (hrun : run (globalReturnStatus h) status (outcome ok halted) = successStatus) :
    status.skip = false ∧ ok = true ∧ halted = false := by
  unfold run at hrun
  split at hrun
  · cases hrun
  · split at hrun
    · rename_i hskip
      rw [hrun] at hskip
      cases hskip
    · rename_i hawaiting hskip
      simp only [call,hawaiting,outcome_awaiting,Bool.false_eq_true,↓reduceIte] at hrun
      have hfailure := congrArg Return.failure hrun
      have hhalted := congrArg Return.halted hrun
      simp [rationalNormalizeReturn,Return.clean,Return.union,outcome,successStatus] at hfailure hhalted
      exact ⟨by simpa using hskip,by simp_all,by simp_all⟩

/-- No normalization takes a failure back. -/
theorem failure_of_provide {globalStatus status : Return}
    (h : (provide globalStatus status).failure = false) : status.failure = false := by
  cases hf : status.failure with
  | false => rfl
  | true =>
    have hclean : (rationalNormalizeReturn globalStatus status).failure = true := by
      simp [rationalNormalizeReturn,Return.clean,Return.union,hf]
    unfold provide at h
    split at h
    · cases h
    · dsimp only at h
      split at h
      · exact absurd (hclean.symm.trans h) (by decide)
      · exact absurd (hclean.symm.trans h) (by decide)

theorem failure_of_call {globalStatus status returned : Return}
    (h : (call globalStatus status returned).failure = false) :
    status.failure = false ∧ returned.failure = false := by
  unfold call at h
  split at h
  · cases h
  · split at h
    · cases h
    · simpa [rationalNormalizeReturn,Return.clean,Return.union,Return.globalBits] using h

theorem success_of_provide {h : Bool} {status : Return}
    (hp : provide (globalReturnStatus h) status = successStatus) : status = successStatus := by
  obtain ⟨failure,success,halted,warning,donothing,info,yes,no,awaiting⟩ := status
  revert h failure success halted warning donothing info yes no awaiting
  decide +kernel

/-- Success, or a status under which `run` executes nothing more. -/
def Return.conclusive (s : Return) : Bool := s = successStatus || s.skip

theorem conclusive_outcome (ok halted : Bool) : (outcome ok halted).conclusive = true := by
  cases ok <;> cases halted <;> decide

theorem conclusive_provide {h : Bool} {status : Return} (hs : status.conclusive = true) :
    (provide (globalReturnStatus h) status).conclusive = true := by
  obtain ⟨failure,success,halted,warning,donothing,info,yes,no,awaiting⟩ := status
  revert h failure success halted warning donothing info yes no awaiting
  decide +kernel

theorem conclusive_call {h ok halted' : Bool} {status : Return} (hs : status.conclusive = true) :
    (call (globalReturnStatus h) status (outcome ok halted')).conclusive = true := by
  obtain ⟨failure,success,halted,warning,donothing,info,yes,no,awaiting⟩ := status
  revert h ok halted' failure success halted warning donothing info yes no awaiting
  decide +kernel

theorem success_of_conclusive {status : Return} (hs : status.conclusive = true) (hskip : status.skip = false) :
    status = successStatus := by
  simpa [Return.conclusive,hskip] using hs

theorem conclusive_run {h ok halted' : Bool} {status : Return} (hs : status.conclusive = true) :
    (run (globalReturnStatus h) status (outcome ok halted')).conclusive = true := by
  unfold run
  split
  · decide
  · split
    · exact hs
    · exact conclusive_call hs

theorem success_of_call {h ok halted' : Bool} {status : Return} (hs : status.conclusive = true)
    (hcall : call (globalReturnStatus h) status (outcome ok halted') = successStatus) :
    status = successStatus := by
  obtain ⟨failure,success,halted,warning,donothing,info,yes,no,awaiting⟩ := status
  revert h ok halted' failure success halted warning donothing info yes no awaiting
  decide +kernel

/-- The answer flag of a checking function, as it leaves through `provide`. -/
def answer (ok yes halted : Bool) : Return :=
  { success := ok, failure := !ok, halted := halted, yes := yes, no := !yes, awaiting := true }

theorem provide_answer (h ok yes : Bool) :
    provide (globalReturnStatus h) ((outcome ok false).union { yes := yes, no := !yes }) = answer ok yes h := by
  cases h <;> cases ok <;> cases yes <;> decide

/-- A question is only put under a status without `SKIP`; a failed check answers no. -/
theorem ask_answer (h ok halted ok' yes halted' : Bool) :
    ask (globalReturnStatus h) (outcome ok halted) (answer ok' yes halted') =
      if ok && !halted then (ok' && yes,outcome ok' (halted' || h)) else (false,outcome ok halted) := by
  cases h <;> cases ok <;> cases halted <;> cases ok' <;> cases yes <;> cases halted' <;> decide

theorem ask_triumph (h ok halted : Bool) :
    ask (globalReturnStatus h) successStatus (provide (globalReturnStatus h) ((outcome ok halted).union
      { yes := (outcome ok halted).triumph, no := !(outcome ok halted).triumph })) =
      (ok,outcome ok (halted || h)) := by
  cases h <;> cases ok <;> cases halted <;> decide

theorem ask_no (h ok halted : Bool) :
    ask (globalReturnStatus h) successStatus
      (provide (globalReturnStatus h) ((outcome ok halted).union { no := true })) =
      (false,outcome ok (halted || h)) := by
  cases h <;> cases ok <;> cases halted <;> decide

end Precizer.Rational
