import Precizer.General.StoppedFold
import Precizer.Settings.IniText

/-! # The calls of a stream

Which calls a stream asks for, and where its syntax ends, does not depend on the handler; a
handler can only end the calls early. Names and values fit their arrays and stay on one line.
-/
namespace Precizer.Settings
open General

variable {σ : Type*}

/-- The parser after a line whose call was accepted. -/
def Parser.settled (p : Parser) : Line → Parser
  | .invalid => p.failed
  | _ => p

def Parser.calls (p : Parser) : Line → List Call
  | .entry e => [p.call e]
  | _ => []

/-- The parser at the end, and the calls on the way, as long as all of them are accepted. -/
def iniCalls (p : Parser) (stream : Stream) : Parser × List Call :=
  match _h : fgets iniMaxLine stream with
  | none => ({ p with readFailed := stream.failing },[])
  | some (read,rest) =>
    let next := iniNextLine p (cString read) rest
    let parsed := iniParseLine next.1 (cString read)
    let settled := parsed.1.settled parsed.2
    if settled.error ≠ 0 then (settled,parsed.1.calls parsed.2)
    else ((iniCalls settled next.2).1,parsed.1.calls parsed.2 ++ (iniCalls settled next.2).2)
termination_by stream.bytes.length
decreasing_by all_goals exact (iniNextLine_shorter _ _ _).trans_lt (fgets_shorter (by decide) _h)

/-- Calls that are all accepted lead to the end; the line of a refused call is the error. -/
def Concludes (final : Parser) : σ × Option Call → Parser × σ → Prop
  | (user,none),result => result = (final,user)
  | (user,some c),result => result.1.error = c.lineno ∧ result.2 = user

theorem iniParseStream_none (handler : Handler σ) (p : Parser) (user : σ) {stream : Stream}
    (h : fgets iniMaxLine stream = none) : iniParseStream handler p user stream = ({ p with readFailed := stream.failing },user) := by
  rw [iniParseStream]
  split
  · rfl
  · rename_i hsome
    rw [h] at hsome
    cases hsome

theorem iniParseStream_some (handler : Handler σ) (p : Parser) (user : σ) {stream rest : Stream} {read : Text}
    (h : fgets iniMaxLine stream = some (read,rest)) {next : Parser × Stream} (hnext : next = iniNextLine p (cString read) rest)
    {parsed : Parser × Line} (hparsed : parsed = iniParseLine next.1 (cString read)) {handled : Parser × σ}
    (hhandled : handled = parsed.1.handled handler user parsed.2) :
    iniParseStream handler p user stream =
      if handled.1.error ≠ 0 then handled else iniParseStream handler handled.1 handled.2 next.2 := by
  subst hnext hparsed hhandled
  rw [iniParseStream]
  split
  · rename_i hnone
    rw [h] at hnone
    cases hnone
  · rename_i read' rest' hsome
    rw [h] at hsome
    cases hsome
    rfl

theorem iniCalls_none (p : Parser) {stream : Stream} (h : fgets iniMaxLine stream = none) :
    iniCalls p stream = ({ p with readFailed := stream.failing },[]) := by
  rw [iniCalls]
  split
  · rfl
  · rename_i hsome
    rw [h] at hsome
    cases hsome

theorem iniCalls_some (p : Parser) {stream rest : Stream} {read : Text}
    (h : fgets iniMaxLine stream = some (read,rest)) {next : Parser × Stream} (hnext : next = iniNextLine p (cString read) rest)
    {parsed : Parser × Line} (hparsed : parsed = iniParseLine next.1 (cString read)) :
    iniCalls p stream =
      if (parsed.1.settled parsed.2).error ≠ 0 then (parsed.1.settled parsed.2,parsed.1.calls parsed.2)
      else ((iniCalls (parsed.1.settled parsed.2) next.2).1,
        parsed.1.calls parsed.2 ++ (iniCalls (parsed.1.settled parsed.2) next.2).2) := by
  subst hnext hparsed
  rw [iniCalls]
  split
  · rename_i hnone
    rw [h] at hnone
    cases hnone
  · rename_i read' rest' hsome
    rw [h] at hsome
    cases hsome
    rfl

@[simp] theorem Parser.failed_lineno (p : Parser) : p.failed.lineno = p.lineno := by
  unfold Parser.failed
  split <;> rfl

@[simp] theorem Parser.failed_sectionName (p : Parser) : p.failed.sectionName = p.sectionName := by
  unfold Parser.failed
  split <;> rfl

@[simp] theorem Parser.failed_prevName (p : Parser) : p.failed.prevName = p.prevName := by
  unfold Parser.failed
  split <;> rfl

/-- No error so far, or one on the line that is being read. -/
def Parser.Current (p : Parser) : Prop := 0 < p.lineno ∧ (p.error = 0 ∨ p.error = p.lineno)

theorem Parser.Current.failed {p : Parser} (h : p.Current) : p.failed.Current ∧ p.failed.error = p.lineno := by
  obtain ⟨hline,herror⟩ := h
  have hfailed : p.failed.error = p.lineno := by
    unfold Parser.failed
    rcases herror with hzero | hthis
    · rw [if_pos hzero]
    · rw [if_neg (by omega),hthis]
  exact ⟨⟨by rw [p.failed_lineno]; exact hline,.inr (by rw [hfailed,p.failed_lineno])⟩,hfailed⟩

theorem iniDiscard_keeps (p : Parser) (stream : Stream) (h : p.Current) :
    (iniDiscard p stream).1.Current ∧ (iniDiscard p stream).1.lineno = p.lineno ∧
      (iniDiscard p stream).1.sectionName = p.sectionName ∧ (iniDiscard p stream).1.prevName = p.prevName := by
  fun_induction iniDiscard p stream with
  | case1 p => exact ⟨h,rfl,rfl,rfl⟩
  | case2 p => exact ⟨h.failed.1,p.failed_lineno,p.failed_sectionName,p.failed_prevName⟩
  | case3 p stream abyss rest _ _ ih =>
    obtain ⟨hcurrent,hline,hsection,hprev⟩ := ih h.failed.1
    rw [p.failed_lineno] at hline
    rw [p.failed_sectionName] at hsection
    rw [p.failed_prevName] at hprev
    exact ⟨hcurrent,hline,hsection,hprev⟩

theorem iniNextLine_keeps {p : Parser} (h : p.error = 0) (line : Text) (rest : Stream) :
    (iniNextLine p line rest).1.Current ∧ (iniNextLine p line rest).1.lineno = p.lineno + 1 ∧
      (iniNextLine p line rest).1.sectionName = p.sectionName ∧ (iniNextLine p line rest).1.prevName = p.prevName := by
  have hcurrent : ({ p with lineno := p.lineno + 1 } : Parser).Current := ⟨Nat.succ_pos _,.inl h⟩
  unfold iniNextLine
  split
  · exact iniDiscard_keeps _ rest hcurrent
  · exact ⟨hcurrent,rfl,rfl,rfl⟩

theorem iniParseLine_keeps (p : Parser) (line : Text) :
    (iniParseLine p line).1.lineno = p.lineno ∧ (iniParseLine p line).1.error = p.error := by
  have hsection (start : Text) : (iniParseSection p start).1.lineno = p.lineno ∧ (iniParseSection p start).1.error = p.error := by
    unfold iniParseSection
    split
    · split <;> exact ⟨rfl,rfl⟩
    · exact ⟨rfl,rfl⟩
  have hpair (start : Text) : (iniParsePair p start).1.lineno = p.lineno ∧ (iniParsePair p start).1.error = p.error := by
    unfold iniParsePair
    split
    · split <;> exact ⟨rfl,rfl⟩
    · exact ⟨rfl,rfl⟩
  unfold iniParseLine
  dsimp only
  split
  · exact ⟨rfl,rfl⟩
  · split
    · exact ⟨rfl,rfl⟩
    · split
      · exact hsection _
      · exact hpair _

theorem Parser.Current.parsed {p : Parser} (h : p.Current) (line : Text) : (iniParseLine p line).1.Current := by
  obtain ⟨hline,herror⟩ := iniParseLine_keeps p line
  rw [Parser.Current,hline,herror]
  exact h

theorem Parser.Current.settled {p : Parser} (h : p.Current) (line : Line) :
    (p.settled line).Current ∧ (p.settled line).lineno = p.lineno := by
  cases line with
  | nothing => exact ⟨h,rfl⟩
  | invalid => exact ⟨h.failed.1,p.failed_lineno⟩
  | entry e => exact ⟨h,rfl⟩

theorem iniParseStream_concludes (handler : Handler σ) (p : Parser) (user : σ) (stream : Stream) (hp : p.error = 0) :
    Concludes (iniCalls p stream).1 (stoppedFold handler user (iniCalls p stream).2)
      (iniParseStream handler p user stream) := by
  induction hlength : stream.bytes.length using Nat.strong_induction_on generalizing p user stream with
  | _ n ih =>
  cases hread : fgets iniMaxLine stream with
  | none =>
    rw [iniParseStream_none handler p user hread,iniCalls_none p hread]
    exact rfl
  | some answer =>
    obtain ⟨read,rest⟩ := answer
    set next := iniNextLine p (cString read) rest with hnext
    set parsed := iniParseLine next.1 (cString read) with hparsed
    have hcurrent : parsed.1.Current := (iniNextLine_keeps hp _ rest).1.parsed _
    have hshorter : next.2.bytes.length < n :=
      hlength ▸ (iniNextLine_shorter p _ rest).trans_lt (fgets_shorter (by decide) hread)
    have hcalls := iniCalls_some p hread hnext hparsed
    -- a line without a call leaves the handler's state, so that the rest decides
    have hsilent {q : Parser} (hhandled : parsed.1.handled handler user parsed.2 = (q,user))
        (hsettled : parsed.1.settled parsed.2 = q) (hnone : parsed.1.calls parsed.2 = []) :
        Concludes (iniCalls p stream).1 (stoppedFold handler user (iniCalls p stream).2)
          (iniParseStream handler p user stream) := by
      rw [iniParseStream_some handler p user hread hnext hparsed hhandled.symm,hcalls,hsettled,hnone]
      by_cases herror : q.error = 0
      · rw [if_neg (not_not.mpr herror),if_neg (not_not.mpr herror),List.nil_append]
        exact ih _ hshorter q user next.2 herror rfl
      · rw [if_pos herror,if_pos herror]
        exact rfl
    cases hline : parsed.2 with
    | nothing =>
      rw [hline] at hsilent
      exact hsilent rfl rfl rfl
    | invalid =>
      rw [hline] at hsilent
      exact hsilent rfl rfl rfl
    | entry e =>
      have hsettled : parsed.1.settled parsed.2 = parsed.1 := by rw [hline]; rfl
      have hcall : parsed.1.calls parsed.2 = [parsed.1.call e] := by rw [hline]; rfl
      rw [hcalls,hsettled,hcall]
      cases hanswer : handler user (parsed.1.call e) with
      | mk answered accepted =>
      cases accepted with
      | true =>
        have hhandled : (parsed.1,answered) = parsed.1.handled handler user parsed.2 := by
          simp [hline,Parser.handled,hanswer]
        have hcontinued (calls : List Call) : stoppedFold handler user (parsed.1.call e :: calls) =
            stoppedFold handler answered calls := by
          rw [stoppedFold_accepted (by rw [hanswer]) calls,hanswer]
        rw [iniParseStream_some handler p user hread hnext hparsed hhandled]
        by_cases herror : parsed.1.error = 0
        · rw [if_neg (not_not.mpr herror),if_neg (not_not.mpr herror),List.singleton_append,hcontinued]
          exact ih _ hshorter parsed.1 answered next.2 herror rfl
        · rw [if_pos herror,if_pos herror,hcontinued]
          exact rfl
      | false =>
        have hhandled : (parsed.1.failed,answered) = parsed.1.handled handler user parsed.2 := by
          simp [hline,Parser.handled,hanswer]
        have hstopped (calls : List Call) : stoppedFold handler user (parsed.1.call e :: calls) =
            (answered,some (parsed.1.call e)) := by
          rw [stoppedFold_refused (by rw [hanswer]) calls,hanswer]
        have hfailed := hcurrent.failed.2
        have hpositive : parsed.1.failed.error ≠ 0 := hfailed ▸ Nat.ne_of_gt hcurrent.1
        rw [iniParseStream_some handler p user hread hnext hparsed hhandled,if_pos hpositive]
        split
        · rw [hstopped]
          exact ⟨hfailed,rfl⟩
        · rw [List.singleton_append,hstopped]
          exact ⟨hfailed,rfl⟩

theorem iniCalls_all {I : Parser → Prop} {Q : Call → Prop}
    (hstep : ∀ (p : Parser) (read : Text) (stream rest : Stream), fgets iniMaxLine stream = some (read,rest) → p.error = 0 →
      I p → ∀ next, next = iniNextLine p (cString read) rest → ∀ parsed, parsed = iniParseLine next.1 (cString read) →
        I (parsed.1.settled parsed.2) ∧ ∀ c ∈ parsed.1.calls parsed.2, Q c)
    (p : Parser) (stream : Stream) (hp : p.error = 0) (hI : I p) : ∀ c ∈ (iniCalls p stream).2, Q c := by
  induction hlength : stream.bytes.length using Nat.strong_induction_on generalizing p stream with
  | _ n ih =>
  cases hread : fgets iniMaxLine stream with
  | none =>
    rw [iniCalls_none p hread]
    exact fun c hc => absurd hc List.not_mem_nil
  | some answer =>
    obtain ⟨read,rest⟩ := answer
    set next := iniNextLine p (cString read) rest with hnext
    set parsed := iniParseLine next.1 (cString read) with hparsed
    obtain ⟨hinvariant,hcalls⟩ := hstep p read stream rest hread hp hI next hnext parsed hparsed
    have hshorter : next.2.bytes.length < n :=
      hlength ▸ (iniNextLine_shorter p _ rest).trans_lt (fgets_shorter (by decide) hread)
    rw [iniCalls_some p hread hnext hparsed]
    split
    · exact hcalls
    · rename_i herror
      intro c hc
      rcases List.mem_append.mp hc with hfirst | hrest
      · exact hcalls c hfirst
      · exact ih _ hshorter _ next.2 (not_not.mp herror) hinvariant rfl c hrest

theorem iniCalls_increasing (p : Parser) (stream : Stream) (hp : p.error = 0) :
    (iniCalls p stream).2.Pairwise (fun c d => c.lineno < d.lineno) ∧
      (∀ c ∈ (iniCalls p stream).2, p.lineno < c.lineno) ∧
      ((iniCalls p stream).1.error ≠ 0 → p.lineno < (iniCalls p stream).1.error ∧
        ∀ c ∈ (iniCalls p stream).2, c.lineno ≤ (iniCalls p stream).1.error) := by
  induction hlength : stream.bytes.length using Nat.strong_induction_on generalizing p stream with
  | _ n ih =>
  cases hread : fgets iniMaxLine stream with
  | none =>
    rw [iniCalls_none p hread]
    exact ⟨List.Pairwise.nil,fun c hc => absurd hc List.not_mem_nil,fun h => absurd hp h⟩
  | some answer =>
    obtain ⟨read,rest⟩ := answer
    set next := iniNextLine p (cString read) rest with hnext
    set parsed := iniParseLine next.1 (cString read) with hparsed
    obtain ⟨hcurrent,hnumber,-,-⟩ := iniNextLine_keeps hp (cString read) rest
    obtain ⟨hparsedline,-⟩ := iniParseLine_keeps next.1 (cString read)
    have hline : parsed.1.lineno = p.lineno + 1 := hparsedline.trans hnumber
    obtain ⟨hsettled,hsettledline⟩ := (hcurrent.parsed (cString read)).settled parsed.2
    rw [← hnext,← hparsed] at hsettled hsettledline
    have hown : ∀ c ∈ parsed.1.calls parsed.2, c.lineno = p.lineno + 1 := by
      intro c hc
      cases hkind : parsed.2 with
      | nothing => rw [hkind] at hc; cases hc
      | invalid => rw [hkind] at hc; cases hc
      | entry e =>
        rw [hkind] at hc
        rw [List.mem_singleton.mp hc]
        exact hline
    have hsingle : (parsed.1.calls parsed.2).Pairwise (fun c d => c.lineno < d.lineno) := by
      cases parsed.2 with
      | nothing => exact List.Pairwise.nil
      | invalid => exact List.Pairwise.nil
      | entry e => exact List.pairwise_singleton _ _
    have hshorter : next.2.bytes.length < n :=
      hlength ▸ (iniNextLine_shorter p _ rest).trans_lt (fgets_shorter (by decide) hread)
    rw [iniCalls_some p hread hnext hparsed]
    split
    · rename_i herror
      refine ⟨hsingle,fun c hc => by rw [hown c hc]; exact Nat.lt_succ_self _,fun _ => ?_⟩
      have hthis : (parsed.1.settled parsed.2).error = p.lineno + 1 := by
        rcases hsettled.2 with hzero | hthis
        · exact absurd hzero herror
        · rw [hthis,hsettledline,hline]
      rw [hthis]
      exact ⟨Nat.lt_succ_self _,fun c hc => (hown c hc).le⟩
    · rename_i herror
      obtain ⟨hpairwise,hlater,hend⟩ := ih _ hshorter _ next.2 (not_not.mp herror) rfl
      rw [hsettledline,hline] at hlater hend
      refine ⟨List.pairwise_append.mpr ⟨hsingle,hpairwise,?_⟩,?_,?_⟩
      · intro c hc d hd
        rw [hown c hc]
        exact hlater d hd
      · intro c hc
        rcases List.mem_append.mp hc with hfirst | hrest
        · rw [hown c hfirst]
          exact Nat.lt_succ_self _
        · exact (Nat.lt_succ_self _).trans (hlater c hrest)
      · intro hne
        obtain ⟨hbound,hcalls⟩ := hend hne
        refine ⟨(Nat.lt_succ_self _).trans hbound,?_⟩
        intro c hc
        rcases List.mem_append.mp hc with hfirst | hrest
        · rw [hown c hfirst]
          exact hbound.le
        · exact hcalls c hrest

end Precizer.Settings
