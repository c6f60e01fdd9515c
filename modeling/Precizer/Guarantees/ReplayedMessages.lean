import Precizer.Database.RememberedMessages
import Precizer.Pipeline.Run
import Mathlib.Data.List.Induction
import Mathlib.Data.List.TakeWhile

/-! # Replayed messages

The final report repeats every remembered message as long as no rollback, explicit or
automatic, ends a transaction in which a message was remembered, and no remembered text contains
a marker: the report sends the stored texts through the logger once more.
-/
namespace Precizer.Guarantees
open General Traversal Database Pipeline Logger

/-- A message is stored, with the lookup that joins its parts; what is rolled back holds no message. -/
def Undisturbed (s : HistoryStore) : HistoryStep → Prop
  | .remember m script => m = [] ∨ script.write = .done ∧
      (script.lookup = true ∨ ∀ text, s.working.getLast? = some text → endsLine text = true)
  | .begin _ => True
  | .commit o => o = .rolledBack → s.working = s.committed
  | .rollback ok => ok = true → s.working = s.committed
  | .statement o => o = .rolledBack → s.working = s.committed

variable {c : ReplayConfig} {s : HistoryStore}

theorem loggedMessages_concat (steps : List HistoryStep) (step : HistoryStep) :
    loggedMessages (steps ++ [step]) = loggedMessages steps ++ loggedMessages [step] := by
  simp only [loggedMessages,List.filterMap_append,List.filter_append]

theorem loggedMessages_ne_nil (steps : List HistoryStep) : ∀ m ∈ loggedMessages steps, m ≠ [] := by
  intro m hm
  have hne := List.of_mem_filter hm
  simpa using hne

theorem rememberedRows_lookup {lookup : Bool} {m : Message} {rows : List Message}
    (h : lookup = true ∨ ∀ text, rows.getLast? = some text → endsLine text = true) :
    rememberedRows lookup m rows = rememberedRows true m rows := by
  rcases h with rfl | hlines
  · rfl
  · have hnone : ∀ b, appendToLast b rows = false := by
      intro b
      unfold appendToLast
      cases hlast : rows.getLast? with
      | none => rfl
      | some text => simp [hlines text hlast]
    unfold rememberedRows
    rw [hnone,hnone]

theorem historyStep_rows (hfull : c.outputFull = true) {step : HistoryStep} {steps : List HistoryStep}
    (hs : s.working = joinParts (loggedMessages steps)) (hstep : Undisturbed s step) :
    (historyStep c s step).working = joinParts (loggedMessages (steps ++ [step])) := by
  have hquiet (hnone : loggedMessages [step] = []) :
      joinParts (loggedMessages (steps ++ [step])) = s.working := by
    rw [loggedMessages_concat,hnone,List.append_nil,hs]
  cases step with
  | remember m script =>
    cases m with
    | nil =>
      rw [hquiet rfl]
      rfl
    | cons b rest =>
      rcases hstep with hempty | ⟨hwrite,hlookup⟩
      · cases hempty
      · have hrun : historyStep c s (.remember (b :: rest) script) =
            s.write (rememberedRows script.lookup (b :: rest) s.working) := by
          simp [historyStep,rationalRemember,hfull,hwrite]
        have hlogged : loggedMessages [.remember (b :: rest) script] = [b :: rest] := rfl
        rw [hrun,Store.write_working,rememberedRows_lookup hlookup,loggedMessages_concat,hlogged,hs]
        exact (joinParts_concat _ _ (loggedMessages_ne_nil steps)).symm
  | begin ok =>
    rw [hquiet rfl]
    unfold historyStep
    dsimp only
    split
    · exact Store.begin_working s
    · rfl
  | commit o =>
    rw [hquiet rfl]
    unfold historyStep
    dsimp only
    split
    · rfl
    · cases o with
      | done => exact Store.commit_working s
      | failed => rfl
      | rolledBack => exact (hstep rfl).symm
  | rollback ok =>
    rw [hquiet rfl]
    unfold historyStep
    dsimp only
    cases ok with
    | false => simp
    | true =>
      split
      · rfl
      · exact (hstep rfl).symm
  | statement o =>
    rw [hquiet rfl]
    unfold historyStep
    dsimp only
    split
    · rename_i ho
      exact (hstep ho).symm
    · rfl

theorem historyRun_rows (hfull : c.outputFull = true) (steps : List HistoryStep)
    (h : ∀ before step after, steps = before ++ step :: after → Undisturbed (historyRun c before) step) :
    (historyRun c steps).working = joinParts (loggedMessages steps) := by
  induction steps using List.reverseRecOn with
  | nil => rfl
  | append_singleton steps step ih =>
    have hbefore := ih (fun before step' after heq =>
      h before step' (after ++ [step]) (by rw [heq,List.append_assoc,List.cons_append]))
    have hlast := h steps step [] rfl
    rw [historyRun,List.foldl_append]
    exact historyStep_rows hfull hbefore hlast

/-- The message is what a call of the logger handed to the callback. -/
def HandedOver (m : Message) : Prop :=
  ∃ loggerMode memory stylesEnabled callback call,
    (rationalLogger loggerMode memory stylesEnabled callback call).remembered = some m

/-- The logger runs in full output, and no allocation of the report fails. -/
def ReportWorks (r : ReportLogger) : Prop := r.loggerMode ∈ fullModes ∧ r.memory = .available

/-- No marker of the logger occurs in the text, and it fits a log line. -/
def Repeatable (text : Message) : Prop := MarkerFree text ∧ text.length < intMax

theorem joinParts_displayed {ms : List Message} (hms : ∀ m ∈ ms, DisplayText m) : ∀ m ∈ joinParts ms, DisplayText m := by
  induction ms with
  | nil => simp [joinParts]
  | cons x ms ih =>
    have hx : DisplayText x := hms x List.mem_cons_self
    have hparts := ih (fun m hm => hms m (List.mem_cons_of_mem _ hm))
    rw [joinParts]
    split
    · exact List.forall_mem_cons.mpr ⟨hx,hparts⟩
    · cases hjoined : joinParts ms with
      | nil => exact List.forall_mem_cons.mpr ⟨hx,by simp⟩
      | cons y ys =>
        rw [hjoined] at hparts
        obtain ⟨hy,hys⟩ := List.forall_mem_cons.mp hparts
        exact List.forall_mem_cons.mpr ⟨hx.append hy,hys⟩

theorem markerFree_line {text : Message} (h : MarkerFree text) : MarkerFree (text ++ [lineEnd]) := by
  have hunmarked : Unmarked lineEnd := by decide +kernel
  intro rule hrule hwithin
  rcases List.infix_concat_iff.mp hwithin with hend | hbefore
  · obtain ⟨rest,hrest⟩ := hend
    have hne := (decorations_rule rule hrule).ne_nil
    have hlast := congrArg List.getLast? hrest
    rw [List.getLast?_append_of_ne_nil _ hne,List.getLast?_concat] at hlast
    exact hunmarked rule hrule (List.mem_of_getLast? hlast)
  · exact h rule hrule hbefore

theorem row_replayed {r : ReportLogger} (hr : ReportWorks r) {text : Message} (hdisplayed : DisplayText text)
    (htext : Repeatable text) : r.row text = replayed text := by
  obtain ⟨hmode,hmemory⟩ := hr
  obtain ⟨hmarker,hlength⟩ := htext
  have hwhole : text.takeWhile (· ≠ 0) = text := by
    refine List.takeWhile_eq_self_iff.mpr (fun b hb => ?_)
    have hne : b ≠ 0 := fun hzero => displayText_nonzero hdisplayed (hzero ▸ hb)
    simpa using hne
  have hpayload : text.takeWhile (· ≠ 0) ++ (if endsLine text then [] else [lineEnd]) = replayed text := by
    rw [hwhole,replayed]
    split
    · exact List.append_nil text
    · rfl
  have hdisplayedLine : DisplayText [lineEnd] := .ascii (by decide +kernel)
  have hsafe : DisplayText (replayed text) ∧ MarkerFree (replayed text) ∧ (replayed text).length ≤ intMax := by
    rw [replayed]
    split
    · exact ⟨hdisplayed,hmarker,Nat.le_of_lt hlength⟩
    · refine ⟨hdisplayed.append hdisplayedLine,markerFree_line hmarker,?_⟩
      rw [List.length_append,List.length_singleton]
      omega
  rw [ReportLogger.row,hpayload,ReportLogger.slog,hmemory]
  exact rationalLogger_verbatim hmode _ _ rfl rfl hsafe.1 hsafe.2.1 hsafe.2.2

theorem reportRows_replayed {r : ReportLogger} (hr : ReportWorks r) {texts : List Message}
    (hne : ∀ text ∈ texts, text ≠ []) (hdisplayed : ∀ text ∈ texts, DisplayText text)
    (hrepeatable : ∀ text ∈ texts, Repeatable text) :
    replayRows r texts = if texts = [] then [] else r.header :: texts.map replayed := by
  have hall : (texts.filter fun text => !text.isEmpty) = texts :=
    List.filter_eq_self.mpr (fun text htext => by simpa using hne text htext)
  rw [replayRows,hall,List.map_congr_left (fun text htext =>
    row_replayed hr (hdisplayed text htext) (hrepeatable text htext))]

/-- Every remembered message is replayed once, in order, with its parts joined and as it was
logged, in every history in which nothing that is rolled back holds a message and no joined
message contains a marker. -/
theorem replayed_of_undisturbed (c : ReplayConfig) (hfull : c.outputFull = true)
    (hreplay : c.showRememberedMessagesAtExit = true) (r : ReportLogger) (hr : ReportWorks r) (script : ShowScript)
    (hshow : script.Complete) (steps : List HistoryStep) (hlogged : ∀ m ∈ loggedMessages steps, HandedOver m)
    (h : ∀ before step after, steps = before ++ step :: after → Undisturbed (historyRun c before) step)
    (hrepeatable : ∀ text ∈ joinParts (loggedMessages steps), Repeatable text) :
    showRememberedMessages c r script (historyRun c steps).working =
      (true,if joinParts (loggedMessages steps) = [] then []
        else r.header :: (joinParts (loggedMessages steps)).map replayed) := by
  obtain ⟨hopened,hprepared,hrows⟩ := hshow
  have hdisplayed : ∀ m ∈ loggedMessages steps, DisplayText m := by
    intro m hm
    obtain ⟨loggerMode,memory,stylesEnabled,callback,call,hcall⟩ := hlogged m hm
    exact rationalLogger_remembered hcall
  have hprinted := reportRows_replayed hr (joinParts_nonempty (loggedMessages_ne_nil steps))
    (joinParts_displayed hdisplayed) hrepeatable
  rw [historyRun_rows hfull steps h]
  simp only [showRememberedMessages,hfull,hreplay,hopened,hprepared,hrows,hprinted,Bool.not_true,
    Bool.or_self,Bool.false_eq_true,↓reduceIte]

def plainLogger : ReportLogger := ⟨{ regular := true },.available,false,true,[],[],[],[]⟩

def rememberCall (payload : Message) : LogCall :=
  ⟨{ everyUndecorLevel with remember := true },[],[],[],[],some payload⟩

theorem replayed_of_undisturbed_parts :
    showRememberedMessages ⟨true,true⟩ plainLogger {} (historyRun ⟨true,true⟩
      [.begin true,.statement .done,.commit .done,.remember [65] {},.remember [66,10] {},.rollback true]).working =
      (true,[ascii "Warnings and errors encountered:\n",[65,66,10]]) := by
  have hhanded : ∀ m ∈ [[65],[66,10]], HandedOver m := by
    have hcall : ∀ m ∈ [[65],[66,10]],
        (rationalLogger { regular := true } .available false true (rememberCall m)).remembered = some m := by
      decide +kernel
    exact fun m hm => ⟨_,_,_,_,_,hcall m hm⟩
  have hheader : plainLogger.header = ascii "Warnings and errors encountered:\n" := by decide +kernel
  rw [← hheader]
  refine replayed_of_undisturbed ⟨true,true⟩ rfl rfl plainLogger ⟨by decide,rfl⟩ {} ⟨rfl,rfl,rfl⟩ _ hhanded ?_ ?_
  · rintro (_ | ⟨a,_ | ⟨b,_ | ⟨c,_ | ⟨d,_ | ⟨e,_ | ⟨f,before⟩⟩⟩⟩⟩⟩) step after heq
    · cases heq; trivial
    · cases heq; exact fun h => by cases h
    · cases heq; exact fun h => by cases h
    · cases heq; exact .inr ⟨rfl,.inl rfl⟩
    · cases heq; exact .inr ⟨rfl,.inl rfl⟩
    · cases heq; exact fun _ => by decide
    · simp at heq
  · have hjoined : ∀ text ∈ [[65,66,10]], MarkerFree text ∧ text.length < intMax := by
      unfold MarkerFree
      decide +kernel
    exact hjoined

/-- A removed marker may leave another one, which the report removes in its turn. -/
example : (rationalLogger { regular := true } .available false true
      (rememberCall (ascii "f @\x7bre@\x7bwhite\x7dd\x7d\n"))).remembered = some (ascii "f @\x7bred\x7d\n") ∧
    plainLogger.row (ascii "f @\x7bred\x7d\n") = ascii "f \n" := by
  decide +kernel

/-- Two new files around an inaccessible directory; the second row cannot be written. -/
def interleavedPass : PassScript := PassScript.plain
  [Visit.plain (FtsEntry.plain [97] 0 0) (DiskFile.plain []),
    { Visit.plain ⟨1,.directory,[100],⟨0,0,1,1,⟨0,0⟩,⟨0,0⟩⟩⟩ (DiskFile.plain []) with access := .accessDenied },
    { Visit.plain (FtsEntry.plain [98] 0 0) (DiskFile.plain []) with save := { statement := .failed } }]

/-- The operations of the connection behind the events of that pass. -/
def connectionSteps (text : Message) : Event → List HistoryStep
  | .statement .begin _ => [.begin true]
  | .statement .commit _ => [.commit .done]
  | .statement .rollback _ => [.rollback true]
  | .statement (.save path) _ => [.statement (if path = [98] then .failed else .done)]
  | .reported (.inaccessibleDirectory _) => [.remember text {}]
  | _ => []

/-- The warning about the directory is remembered inside the batch that the failing save
rolls back, and the final report is empty. -/
theorem message_lost :
    let steps := (fileList { update := true } interleavedPass
      (openSession UniqueTable.empty [])).session.events.flatMap (connectionSteps [100,10])
    steps = [.begin true,.statement .done,.remember [100,10] {},.statement .failed,.rollback true] ∧
      loggedMessages steps = [[100,10]] ∧
      showRememberedMessages ⟨true,true⟩ plainLogger {} (historyRun ⟨true,true⟩ steps).working = (true,[]) := by
  have hsteps : (fileList { update := true } interleavedPass
      (openSession UniqueTable.empty [])).session.events.flatMap (connectionSteps [100,10]) =
      [.begin true,.statement .done,.remember [100,10] {},.statement .failed,.rollback true] := by
    decide +kernel
  rw [hsteps]
  decide

end Precizer.Guarantees
