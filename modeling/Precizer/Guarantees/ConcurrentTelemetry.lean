import Precizer.Guarantees.BalancedTelemetry
import Precizer.Libmem.CalledOperations

/-! # Telemetry shared by threads

However the calls of several threads interleave, instruction by instruction, the counters end as after the
same calls one after another, the maxima are those of the levels, and every call returns.
-/
namespace Precizer.Guarantees
open General Libmem

/-- Two threads acquire bytes, and the first one finds that the maximum has overtaken what it offers. -/
def overtaken : List (Turn TelemetryCall (Fin 2)) :=
  [.begin 0 (.heapReservedBytesAcquired 2),.begin 1 (.heapReservedBytesAcquired 1),.step 0,.step 1,.step 1,.step 1,
    .step 0,.step 0,.step 1,.step 0]

section
variable {ι : Type} [Fintype ι] [DecidableEq ι]

/-- Once no call is in progress, the telemetry is that of some order of the calls. -/
theorem telemetry_serializable (schedule : List (Turn TelemetryCall ι))
    (hquiet : (Counters.run TelemetryCall.code schedule).Quiet) :
    ∃ order, order.Perm (Counters.run TelemetryCall.code schedule).begun ∧
      (Counters.run TelemetryCall.code schedule).value = serially TelemetryCall.code order := by
  obtain ⟨order,hperm,hvalue,_⟩ := Counters.serializable TelemetryCall.orderly TelemetryCall.records hquiet
  exact ⟨order,hperm,hvalue⟩

theorem telemetry_serializable_overtaken :
    ∃ order, order.Perm (Counters.run TelemetryCall.code overtaken).begun ∧
      (Counters.run TelemetryCall.code overtaken).value = serially TelemetryCall.code order :=
  telemetry_serializable overtaken (by decide)

/-- A maximum never falls, and once no call is in progress it is the greatest value that an addition
to its level has returned. -/
theorem telemetry_peaks (before after : List (Turn TelemetryCall ι)) {p c : Counter} (hp : p.role = .peak c) :
    (Counters.run TelemetryCall.code before).value p ≤ (Counters.run TelemetryCall.code (before ++ after)).value p ∧
      ((Counters.run TelemetryCall.code before).Quiet →
        IsGreatest (insert 0 {v | (c,v) ∈ (Counters.run TelemetryCall.code before).returned})
          ((Counters.run TelemetryCall.code before).value p)) := by
  have hlevel : c.role = .level := by
    cases p <;> simp only [Counter.role,Role.peak.injEq,reduceCtorEq] at hp <;> subst hp <;> rfl
  refine ⟨Counters.peak_le TelemetryCall.orderly hp before after,fun hquiet => ?_⟩
  obtain ⟨_,_,_,hgreatest⟩ := Counters.serializable TelemetryCall.orderly TelemetryCall.records hquiet
  exact hgreatest p c hp hlevel

theorem telemetry_peaks_overtaken :
    (Counters.run TelemetryCall.code overtaken).value .peakHeapReservedBytes ≤
        (Counters.run TelemetryCall.code (overtaken ++ [.begin 0 .noopResizes])).value .peakHeapReservedBytes ∧
      ((Counters.run TelemetryCall.code overtaken).Quiet →
        IsGreatest (insert 0 {v | (.currentHeapReservedBytes,v) ∈ (Counters.run TelemetryCall.code overtaken).returned})
          ((Counters.run TelemetryCall.code overtaken).value .peakHeapReservedBytes)) :=
  telemetry_peaks overtaken [.begin 0 .noopResizes] rfl

omit [Fintype ι] in
/-- A call returns after a bounded number of turns of its own thread, whatever the other threads do. -/
theorem telemetry_returns (i : ι) (before after : List (Turn TelemetryCall ι))
    (hturns : ((Counters.run TelemetryCall.code before).thread i).turns (fun v : Size => v.val) (2 ^ 64 - 1) ≤
      after.countP (·.takenBy i)) :
    ∃ a b, after = a ++ b ∧ ((Counters.run TelemetryCall.code (before ++ a)).thread i).idle = true :=
  Counters.returns TelemetryCall.orderly (fun _ _ h => h) (fun v => Nat.le_pred_of_lt v.isLt) i before after hturns

/-- The first thread's exchange fails, and it returns. -/
theorem telemetry_returns_overtaken :
    ∃ a b, [.step 1,.step 0,.step 0] = a ++ b ∧
      ((Counters.run TelemetryCall.code (overtaken.take 8 ++ a)).thread 0).idle = true :=
  telemetry_returns 0 (overtaken.take 8) [.step 1,.step 0,.step 0] (by decide)

end

structure ClientBooks {ι : Type} [Fintype ι] (clients : ι → World) (value : Counter → Size) : Prop where
  reserved : value .currentHeapReservedBytes = .of (∑ i, ((clients i).live.map fun m => m.actuallyAllocatedBytes).sum)
  payload : value .currentPayloadBytes = .of (∑ i, ((clients i).live.map fun m => m.length * m.singleElementSize).sum)
  overhead : value .currentBlockOverheadBytes =
    .of (∑ i, ((clients i).live.map fun m => m.actuallyAllocatedBytes - m.length * m.singleElementSize).sum)
  active : value .currentActiveDescriptors = .of (∑ i, (clients i).live.countP fun m => m.data.isSome)

theorem run_called {layout : DescriptorLayout} {allocator : Allocator} {w : World}
    (hrun : Relation.ReflTransGen (Step layout allocator) World.start w) : Called World.start.telemetry w.telemetry := by
  induction hrun with
  | refl => exact called_refl _
  | tail hbefore hstep ih =>
    have hbooked := run_booked hbefore
    exact called_trans ih ((hstep.moves hbooked).called hbooked)

/-- The calls of every client, those of its resizes, deletions and conversions, account for the
telemetry of its own run. When the calls of all clients interleave, each client in a thread of its
own, the counters show the live descriptors of all of them. -/
theorem clients_telemetry {ι : Type} [Fintype ι] [DecidableEq ι] (layout : DescriptorLayout) (allocator : ι → Allocator)
    (clients : ι → World)
    (hruns : ∀ i, Relation.ReflTransGen (Step layout (allocator i)) World.start (clients i)) :
    (∃ calls : ι → List TelemetryCall, ∀ i, Issued (calls i) Telemetry.start (clients i).telemetry ∧
        Accounts (calls i) Telemetry.start (clients i).telemetry) ∧
      ∀ calls : ι → List TelemetryCall, (∀ i, Accounts (calls i) Telemetry.start (clients i).telemetry) →
        ∀ schedule : List (Turn TelemetryCall ι), (Counters.run TelemetryCall.code schedule).Quiet →
          ((Counters.run TelemetryCall.code schedule).begun : Multiset TelemetryCall) = ∑ i, (calls i : Multiset TelemetryCall) →
          ClientBooks clients (Counters.run TelemetryCall.code schedule).value := by
  constructor
  · have hcalled : ∀ i, ∃ calls, Issued calls Telemetry.start (clients i).telemetry := fun i => run_called (hruns i)
    exact ⟨fun i => (hcalled i).choose,fun i => ⟨(hcalled i).choose_spec,(hcalled i).choose_spec.accounts⟩⟩
  · intro calls haccounts schedule hquiet hbegun
    have hshown : ∀ c, c.kept = true →
        (Counters.run TelemetryCall.code schedule).value c = ∑ i, (clients i).telemetry.shown c := by
      intro c hc
      have hstart : Telemetry.start.shown c = 0 := by
        cases c <;> rfl
      have hsum : ((Counters.run TelemetryCall.code schedule).begun.map fun call => Code.booked c call.code).sum =
          ∑ i, bookedBy (calls i) c := by
        rw [← Multiset.sum_coe,← Multiset.map_coe,hbegun]
        exact map_sum ((Multiset.sumAddMonoidHom : Multiset Size →+ Size).comp
          (Multiset.mapAddMonoidHom fun call : TelemetryCall => Code.booked c call.code)) _ _
      rw [Counters.value_of_quiet (keeps_of_kept hc) hquiet,hsum]
      refine Finset.sum_congr rfl fun i _ => ?_
      rw [haccounts i c hc,hstart,zero_add]
    have hbooks := fun i => (run_booked (hruns i)).balanced.books
    refine ⟨?_,?_,?_,?_⟩
    · rw [hshown _ rfl,Size.of_total]
      exact Finset.sum_congr rfl fun i _ => congrArg Size.of (hbooks i).reserved
    · rw [hshown _ rfl,Size.of_total]
      refine Finset.sum_congr rfl fun i _ => congrArg Size.of ((hbooks i).payload.trans ?_)
      exact congrArg List.sum (List.map_congr_left fun m _ => payloadBytes_eq m)
    · rw [hshown _ rfl,Size.of_total]
      refine Finset.sum_congr rfl fun i _ => congrArg Size.of ((hbooks i).overhead.trans ?_)
      refine congrArg List.sum (List.map_congr_left fun m _ => ?_)
      rw [Memory.overheadBytes,payloadBytes_eq]
    · rw [hshown _ rfl,Size.of_total]
      exact Finset.sum_congr rfl fun i _ => congrArg Size.of ((hbooks i).active.trans (total_active _))

/-- A client that has created a root and appended the string `A` to it. -/
def appendedClient : World :=
  let root := memStringArrayCore littleEndian (fun _ _ => some fun _ => 7) .unbounded 1 0 (.outside [65,0])
    ⟨memInit sizeofMemory false,.start,.start⟩
  root.state.among (root.appended.toList ++ [])

/-- Its calls: the root grows to one element, and the element to two bytes. -/
def appendedCalls : List TelemetryCall :=
  [.currentConsecutiveNoopResizesReset,.activeDescriptorsAcquired,.freshHeapAllocations,.heapReservedBytesAcquired 4096,
    .payloadBytesAdded 48,.blockOverheadBytesAdded 4048,
    .currentConsecutiveNoopResizesReset,.activeDescriptorsAcquired,.freshHeapAllocations,.heapReservedBytesAcquired 4096,
    .payloadBytesAdded 2,.blockOverheadBytesAdded 4094]

/-- Two threads make the same calls in turns. -/
def alternating (calls : List TelemetryCall) : List (Turn TelemetryCall (Fin 2)) :=
  calls.flatMap fun call =>
    [.begin 0 call,.begin 1 call,.step 0,.step 1,.step 0,.step 1,.step 0,.step 1,.step 0,.step 1,.step 1]

theorem clients_telemetry_appended :
    ClientBooks (fun _ : Fin 2 => appendedClient)
      (Counters.run TelemetryCall.code (alternating appendedCalls)).value := by
  have hcreated : Step littleEndian (fun _ _ => some fun _ => 7) World.start ⟨[memInit sizeofMemory false],.start,.start⟩ :=
    .operated (.create sizeofMemory false)
  have hclients := clients_telemetry littleEndian (fun _ : Fin 2 => fun _ _ => some fun _ => 7) (fun _ => appendedClient)
    fun _ => (Relation.ReflTransGen.single hcreated).tail (.append .unbounded 1 0 (.outside [65,0]) (List.Perm.refl _) rfl)
  refine hclients.2 (fun _ => appendedCalls) (fun _ c hc => ?_) (alternating appendedCalls) (by decide +kernel)
    (by decide +kernel)
  cases c <;> simp only [Counter.kept,Bool.false_eq_true] at hc <;> decide +kernel

end Precizer.Guarantees
