import CppSearchServer.Observability.AtomicCounters
import Mathlib.Algebra.Order.BigOperators.Group.List
import Mathlib.Algebra.Order.Ring.Nat
import Mathlib.Tactic.GCongr

/-! What `snapshotJson` reports once every call of `complete` has returned: the number
of calls, the stages' averages rounded down, the largest total, and how these relate.
Nothing changes between its loads then, so it is a function of the atomics. -/

namespace CppSearchServer.Observability

open Library Library.Composition Library.TransitionSystem Library.Json

structure Report where
  completedRequests : Nat
  avgWorkerQueueUs : Nat
  avgWorkerComputeUs : Nat
  avgResultReturnUs : Nat
  avgResponseWriteUs : Nat
  avgTotalUs : Nat
  maxTotalUs : Nat

def Report.value (report : Report) (enabled : Bool) : Value :=
  .object [(ascii "enabled", .bool enabled),
    (ascii "completed_requests", .number (decimal report.completedRequests)),
    (ascii "avg_worker_queue_us", .number (decimal report.avgWorkerQueueUs)),
    (ascii "avg_worker_compute_us", .number (decimal report.avgWorkerComputeUs)),
    (ascii "avg_result_return_us", .number (decimal report.avgResultReturnUs)),
    (ascii "avg_response_write_us", .number (decimal report.avgResponseWriteUs)),
    (ascii "avg_total_us", .number (decimal report.avgTotalUs)),
    (ascii "max_total_us", .number (decimal report.maxTotalUs))]

namespace RequestLatency

def report (m : RequestLatency) : Report where
  completedRequests := m.completedRequests
  avgWorkerQueueUs := m.workerQueueUs / m.completedRequests
  avgWorkerComputeUs := m.workerComputeUs / m.completedRequests
  avgResultReturnUs := m.resultReturnUs / m.completedRequests
  avgResponseWriteUs := m.responseWriteUs / m.completedRequests
  avgTotalUs := m.totalUs / m.completedRequests
  maxTotalUs := m.maxTotalUs

theorem average_eq (completed total : Nat) : average completed total = total / completed := by
  unfold average
  split
  · rename_i hzero
    rw [hzero, Nat.div_zero]
  · rfl

theorem snapshotJson_eq (m : RequestLatency) :
    m.snapshotJson =
      0x7b :: ([0x2c].intercalate ([(ascii "enabled", wordBool m.enabled),
        (ascii "completed_requests", decimal m.report.completedRequests),
        (ascii "avg_worker_queue_us", decimal m.report.avgWorkerQueueUs),
        (ascii "avg_worker_compute_us", decimal m.report.avgWorkerComputeUs),
        (ascii "avg_result_return_us", decimal m.report.avgResultReturnUs),
        (ascii "avg_response_write_us", decimal m.report.avgResponseWriteUs),
        (ascii "avg_total_us", decimal m.report.avgTotalUs),
        (ascii "max_total_us", decimal m.report.maxTotalUs)].map memberText) ++ [0x7d]) := by
  have hword : (if m.enabled then ascii "true" else ascii "false") = wordBool m.enabled := by
    cases m.enabled <;> rfl
  -- the equation of so long a definition is slow to make
  delta snapshotJson
  simp only [hword, average_eq, report, memberText, List.map_cons, List.map_nil,
    List.intercalate_cons_cons, List.intercalate_singleton, List.append_assoc, List.cons_append,
    List.nil_append]
  rfl

theorem readJson_snapshotJson (m : RequestLatency) :
    readJson m.snapshotJson = some (m.report.value m.enabled) := by
  have hread : Reads m.snapshotJson (m.report.value m.enabled) := by
    rw [snapshotJson_eq]
    refine reads_object (.cons ?_ (.cons ?_ (.cons ?_ (.cons ?_ (.cons ?_ (.cons ?_ (.cons ?_
      (.cons ?_ .nil))))))))
    · exact readsMember_ascii (by decide) (reads_bool _)
    all_goals exact readsMember_ascii (by decide) (reads_decimal _)
  have hjson := readJson_append hread (List.forall_mem_nil _)
  rwa [List.append_nil] at hjson

end RequestLatency

def microseconds (startAt endAt : Int) : Nat := ((endAt - startAt) / 1000).toNat

theorem elapsedMicros_eq {startAt endAt : Int} (hle : startAt ≤ endAt)
    (hlt : microseconds startAt endAt < 2 ^ 64) :
    RequestLatency.elapsedMicros startAt endAt = microseconds startAt endAt := by
  have hdiv : (endAt - startAt).tdiv 1000 = (endAt - startAt) / 1000 :=
    Int.tdiv_eq_ediv_of_nonneg (by omega)
  rw [RequestLatency.elapsedMicros, hdiv]
  unfold microseconds at *
  omega

namespace Completion

def spent (call : Completion) : Counter → Nat
  | .workerQueueUs => microseconds call.timing.queuedAt call.timing.workerStartedAt
  | .workerComputeUs => microseconds call.timing.workerStartedAt call.timing.workerFinishedAt
  | .resultReturnUs => microseconds call.timing.workerFinishedAt call.timing.returnedToIoAt
  | .responseWriteUs => microseconds call.timing.returnedToIoAt call.completedAt
  | .totalUs => microseconds call.timing.requestReadyAt call.completedAt
  | .completedRequests => 1

structure InOrder (call : Completion) : Prop where
  queued : call.timing.requestReadyAt ≤ call.timing.queuedAt
  started : call.timing.queuedAt ≤ call.timing.workerStartedAt
  finished : call.timing.workerStartedAt ≤ call.timing.workerFinishedAt
  returned : call.timing.workerFinishedAt ≤ call.timing.returnedToIoAt
  completed : call.timing.returnedToIoAt ≤ call.completedAt

variable {call : Completion}

theorem InOrder.stages_le (h : call.InOrder) :
    call.spent .workerQueueUs + call.spent .workerComputeUs + call.spent .resultReturnUs +
      call.spent .responseWriteUs ≤ call.spent .totalUs := by
  have hqueued := h.queued
  have hstarted := h.started
  have hfinished := h.finished
  have hreturned := h.returned
  have hcompleted := h.completed
  simp only [spent, microseconds]
  omega

theorem InOrder.value_eq (h : call.InOrder) (hlt : call.spent .totalUs < 2 ^ 64)
    (counter : Counter) : call.value counter = call.spent counter := by
  have hstages := h.stages_le
  have htotal : call.timing.requestReadyAt ≤ call.completedAt :=
    h.queued.trans (h.started.trans (h.finished.trans (h.returned.trans h.completed)))
  cases counter with
  | workerQueueUs => exact elapsedMicros_eq h.started (by simp only [spent] at *; omega)
  | workerComputeUs => exact elapsedMicros_eq h.finished (by simp only [spent] at *; omega)
  | resultReturnUs => exact elapsedMicros_eq h.returned (by simp only [spent] at *; omega)
  | responseWriteUs => exact elapsedMicros_eq h.completed (by simp only [spent] at *; omega)
  | totalUs => exact elapsedMicros_eq htotal hlt
  | completedRequests => rfl

theorem InOrder.spent_le (h : call.InOrder) {counter : Counter}
    (hcounter : counter ≠ .completedRequests) : call.spent counter ≤ call.spent .totalUs := by
  have hstages := h.stages_le
  cases counter with
  | completedRequests => exact absurd rfl hcounter
  | _ => omega

instance : DecidablePred InOrder := fun call =>
  decidable_of_iff
    (call.timing.requestReadyAt ≤ call.timing.queuedAt ∧
      call.timing.queuedAt ≤ call.timing.workerStartedAt ∧
      call.timing.workerStartedAt ≤ call.timing.workerFinishedAt ∧
      call.timing.workerFinishedAt ≤ call.timing.returnedToIoAt ∧
      call.timing.returnedToIoAt ≤ call.completedAt)
    ⟨fun ⟨queued, started, finished, returned, completed⟩ =>
      ⟨queued, started, finished, returned, completed⟩,
    fun ⟨queued, started, finished, returned, completed⟩ =>
      ⟨queued, started, finished, returned, completed⟩⟩

end Completion

def spentSum (counter : Counter) (calls : List Completion) : Nat :=
  (calls.map fun call => call.spent counter).sum

section Sums

variable {calls : List Completion}

theorem spentSum_completedRequests : spentSum .completedRequests calls = calls.length := by
  simp [spentSum, Completion.spent]

theorem stages_sum_le (h : ∀ call ∈ calls, call.InOrder) :
    spentSum .workerQueueUs calls + spentSum .workerComputeUs calls +
      spentSum .resultReturnUs calls + spentSum .responseWriteUs calls ≤
        spentSum .totalUs calls := by
  simp only [spentSum, ← List.sum_map_add]
  exact List.sum_le_sum fun call hmem => (h call hmem).stages_le

theorem value_sum_eq (h : ∀ call ∈ calls, call.InOrder)
    (hsum : spentSum .totalUs calls < 2 ^ 64) (counter : Counter) :
    (calls.map fun call => call.value counter) = calls.map fun call => call.spent counter := by
  refine List.map_congr_left fun call hmem => (h call hmem).value_eq ?_ counter
  have hone : call.spent .totalUs ≤ spentSum .totalUs calls :=
    List.single_le_sum (fun _ _ => Nat.zero_le _) _ (List.mem_map_of_mem hmem)
  omega

theorem spentSum_lt (h : ∀ call ∈ calls, call.InOrder) (hcount : calls.length < 2 ^ 64)
    (hsum : spentSum .totalUs calls < 2 ^ 64) (counter : Counter) :
    spentSum counter calls < 2 ^ 64 := by
  by_cases hcounter : counter = .completedRequests
  · rwa [hcounter, spentSum_completedRequests]
  · refine lt_of_le_of_lt (List.sum_le_sum fun call hmem => ?_) hsum
    exact (h call hmem).spent_le hcounter

theorem stages_average_le (h : ∀ call ∈ calls, call.InOrder) :
    spentSum .workerQueueUs calls / calls.length + spentSum .workerComputeUs calls / calls.length +
      spentSum .resultReturnUs calls / calls.length +
      spentSum .responseWriteUs calls / calls.length ≤ spentSum .totalUs calls / calls.length :=
  calc
    _ ≤ (spentSum .workerQueueUs calls + spentSum .workerComputeUs calls) / calls.length +
        spentSum .resultReturnUs calls / calls.length +
        spentSum .responseWriteUs calls / calls.length := by
      gcongr
      exact Nat.div_add_div_le_add_div
    _ ≤ (spentSum .workerQueueUs calls + spentSum .workerComputeUs calls +
        spentSum .resultReturnUs calls) / calls.length +
        spentSum .responseWriteUs calls / calls.length := by
      gcongr
      exact Nat.div_add_div_le_add_div
    _ ≤ (spentSum .workerQueueUs calls + spentSum .workerComputeUs calls +
        spentSum .resultReturnUs calls + spentSum .responseWriteUs calls) / calls.length :=
      Nat.div_add_div_le_add_div
    _ ≤ spentSum .totalUs calls / calls.length := Nat.div_le_div_right (stages_sum_le h)

theorem average_le_largest {value : Nat}
    (h : Largest value (calls.map fun call => call.spent .totalUs : List Nat)) :
    spentSum .totalUs calls / calls.length ≤ value := by
  have hsum := List.sum_le_card_nsmul (calls.map fun call => call.spent .totalUs) value
    fun v hv => h.upper v (Multiset.mem_coe.mpr hv)
  rw [List.length_map, nsmul_eq_mul, Nat.cast_id] at hsum
  exact Nat.div_le_of_le_mul hsum

end Sums

/-- The number of the calls, the stages averages (zero without a call), the largest total,
and the order of these numbers. -/
structure ReportExact (calls : List Completion) (report : Report) : Prop where
  completed : report.completedRequests = calls.length
  workerQueue : report.avgWorkerQueueUs = spentSum .workerQueueUs calls / calls.length
  workerCompute : report.avgWorkerComputeUs = spentSum .workerComputeUs calls / calls.length
  resultReturn : report.avgResultReturnUs = spentSum .resultReturnUs calls / calls.length
  responseWrite : report.avgResponseWriteUs = spentSum .responseWriteUs calls / calls.length
  total : report.avgTotalUs = spentSum .totalUs calls / calls.length
  largest : Largest report.maxTotalUs (calls.map fun call => call.spent .totalUs : List Nat)
  total_le_max : report.avgTotalUs ≤ report.maxTotalUs
  stages_le_total : report.avgWorkerQueueUs + report.avgWorkerComputeUs +
    report.avgResultReturnUs + report.avgResponseWriteUs ≤ report.avgTotalUs

theorem report_exact {m : RequestLatency} {calls : List Completion}
    (h : ∀ call ∈ calls, call.InOrder) (hload : ∀ counter, m.load counter = spentSum counter calls)
    (hlargest : Largest m.maxTotalUs (calls.map fun call => call.spent .totalUs : List Nat)) :
    ReportExact calls m.report := by
  have hcompleted : m.completedRequests = calls.length :=
    (hload .completedRequests).trans spentSum_completedRequests
  have haverage : ∀ counter, m.load counter / m.completedRequests =
      spentSum counter calls / calls.length := fun counter => by rw [hload, hcompleted]
  have hqueue := haverage .workerQueueUs
  have hcompute := haverage .workerComputeUs
  have hreturn := haverage .resultReturnUs
  have hwrite := haverage .responseWriteUs
  have htotal := haverage .totalUs
  refine ⟨hcompleted, hqueue, hcompute, hreturn, hwrite, htotal, hlargest, ?_, ?_⟩
  · exact htotal.trans_le (average_le_largest hlargest)
  · change m.load .workerQueueUs / _ + m.load .workerComputeUs / _ + m.load .resultReturnUs / _ +
      m.load .responseWriteUs / _ ≤ m.load .totalUs / _
    rw [hqueue, hcompute, hreturn, hwrite, htotal]
    exact stages_average_le h

theorem snapshot_exact {enabled : Bool} {s : Composed RequestLatency LatencyThread}
    (h : Reachable (completing enabled).system s) (hrest : AtRest s)
    (hordered : ∀ call ∈ calls s, call.InOrder) (hcount : (calls s).length < 2 ^ 64)
    (hsum : spentSum .totalUs (calls s) < 2 ^ 64) :
    ∃ report : Report, readJson s.shared.snapshotJson = some (report.value enabled) ∧
      ReportExact (calls s) report := by
  have hvalue := value_sum_eq hordered hsum
  have hrecorded : s.shared = completeAll enabled (calls s) := by
    refine atRest_eq_completeAll h hrest fun counter => ?_
    rw [hvalue]
    exact spentSum_lt hordered hcount hsum counter
  refine ⟨s.shared.report, ?_, report_exact hordered (fun counter => ?_) ?_⟩
  · rw [RequestLatency.readJson_snapshotJson, hrecorded, completeAll_enabled]
  · rw [hrecorded, completeAll_load, hvalue]
    rfl
  · rw [hrecorded, ← hvalue]
    exact completeAll_largest _

def slowCall : RequestTiming :=
  ⟨0, 1000, 3500, 9000, 10000, 10000, true, true, true, true, true⟩

def quickCall : RequestTiming :=
  ⟨0, 500, 1500, 2500, 4000, 4000, true, true, true, true, true⟩

/-- Two calls at once: both load the maximum before either stores, the second one fails
spuriously once, and the first one has to try again. -/
def contendedState : Composed RequestLatency LatencyThread :=
  (run (completing true).system ⟨.new true, []⟩
    ([.join (), .join (), .step 0 (.call (some slowCall) 12000),
        .step 1 (.call (some quickCall) 7900)] ++
      (List.replicate 6 [.step 0 .fetchAdd, .step 1 .fetchAdd]).flatten ++
      [.step 0 .load, .step 1 .load, .step 1 (.compareExchange true),
        .step 1 (.compareExchange false), .step 0 (.compareExchange false),
        .step 0 (.compareExchange false)])).get (by decide +kernel)

theorem contendedState_reachable : Reachable (completing true).system contendedState := by
  have hstart : Reachable (completing true).system ⟨.new true, []⟩ := .start ⟨rfl, rfl⟩
  exact hstart.run (Option.some_get _).symm

theorem contendedState_exact :
    contendedState.shared = ⟨true, 2, 3, 6, 2, 5, 19, 12⟩ ∧
      ∃ report : Report, readJson contendedState.shared.snapshotJson = some (report.value true) ∧
        ReportExact (calls contendedState) report :=
  ⟨by decide +kernel, snapshot_exact contendedState_reachable
    (by unfold AtRest; decide +kernel) (by decide +kernel) (by decide +kernel) (by decide +kernel)⟩

end CppSearchServer.Observability
