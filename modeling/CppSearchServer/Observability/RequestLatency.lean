import CppSearchServer.Bytes

/-! `observability::RequestLatency` and the timing record of one request.
Time points are nanoseconds of the steady clock and counters are natural numbers.
A mark on a null pointer does nothing, so each mark is a function on the record
itself; `complete` looks at the pointer. -/

namespace CppSearchServer.Observability

structure RequestTiming where
  requestReadyAt : Int
  queuedAt : Int
  workerStartedAt : Int
  workerFinishedAt : Int
  returnedToIoAt : Int
  writeStartedAt : Int
  queued : Bool
  workerStarted : Bool
  workerFinished : Bool
  returnedToIo : Bool
  writeStarted : Bool
deriving DecidableEq, Repr

structure RequestLatency where
  enabled : Bool
  completedRequests : Nat
  workerQueueUs : Nat
  workerComputeUs : Nat
  resultReturnUs : Nat
  responseWriteUs : Nat
  totalUs : Nat
  maxTotalUs : Nat
deriving DecidableEq, Repr

namespace RequestTiming

def new : RequestTiming := ⟨0, 0, 0, 0, 0, 0, false, false, false, false, false⟩

/-- What `complete` asks of a record before it counts it. -/
def isComplete (t : RequestTiming) : Bool :=
  t.queued && t.workerStarted && t.workerFinished && t.returnedToIo && t.writeStarted

end RequestTiming

namespace RequestLatency

def new (enabled : Bool) : RequestLatency := ⟨enabled, 0, 0, 0, 0, 0, 0, 0⟩

def beginRequest (now : Int) (m : RequestLatency) : Option RequestTiming :=
  if m.enabled then some { RequestTiming.new with requestReadyAt := now } else none

def markQueued (now : Int) (t : RequestTiming) : RequestTiming :=
  { t with queuedAt := now, queued := true }

def markWorkerStarted (now : Int) (t : RequestTiming) : RequestTiming :=
  { t with workerStartedAt := now, workerStarted := true }

def markWorkerFinished (now : Int) (t : RequestTiming) : RequestTiming :=
  { t with workerFinishedAt := now, workerFinished := true }

def markReturnedToIo (now : Int) (t : RequestTiming) : RequestTiming :=
  { t with returnedToIoAt := now, returnedToIo := true }

/-- Only the first `send` that takes bytes over starts the write. -/
def markWriteStarted (now : Int) (t : RequestTiming) : RequestTiming :=
  if t.writeStarted then t else { t with writeStarted := true, writeStartedAt := now }

def elapsedMicros (startAt endAt : Int) : Nat :=
  ((endAt - startAt).tdiv 1000 % 18446744073709551616).toNat

def updateMax (maximum value : Nat) : Nat :=
  if maximum < value then value else maximum

def complete (now : Int) (timing : Option RequestTiming) (m : RequestLatency) : RequestLatency :=
  match timing with
  | none => m
  | some t =>
    if !t.isComplete then m
    else
      let total := elapsedMicros t.requestReadyAt now
      { m with
        workerQueueUs := m.workerQueueUs + elapsedMicros t.queuedAt t.workerStartedAt
        workerComputeUs := m.workerComputeUs + elapsedMicros t.workerStartedAt t.workerFinishedAt
        resultReturnUs := m.resultReturnUs + elapsedMicros t.workerFinishedAt t.returnedToIoAt
        responseWriteUs := m.responseWriteUs + elapsedMicros t.returnedToIoAt now
        totalUs := m.totalUs + total
        completedRequests := m.completedRequests + 1
        maxTotalUs := updateMax m.maxTotalUs total }

def average (completed total : Nat) : Nat := if completed = 0 then 0 else total / completed

def snapshotJson (m : RequestLatency) : Bytes :=
  let completed := m.completedRequests
  ascii "\x7b\"enabled\":" ++ (if m.enabled then ascii "true" else ascii "false") ++
    ascii ",\"completed_requests\":" ++ decimal completed ++
    ascii ",\"avg_worker_queue_us\":" ++ decimal (average completed m.workerQueueUs) ++
    ascii ",\"avg_worker_compute_us\":" ++ decimal (average completed m.workerComputeUs) ++
    ascii ",\"avg_result_return_us\":" ++ decimal (average completed m.resultReturnUs) ++
    ascii ",\"avg_response_write_us\":" ++ decimal (average completed m.responseWriteUs) ++
    ascii ",\"avg_total_us\":" ++ decimal (average completed m.totalUs) ++
    ascii ",\"max_total_us\":" ++ decimal m.maxTotalUs ++ ascii "\x7d"

@[simp] theorem complete_enabled (now : Int) (timing : Option RequestTiming)
    (m : RequestLatency) : (m.complete now timing).enabled = m.enabled := by
  unfold complete
  split
  · rfl
  · split <;> rfl

theorem complete_completedRequests (now : Int) (t : RequestTiming) (m : RequestLatency) :
    (m.complete now (some t)).completedRequests =
      m.completedRequests + if t.isComplete then 1 else 0 := by
  cases h : t.isComplete <;> simp [complete, h]

end RequestLatency

end CppSearchServer.Observability
