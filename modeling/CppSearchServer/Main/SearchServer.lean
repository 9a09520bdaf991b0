import CppSearchServer.Main.ServeWithEventLoop
import CppSearchServer.Observability.RequestLatency
import CppSearchServer.Search.CacheTransparency

/-! The whole program behind `serveWithEventLoop`: its threads, and inside each task of the
pool the call of `SearchApplication::handleRequest` with its cache. Both are taken as they
are; what is added is the body of the task between them. The task may throw wherever it calls
`handleRequest`, and `complete` may throw before or after its closure is queued. -/

namespace CppSearchServer.Main

open Net Concurrency Search Http Observability Library.TransitionSystem

/-- Where a worker is in its task. `answering` has left the `try` block's computation with
a result, `caught` is in one of its handlers, and `escaping` leaves the task with the
exception of the second `complete`. -/
inductive TaskState where
  | entered
  | handling
  | answering (result : ResponseResult)
  | caught
  | completed
  | escaping
deriving DecidableEq

/-- How a task ends. -/
def TaskState.mayFinish : TaskState → Outcome → Bool
  | .completed, .returned => true
  | .escaping, .exception _ => true
  | _, _ => false

/-- `raised` is history: some task has thrown. -/
structure SearchServer (m n : Nat) where
  serving : ServeWithEventLoop m n
  application : Serving (Fin n) Unit
  tasks : Fin n → TaskState
  raised : Bool

def metricsRequest (request : Bytes) : Option HttpRequest :=
  (parseRequest request).filter fun parsed =>
    parsed.method = ascii "GET" ∧ parsed.path = ascii "/metrics"

namespace SearchServer

/-- `loaded` is what the loads of `snapshotJson` find, one after the other, while the loops
go on counting. -/
inductive Action (m n : Nat) where
  | serve (a : ServeWithEventLoop.Action m n)
  | elapse (elapsed : Nat)
  | answerMetrics (w : Fin n) (loaded : RequestLatency)
  | handleRequest (w : Fin n)
  | redisGet (w : Fin n) (answer : RedisAnswer)
  | compute (w : Fin n)
  | redisSet (w : Fin n) (answer : RedisAnswer) (applied : Bool)
  | raise (w : Fin n)
  | complete (w : Fin n) (queued thrown : Bool)

variable {m n : Nat}

/-- What belongs to the task itself is not left to the threads alone. -/
def mayServe (s : SearchServer m n) : ServeWithEventLoop.Action m n → Bool
  | .worker _ (.complete _) => false
  | .worker w (.finish outcome) => (s.tasks w).mayFinish outcome
  | _ => true

def tasksAfter (s : SearchServer m n) : ServeWithEventLoop.Action m n → Fin n → TaskState
  | .worker w (.finish _) => Function.update s.tasks w .entered
  | _ => s.tasks

def callState (w : Fin n) (application : Serving (Fin n) Unit) : TaskState :=
  match application.position w, application.returned.getLast? with
  | .idle, some (_, _, .ok response) => .answering ⟨response.response, response.closeAfterResponse⟩
  | .idle, some (_, _, .error _) => .caught
  | _, _ => .handling

/-- The weak pointer of the completion no longer leads to a connection. -/
def expired (s : SearchServer m n) (task : Submission m) : Bool :=
  ((s.serving.servers task.loop).connections task.id).any fun c => c.fd < 0

def setTask (w : Fin n) (state : TaskState) (s : SearchServer m n) : SearchServer m n :=
  { s with
    tasks := Function.update s.tasks w state
    raised := s.raised || state = .caught || state = .escaping }

section
variable {R : Type*} [Field R] [LinearOrder R] (app : SearchApplication R) (cache : SearchCache)
  (settings : Fin m → Settings) (latencyMetricsEnabled : Bool)

def call (w : Fin n) (a : Serving.Action (Fin n) Unit) (s : SearchServer m n) :
    Option (SearchServer m n) :=
  (s.application.step (fun _ => app) (fun _ => cache) a).map fun application =>
    { s with application := application }.setTask w (callState w application)

/-- `complete`, which may throw before the task is queued in the loop or behind it. -/
def pass (w : Fin n) (result : ResponseResult) (queued : Bool) (next : TaskState)
    (s : SearchServer m n) : Option (SearchServer m n) :=
  if queued then
    (s.serving.step settings (.worker w (.complete result))).map fun serving =>
      { s with serving := serving }.setTask w next
  else if s.serving.completing w = none then some (s.setTask w next)
  else none

def step (s : SearchServer m n) : Action m n → Option (SearchServer m n)
  | .serve a =>
    if s.mayServe a then
      (s.serving.step settings a).map fun serving =>
        { s with serving := serving, tasks := s.tasksAfter a }
    else none
  | .elapse elapsed =>
    (s.application.step (fun _ => app) (fun _ => cache) (.tick elapsed)).map fun application =>
      { s with application := application }
  | .answerMetrics w loaded =>
    match s.serving.pool.workers w, s.tasks w with
    | .running task, .entered =>
      if loaded.enabled = latencyMetricsEnabled then
        (metricsRequest task.request).map fun parsed =>
          let closeAfterResponse := shouldCloseConnection app.headerOrder parsed
          s.setTask w
            (.answering ⟨okJson loaded.snapshotJson closeAfterResponse, closeAfterResponse⟩)
      else none
    | _, _ => none
  | .handleRequest w =>
    match s.serving.pool.workers w, s.tasks w with
    | .running task, .entered =>
      if metricsRequest task.request = none then
        s.call app cache w (.handleRequest w () task.request)
      else none
    | _, _ => none
  | .redisGet w answer => s.call app cache w (.redisGet w answer)
  | .compute w => s.call app cache w (.compute w)
  | .redisSet w answer applied => s.call app cache w (.redisSet w answer applied)
  | .raise w =>
    match s.serving.pool.workers w, s.tasks w with
    | .running _, .entered | .running _, .handling =>
      some ({ s with application := s.application.goTo w .idle }.setTask w .caught)
    | _, _ => none
  | .complete w queued thrown =>
    match s.serving.pool.workers w, s.tasks w with
    | .running task, .answering result =>
      if queued ∨ thrown ∨ s.expired task then
        s.pass settings w result queued (if thrown then .caught else .completed)
      else none
    | .running task, .caught =>
      if queued ∨ thrown ∨ s.expired task then
        s.pass settings w ⟨internalServerError true, true⟩ queued
          (if thrown then .escaping else .completed)
      else none
    | _, _ => none

end

/-- The threads have just been started and no request has been handled. Redis may hold what
such programs have stored before. -/
def system {R : Type*} [Field R] [LinearOrder R] (app : SearchApplication R) (cache : SearchCache)
    (wakeupFds : Fin m → Int) (latencyMetricsEnabled : Bool) (n : Nat) :
    System (SearchServer m n) (Action m n) where
  initial s :=
    (ServeWithEventLoop.system wakeupFds latencyMetricsEnabled n).initial s.serving ∧
      (Serving.system (fun _ => app) fun _ => cache).initial s.application ∧
      (∀ w, s.tasks w = .entered) ∧ s.raised = false
  step := step app cache (ServeWithEventLoop.connectionSettings wakeupFds latencyMetricsEnabled)
    latencyMetricsEnabled

end SearchServer

end CppSearchServer.Main
