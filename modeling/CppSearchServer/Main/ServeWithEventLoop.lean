import CppSearchServer.Concurrency.WorkerPool
import CppSearchServer.Net.Server

/-! `serveWithEventLoop` with `m` I/O loops and `n` workers, from the first round of
`accept_loop` to the end of the function. An I/O loop is a `Net.Server` and the workers
are a `WorkerPool`, both as they are; what is added is the main thread with its
destructors, the life of each `EventLoop` in its thread, and the calls between the
threads. Every thread may take its next step at any time. The loop that `nextLoop`
picks is left open, and so is the order in which a vector destroys its elements. -/

namespace CppSearchServer.Main

open Net Concurrency Library.TransitionSystem

/-- What a task of the pool captures: the connection, by its loop and its number there,
and the request. -/
structure Submission (m : Nat) where
  loop : Fin m
  id : Nat
  requestId : Nat
  timing : RequestTimingPtr
  request : Bytes
deriving DecidableEq

/-- Where `threadMain` is: before the test of `quit_`, in the body of that loop, behind it,
behind `loop_ = nullptr`, and at its end, where the `EventLoop` is destroyed. -/
inductive ThreadState where
  | checking
  | iterating
  | leaving
  | cleared
  | exited
deriving DecidableEq

def ThreadState.published : ThreadState → Bool
  | .checking | .iterating | .leaving => true
  | .cleared | .exited => false

/-- The main thread. `accepted` and `waking` are inside the read callback, with the loop
picked; `stopping` is where `accept_loop.loop()` has returned. `locked` and `quitting`
are inside `~EventLoopThread` and hold its mutex, `quitting` behind the store of `quit_`. -/
inductive MainState (m : Nat) where
  | accepting
  | accepted (target : Fin m)
  | waking (target : Fin m)
  | stopping
  | notifying
  | joiningWorkers (joined : Nat)
  | destroyingThreads
  | locked (i : Fin m)
  | quitting (i : Fin m)
  | joiningThread (i : Fin m)
  | returned
deriving DecidableEq

namespace MainState

variable {m : Nat}

def poolDestroyed : MainState m → Bool
  | .destroyingThreads | .locked _ | .quitting _ | .joiningThread _ | .returned => true
  | _ => false

def joinedWorkers (n : Nat) : MainState m → Nat
  | .joiningWorkers joined => joined
  | main => if main.poolDestroyed then n else 0

def holds (i : Fin m) : MainState m → Bool
  | .locked j | .quitting j => i = j
  | _ => false

end MainState

/-- A member function called on a destroyed object, or an exception that leaves the
thread of an I/O loop. -/
inductive Fault (m : Nat) where
  | usedLoop (i : Fin m)
  | usedPool
  | submitThrew (i : Fin m)
deriving DecidableEq

/-- `completing` are the workers between the two halves of `queueInLoop`, `destroyed` the
elements of the group that are. Nothing happens any more behind a `fault`. -/
structure ServeWithEventLoop (m n : Nat) where
  main : MainState m
  pool : WorkerPool n (Fin m) (Submission m)
  servers : Fin m → Server
  threads : Fin m → ThreadState
  quit : Fin m → Bool
  completing : Fin n → Option (Fin m)
  destroyed : Fin m → Bool
  fault : Option (Fault m)

namespace ServeWithEventLoop

inductive MainAction (m : Nat) where
  | accept (target : Fin m) (fd : Int)
  | discard
  | queueInLoop
  | wakeup
  | acceptLoopReturns
  | stop
  | notifyAll
  | joinWorker
  | destroyPool
  | lock (i : Fin m)
  | quit
  | joinThread
  | destroyAcceptLoop

inductive WorkerAction where
  | wakeUp
  | takeTask
  | complete (result : ResponseResult)
  | wakeup
  | finish (outcome : Outcome)

inductive LoopAction (n : Nat) where
  | check
  | execute
  | move (a : Server.Action)
  | submit
  | notifyOne (waiter : Option (Fin n))
  | clear
  | destroy

inductive Action (m n : Nat) where
  | main (a : MainAction m)
  | worker (w : Fin n) (a : WorkerAction)
  | loop (i : Fin m) (a : LoopAction n)
  | outside (i : Fin m) (a : Server.Action)

def connectionSettings {m : Nat} (wakeupFds : Fin m → Int) (latencyMetricsEnabled : Bool)
    (i : Fin m) : Settings :=
  ⟨wakeupFds i, 60000, some latencyMetricsEnabled⟩

variable {m n : Nat}

/-- The I/O loops run and the workers have been started; neither may be none. -/
def new (m n : Nat) (settings : Fin m → Settings) (now : Nat) (peers : Fin m → Nat → Peer)
    (files : Fin m → Int → Bool) : Option (ServeWithEventLoop m n) :=
  if m = 0 then none
  else
    (WorkerPool.new n (Fin m) (Submission m)).map fun pool =>
      { main := .accepting
        pool := pool
        servers := fun i => Server.new (settings i) now (peers i) (files i)
        threads := fun _ => .checking
        quit := fun _ => false
        completing := fun _ => none
        destroyed := fun _ => false
        fault := none }

def setThread (i : Fin m) (state : ThreadState) (s : ServeWithEventLoop m n) :
    ServeWithEventLoop m n :=
  { s with threads := Function.update s.threads i state }

def fail (fault : Fault m) (s : ServeWithEventLoop m n) : ServeWithEventLoop m n :=
  { s with fault := some fault }

def useLoop (i : Fin m) (s next : ServeWithEventLoop m n) : ServeWithEventLoop m n :=
  if s.threads i = .exited then s.fail (.usedLoop i) else next

def usePool (a : Concurrency.Action n (Fin m) (Submission m)) (s : ServeWithEventLoop m n) :
    Option (ServeWithEventLoop m n) :=
  (s.pool.step a).map fun pool =>
    if s.main.poolDestroyed then s.fail .usedPool else { s with pool := pool }

section
variable (settings : Fin m → Settings)

def serve (i : Fin m) (a : Server.Action) (s : ServeWithEventLoop m n) :
    Option (ServeWithEventLoop m n) :=
  ((s.servers i).step (settings i) a).map fun server =>
    { s with servers := Function.update s.servers i server }

def mainStep (s : ServeWithEventLoop m n) : MainAction m → Option (ServeWithEventLoop m n)
  | .accept target fd =>
    if s.main = .accepting then
      (s.serve settings target (.accept fd)).map fun t => { t with main := .accepted target }
    else none
  | .discard =>
    match s.main with
    | .accepted target =>
      (s.serve settings target .discard).map fun t => { t with main := .accepting }
    | _ => none
  | .queueInLoop =>
    match s.main with
    | .accepted target =>
      (s.serve settings target .queueEstablish).map fun t =>
        s.useLoop target { t with main := .waking target }
    | _ => none
  | .wakeup =>
    match s.main with
    | .waking target => some (s.useLoop target { s with main := .accepting })
    | .quitting i => some (s.useLoop i { s with main := .joiningThread i })
    | _ => none
  | .acceptLoopReturns =>
    if s.main = .accepting then some { s with main := .stopping } else none
  | .stop =>
    if s.main = .stopping then
      (s.pool.step .stop).map fun pool => { s with pool := pool, main := .notifying }
    else none
  | .notifyAll =>
    if s.main = .notifying then
      (s.pool.step .notifyAll).map fun pool => { s with pool := pool, main := .joiningWorkers 0 }
    else none
  | .joinWorker =>
    match s.main with
    | .joiningWorkers joined =>
      if h : joined < n then
        if (s.pool.workers ⟨joined, h⟩).hasExited then
          some { s with main := .joiningWorkers (joined + 1) }
        else none
      else none
    | _ => none
  | .destroyPool =>
    if s.main = .joiningWorkers n then some { s with main := .destroyingThreads } else none
  | .lock i =>
    if s.main = .destroyingThreads ∧ s.destroyed i = false then some { s with main := .locked i }
    else none
  | .quit =>
    match s.main with
    | .locked i =>
      if (s.threads i).published then
        some (s.useLoop i
          { s with quit := Function.update s.quit i true, main := .quitting i })
      else some { s with main := .joiningThread i }
    | _ => none
  | .joinThread =>
    match s.main with
    | .joiningThread i =>
      if s.threads i = .exited then
        some { s with
          main := .destroyingThreads
          destroyed := Function.update s.destroyed i true }
      else none
    | _ => none
  | .destroyAcceptLoop =>
    if s.main = .destroyingThreads ∧ ∀ i, s.destroyed i = true then
      some { s with main := .returned }
    else none

/-- `complete` is a completion whose weak pointer still leads to the connection; any other
one returns at once. -/
def workerStep (w : Fin n) (s : ServeWithEventLoop m n) :
    WorkerAction → Option (ServeWithEventLoop m n)
  | .wakeUp => s.usePool (.wakeUp w)
  | .takeTask => s.usePool (.takeTask w)
  | .complete result =>
    match s.pool.workers w, s.completing w with
    | .running task, none =>
      (s.serve settings task.loop (.complete task.id task.requestId task.timing result)).map
        fun t => s.useLoop task.loop
          { t with completing := Function.update s.completing w (some task.loop) }
    | _, _ => none
  | .wakeup =>
    match s.completing w with
    | some i =>
      some (s.useLoop i { s with completing := Function.update s.completing w none })
    | none => none
  | .finish outcome =>
    if s.completing w = none then s.usePool (.finish w outcome) else none

/-- In the body of the loop, and not inside `submit`. -/
def handling (i : Fin m) (s : ServeWithEventLoop m n) : Bool :=
  s.threads i = .iterating && !s.pool.notifying (.caller i)

/-- Behind one step of `loop`; the last one of a round leads back to the test of `quit_`. -/
def threadAfter : Server.Action → Option ThreadState
  | .wait _ | .dispatch _ _ _ | .endBatch | .runTask _ | .endTasks | .runTimer _ => some .iterating
  | .endTimers => some .checking
  | _ => none

/-- `submit` up to its unlock, where the next call of the handler is the request handler. -/
def submit (i : Fin m) (s : ServeWithEventLoop m n) : Option (ServeWithEventLoop m n) :=
  match (s.servers i).todo with
  | .requestHandler requestId timing request :: _ =>
    if s.main.poolDestroyed then some (s.fail .usedPool)
    else if s.pool.stopping then some (s.fail (.submitThrew i))
    else
      (s.pool.step (.submit (.caller i)
        ⟨i, (s.servers i).active, requestId, timing, request⟩)).bind fun pool =>
          { s with pool := pool }.serve settings i .execute
  | _ => none

def loopStep (i : Fin m) (s : ServeWithEventLoop m n) :
    LoopAction n → Option (ServeWithEventLoop m n)
  | .check =>
    if s.threads i = .checking then
      some (s.setThread i (if s.quit i then .leaving else .iterating))
    else none
  | .execute =>
    match (s.servers i).todo with
    | .requestHandler _ _ _ :: _ => none
    | _ => if s.handling i then s.serve settings i .execute else none
  | .move a =>
    match threadAfter a with
    | some state =>
      if s.handling i then (s.serve settings i a).map (setThread i state) else none
    | none => none
  | .submit => if s.handling i then s.submit settings i else none
  | .notifyOne waiter => s.usePool (.notifyOne (.caller i) waiter)
  | .clear =>
    if s.threads i = .leaving ∧ s.main.holds i = false then some (s.setThread i .cleared) else none
  | .destroy => if s.threads i = .cleared then some (s.setThread i .exited) else none

def outsideStep (i : Fin m) (s : ServeWithEventLoop m n) (a : Server.Action) :
    Option (ServeWithEventLoop m n) :=
  match a with
  | .tick | .peer _ _ | .openOther _ | .closeOther _ => s.serve settings i a
  | _ => none

def step (s : ServeWithEventLoop m n) (a : Action m n) : Option (ServeWithEventLoop m n) :=
  if s.fault = none ∧ ∀ i, (s.servers i).process = .running then
    match a with
    | .main a => s.mainStep settings a
    | .worker w a => s.workerStep settings w a
    | .loop i a => s.loopStep settings i a
    | .outside i a => s.outsideStep settings i a
  else none

end

def system (wakeupFds : Fin m → Int) (latencyMetricsEnabled : Bool) (n : Nat) :
    System (ServeWithEventLoop m n) (Action m n) where
  initial s := ∃ now peers files,
    new m n (connectionSettings wakeupFds latencyMetricsEnabled) now peers files = some s
  step := step (connectionSettings wakeupFds latencyMetricsEnabled)

end ServeWithEventLoop

end CppSearchServer.Main
