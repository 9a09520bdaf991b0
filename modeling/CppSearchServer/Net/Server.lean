import CppSearchServer.Library.TransitionSystem
import CppSearchServer.Net.TcpConnection

/-! One I/O loop of `serveWithEventLoop` and everything that runs beside it.
The acceptor, the workers, the peers and the rest of the process act between any
two calls of a handler on the kernel or the loop: a handler computes the new
connection object at once and its calls are then carried out one step at a time.
Descriptor numbers are reused as the kernel does, so a number says nothing about
which connection it belongs to; `opened` says that. -/

namespace CppSearchServer.Net

open Library.TransitionSystem

/-- The eventfd of the loop, and the arguments each connection is constructed with. -/
structure Settings where
  wakeupFd : Int
  idleTimeout : Nat
  latencyMetrics : Option Bool

/-- What an open descriptor refers to. Connections are numbered in the order of
`accept`; `foreign` is any file this loop does not know of. -/
inductive Owner where
  | connection (id : Nat)
  | wakeup
  | foreign
deriving DecidableEq, Repr

inductive Peer where
  | connected
  | halfClosed
  | closed
  | reset
deriving DecidableEq, Repr

inductive PeerAction where
  | send
  | halfClose
  | close
  | reset
deriving DecidableEq, Repr

namespace Peer

def after : Peer → PeerAction → Peer
  | peer, .send => peer
  | .connected, .halfClose => .halfClosed
  | peer, .halfClose => peer
  | .reset, .close => .reset
  | _, .close => .closed
  | _, .reset => .reset

def gone : Peer → Bool
  | .closed | .reset => true
  | .connected | .halfClosed => false

end Peer

inductive LoopTask where
  | establish (fd : Int) (id : Nat)
  | finishRequest (id requestId : Nat) (timing : RequestTimingPtr) (result : ResponseResult)
deriving DecidableEq, Repr

/-- An entry of the batch. `registrant` is not part of `epoll_event`: it records
whose channel was registered when `epoll_wait` returned. -/
structure EpollEvent where
  fd : Int
  revents : EventMask
  registrant : Option Owner
deriving DecidableEq, Repr

structure Timer where
  expiresAt : Nat
  expectedGeneration : Nat
  id : Nat
deriving DecidableEq, Repr

/-- `killed` by a signal, or `terminated` by an exception that leaves the thread
of the loop. -/
inductive Process where
  | running
  | killed
  | terminated
deriving DecidableEq, Repr

/-- Where `loop` is: in `wait`, in the loop over the batch, inside `handleWakeup`
after its swap, or in `runExpiredTimers` with the time it was given. -/
inductive Phase where
  | waiting
  | dispatching
  | runningTasks
  | timers (now : Nat)
deriving DecidableEq, Repr

/-- History: a batch entry was taken, registered by one owner and given to another,
or to nobody. -/
structure Delivery where
  registrant : Option Owner
  receiver : Option Owner
deriving DecidableEq, Repr

/-- History: connection `id` called the kernel with a number that belonged to
`owner`. -/
structure Use where
  id : Nat
  fd : Int
  owner : Option Owner
deriving DecidableEq, Repr

/-- `acceptor` is the accepted descriptor it has not passed on yet. `active` made
the calls in `todo`, which are still to be carried out; `executed` holds those
that have been. `accepted`, `closed`, `dispatched` and `used` are history. -/
structure Server where
  process : Process
  now : Nat
  peers : Nat → Peer
  opened : Int → Option Owner
  accepted : List Int
  closed : List Nat
  acceptor : Option (Int × Nat)
  pendingTasks : List LoopTask
  phase : Phase
  batch : List EpollEvent
  tasks : List LoopTask
  channels : Int → Option Owner
  epoll : Int → Option EventMask
  connections : Nat → Option TcpConnection
  active : Nat
  todo : List Call
  executed : Nat → List Call
  timers : List Timer
  handedOver : List (Nat × Nat × RequestTimingPtr)
  dispatched : List Delivery
  used : List Use

namespace Server

inductive Action where
  | tick
  | peer (id : Nat) (action : PeerAction)
  | openOther (fd : Int)
  | closeOther (fd : Int)
  | accept (fd : Int)
  | discard
  | queueEstablish
  | otherLoop
  | complete (id requestId : Nat) (timing : RequestTimingPtr) (result : ResponseResult)
  | execute
  | wait (events : List (Int × EventMask))
  | dispatch (reads : List RecvResult) (writes : List SendResult) (counter : Bool)
  | endBatch
  | runTask (writes : List SendResult)
  | endTasks
  | runTimer (timer : Timer)
  | endTimers

/-- The loop has just been constructed; `files` are the descriptors open by then. -/
def new (settings : Settings) (now : Nat) (peers : Nat → Peer) (files : Int → Bool) : Server where
  process := .running
  now := now
  peers := peers
  opened fd :=
    if fd = settings.wakeupFd then some .wakeup else if files fd then some .foreign else none
  accepted := []
  closed := []
  acceptor := none
  pendingTasks := []
  phase := .waiting
  batch := []
  tasks := []
  channels fd := if fd = settings.wakeupFd then some .wakeup else none
  epoll fd := if fd = settings.wakeupFd then some readInterest else none
  connections _ := none
  active := 0
  todo := []
  executed _ := []
  timers := []
  handedOver := []
  dispatched := []
  used := []

section Kernel

def setOpened (fd : Int) (owner : Option Owner) (s : Server) : Server :=
  { s with opened := Function.update s.opened fd owner }

def recordUse (fd : Int) (s : Server) : Server :=
  { s with used := s.used ++ [⟨s.active, fd, s.opened fd⟩] }

/-- As assumed of the operating system, `send` with flags 0 to a peer that has closed
or reset the connection raises SIGPIPE, and the program leaves it at its default. -/
def raisesSigpipe (s : Server) (fd : Int) : Bool :=
  match s.opened fd with
  | some (.connection id) => (s.peers id).gone
  | _ => false

def send (fd : Int) (s : Server) : Server :=
  { s.recordUse fd with process := if s.raisesSigpipe fd then .killed else s.process }

def closeFd (fd : Int) (s : Server) : Server :=
  { s.recordUse fd with
    opened := Function.update s.opened fd none
    epoll := Function.update s.epoll fd none
    closed := s.closed ++ [s.active] }

end Kernel

section EventLoop

/-- `epoll_ctl` refuses to add a descriptor that is not open or already there, and
`addFd` throws then. -/
def addChannel (channel : Channel) (s : Server) : Server :=
  if (s.opened channel.fd).isSome ∧ s.epoll channel.fd = none then
    { s with
      channels := Function.update s.channels channel.fd (some (.connection s.active))
      epoll := Function.update s.epoll channel.fd (some channel.events) }
  else
    { s with
      channels := Function.update s.channels channel.fd (some (.connection s.active))
      process := .terminated }

def updateChannel (channel : Channel) (s : Server) : Server :=
  if (s.epoll channel.fd).isSome then
    { s with epoll := Function.update s.epoll channel.fd (some channel.events) }
  else { s with process := .terminated }

def removeChannel (fd : Int) (s : Server) : Server :=
  if s.channels fd = none then s
  else if (s.epoll fd).isSome then
    { s with
      channels := Function.update s.channels fd none
      epoll := Function.update s.epoll fd none }
  else { s with process := .terminated }

def runAt (expiresAt expectedGeneration : Nat) (s : Server) : Server :=
  { s with timers := s.timers ++ [⟨expiresAt, expectedGeneration, s.active⟩] }

def perform (made : Call) (s : Server) : Server :=
  match made with
  | .recv _ fd _ => s.recordUse fd
  | .send _ fd _ _ => s.send fd
  | .addChannel channel => s.addChannel channel
  | .updateChannel channel => s.updateChannel channel
  | .removeChannel fd => s.removeChannel fd
  | .closeFd fd => s.closeFd fd
  | .runAt expiresAt expectedGeneration => s.runAt expiresAt expectedGeneration
  | .requestHandler requestId timing _ =>
    { s with handedOver := s.handedOver ++ [(s.active, requestId, timing)] }
  | _ => s

def startCall (made : Call) (todo : List Call) (s : Server) : Server :=
  { s with
    todo := todo
    executed := Function.update s.executed s.active (s.executed s.active ++ [made]) }

def execute (s : Server) : Option Server :=
  match s.todo with
  | [] => none
  | made :: todo => some ((s.startCall made todo).perform made)

def enter (id : Nat) (c c' : TcpConnection) (s : Server) : Server :=
  { s with
    connections := Function.update s.connections id (some c')
    active := id
    todo := c'.calls.drop c.calls.length }

/-- A closed connection stays here as an object nobody opens again; in the program
the weak pointers to it expire. -/
def runHandler (id : Nat) (handler : TcpConnection → TcpConnection) (s : Server) : Server :=
  match s.connections id with
  | none => s
  | some c => s.enter id c (handler c)

def runTask (settings : Settings) (writes : List SendResult) (s : Server) : LoopTask → Server
  | .establish fd id =>
    let c := TcpConnection.new fd settings.idleTimeout settings.latencyMetrics
    s.enter id c (c.establish s.now (.new fd))
  | .finishRequest id requestId timing result =>
    s.runHandler id (TcpConnection.finishRequest s.now requestId timing result writes)

/-- A batch lists a descriptor at most once, and only what is registered and asked
for. Errors and hang-ups are always reported, but an eventfd has none. -/
def reportable (settings : Settings) (s : Server) (event : Int × EventMask) : Bool :=
  match s.epoll event.1 with
  | none => false
  | some events =>
    (!event.2.has EPOLLIN || events.has EPOLLIN) &&
      (!event.2.has EPOLLOUT || events.has EPOLLOUT) &&
      (event.1 ≠ settings.wakeupFd || event.2 = EPOLLIN)

/-- `dispatch` of the first entry. `counter` says whether the `read` of
`handleWakeup` got the counter, and so whether the tasks are swapped. -/
def dispatch (reads : List RecvResult) (writes : List SendResult) (counter : Bool) (s : Server) :
    Option Server :=
  match s.batch with
  | [] => none
  | event :: batch =>
    let receiver := s.channels event.fd
    let s := { s with
      batch := batch
      dispatched := s.dispatched ++ [⟨event.registrant, receiver⟩] }
    match receiver with
    | some .wakeup =>
      if counter then
        some { s with phase := .runningTasks, tasks := s.pendingTasks, pendingTasks := [] }
      else some s
    | some (.connection id) =>
      some (s.runHandler id (TcpConnection.handleEvent s.now event.revents reads writes))
    | some .foreign | none => some s

end EventLoop

def loopStep (settings : Settings) (s : Server) : Action → Option Server
  | .wait events =>
    if s.phase = .waiting ∧ (events.map Prod.fst).Nodup ∧ events.all (s.reportable settings) then
      some { s with
        phase := .dispatching
        batch := events.map fun event => ⟨event.1, event.2, s.channels event.1⟩ }
    else none
  | .dispatch reads writes counter =>
    if s.phase = .dispatching then s.dispatch reads writes counter else none
  | .endBatch =>
    if s.phase = .dispatching ∧ s.batch = [] then some { s with phase := .timers s.now } else none
  | .runTask writes =>
    match s.phase, s.tasks with
    | .runningTasks, task :: tasks => some ({ s with tasks := tasks }.runTask settings writes task)
    | _, _ => none
  | .endTasks =>
    if s.phase = .runningTasks ∧ s.tasks = [] then some { s with phase := .dispatching } else none
  | .runTimer timer =>
    match s.phase with
    | .timers now =>
      if timer ∈ s.timers ∧ timer.expiresAt ≤ now ∧
          ∀ other ∈ s.timers, timer.expiresAt ≤ other.expiresAt then
        some ({ s with timers := s.timers.erase timer }.runHandler timer.id
          (TcpConnection.closeIfIdle s.now timer.expectedGeneration))
      else none
    | _ => none
  | .endTimers =>
    match s.phase with
    | .timers now =>
      if ∀ timer ∈ s.timers, now < timer.expiresAt then some { s with phase := .waiting } else none
    | _ => none
  | _ => none

/-- Everything else. `accept` returns any number that is not open, `discard` is the
failing `setNonBlocking`, and `otherLoop` hands the connection to another loop.
A worker may report a response more than once. -/
def outsideStep (s : Server) : Action → Option Server
  | .tick => some { s with now := s.now + 1 }
  | .peer id action =>
    some { s with peers := Function.update s.peers id ((s.peers id).after action) }
  | .openOther fd =>
    if 0 ≤ fd ∧ s.opened fd = none then some (s.setOpened fd (some .foreign)) else none
  | .closeOther fd =>
    if s.opened fd = some .foreign then some (s.setOpened fd none) else none
  | .accept fd =>
    if 0 ≤ fd ∧ s.opened fd = none ∧ s.acceptor = none then
      some { s.setOpened fd (some (.connection s.accepted.length)) with
        accepted := s.accepted ++ [fd]
        acceptor := some (fd, s.accepted.length) }
    else none
  | .discard =>
    match s.acceptor with
    | some (fd, id) =>
      some { s.setOpened fd none with acceptor := none, closed := s.closed ++ [id] }
    | none => none
  | .queueEstablish =>
    match s.acceptor with
    | some (fd, id) =>
      some { s with acceptor := none, pendingTasks := s.pendingTasks ++ [.establish fd id] }
    | none => none
  | .otherLoop =>
    match s.acceptor with
    | some (fd, _) => some { s.setOpened fd (some .foreign) with acceptor := none }
    | none => none
  | .complete id requestId timing result =>
    if (id, requestId, timing) ∈ s.handedOver then
      some { s with pendingTasks := s.pendingTasks ++ [.finishRequest id requestId timing result] }
    else none
  | _ => none

def step (settings : Settings) (s : Server) (a : Action) : Option Server :=
  if s.process = .running then
    match a with
    | .execute => s.execute
    | .wait _ | .dispatch _ _ _ | .endBatch | .runTask _ | .endTasks | .runTimer _ | .endTimers =>
      if s.todo = [] then s.loopStep settings a else none
    | _ => s.outsideStep a
  else none

def system (settings : Settings) : System Server Action where
  initial s := ∃ now peers files, s = new settings now peers files
  step := step settings

end Server

end CppSearchServer.Net
