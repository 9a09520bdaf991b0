import CppSearchServer.Net.Buffer
import CppSearchServer.Net.Channel

/-! `net::TcpConnection`, one handler at a time.
A handler is a function on the connection object. What the kernel answers to
its `recv` and `send` calls comes in as a list, `now` is the steady clock at the
instant the handler runs, and every call the object makes on the kernel, on its
event loop, on the metrics and on the request handler is appended to `calls`.
Counters and time points are natural numbers; a shared or weak pointer to a
`RequestTiming` is the number of the request it was made for. -/

namespace CppSearchServer.Net

open Library.Framing

abbrev RequestTimingPtr := Option Nat

structure ResponseResult where
  response : Bytes
  closeAfterResponse : Bool
deriving DecidableEq, Repr

/-- What `recv` returns: `n >= 0` bytes (none at the end of the stream), or -1
with `errno` EINTR, EAGAIN/EWOULDBLOCK, or anything else. -/
inductive RecvResult where
  | bytes (data : Bytes)
  | eintr
  | again
  | fail
deriving DecidableEq, Repr

/-- What `send` returns: the number of bytes taken over, or -1 with `errno`. -/
inductive SendResult where
  | bytes (n : Nat)
  | eintr
  | again
  | fail
deriving DecidableEq, Repr

inductive Call where
  | recv (time : Nat) (fd : Int) (result : RecvResult)
  | send (time : Nat) (fd : Int) (output : Bytes) (result : SendResult)
  | addChannel (channel : Channel)
  | updateChannel (channel : Channel)
  | removeChannel (fd : Int)
  | closeFd (fd : Int)
  | runAt (expiresAt expectedGeneration : Nat)
  | beginRequest
  | markQueued (timing : RequestTimingPtr)
  | markReturnedToIo (timing : RequestTimingPtr)
  | markWriteStarted (timing : RequestTimingPtr)
  | complete (timing : RequestTimingPtr)
  | requestHandler (requestId : Nat) (timing : RequestTimingPtr) (request : Bytes)
deriving DecidableEq, Repr

/-- `fd` is negative once the connection is closed. `latencyMetrics` is `none`
for a null pointer and otherwise says whether the metrics are enabled. `calls`
is no member of the class: it is the history of the calls made so far. -/
structure TcpConnection where
  fd : Int
  channel : Option Channel
  inputBuffer : Buffer
  outputBuffer : Buffer
  responseReady : Bool
  closeAfterResponse : Bool
  peerClosed : Bool
  idleTimeout : Nat
  lastActivityAt : Nat
  idleGeneration : Nat
  processingRequest : Bool
  requestGeneration : Nat
  latencyMetrics : Option Bool
  activeRequestTiming : RequestTimingPtr
  calls : List Call
deriving DecidableEq, Repr

namespace TcpConnection

def new (fd : Int) (idleTimeout : Nat) (latencyMetrics : Option Bool) : TcpConnection where
  fd := fd
  channel := none
  inputBuffer := ⟨[]⟩
  outputBuffer := ⟨[]⟩
  responseReady := false
  closeAfterResponse := false
  peerClosed := false
  idleTimeout := idleTimeout
  lastActivityAt := 0
  idleGeneration := 0
  processingRequest := false
  requestGeneration := 0
  latencyMetrics := latencyMetrics
  activeRequestTiming := none
  calls := []

def call (c : TcpConnection) (made : Call) : TcpConnection :=
  { c with calls := c.calls ++ [made] }

def metricsCall (c : TcpConnection) (made : Call) : TcpConnection :=
  if c.latencyMetrics.isSome then c.call made else c

/-- A call with the timing of the response being sent, under
`if (latency_metrics_ && active_request_timing_)`. -/
def activeTimingCall (c : TcpConnection) (made : RequestTimingPtr → Call) : TcpConnection :=
  if c.latencyMetrics.isSome && c.activeRequestTiming.isSome then
    c.call (made c.activeRequestTiming) else c

def markActivity (now : Nat) (c : TcpConnection) : TcpConnection :=
  { c with lastActivityAt := now, idleGeneration := c.idleGeneration + 1 }

def scheduleIdleCheck (expiresAt : Nat) (c : TcpConnection) : TcpConnection :=
  c.call (.runAt expiresAt c.idleGeneration)

def establish (now : Nat) (channel : Channel) (c : TcpConnection) : TcpConnection :=
  let channel := channel.enableReading
  let c := { c with channel := some channel }
  let c := c.call (.addChannel channel)
  let c := c.markActivity now
  c.scheduleIdleCheck (c.lastActivityAt + c.idleTimeout)

def close (c : TcpConnection) : TcpConnection :=
  if c.fd < 0 then c
  else
    let c := c.call (.removeChannel c.fd)
    let c := c.call (.closeFd c.fd)
    { c with fd := -1 }

/-- The channel is shared with the loop and, during a dispatch, with the
dispatch itself, so `channel_.lock()` succeeds wherever this is reached. -/
def enableWriting (c : TcpConnection) : TcpConnection :=
  match c.channel with
  | none => c
  | some channel =>
    let channel := channel.enableWriting
    { c with channel := some channel }.call (.updateChannel channel)

def disableWriting (c : TcpConnection) : TcpConnection :=
  match c.channel with
  | none => c
  | some channel =>
    let channel := channel.disableWriting
    { c with channel := some channel }.call (.updateChannel channel)

def hasCompleteRequest (c : TcpConnection) : Bool :=
  (find headerEnd c.inputBuffer.peek).isSome

def isIdle (c : TcpConnection) : Bool :=
  c.inputBuffer.empty && c.outputBuffer.empty && !c.responseReady && !c.processingRequest

/-- `find(...) + 4`; where there is no match, `npos + 4` wraps around to 3. -/
def requestEnd (input : Bytes) : Nat :=
  match find headerEnd input with
  | some position => position + 4
  | none => 3

def processRequest (c : TcpConnection) : TcpConnection :=
  let input := c.inputBuffer.peek
  let request := input.take (requestEnd input)
  let c := { c with inputBuffer := c.inputBuffer.retrieve (requestEnd input) }
  let c := { c with processingRequest := true, requestGeneration := c.requestGeneration + 1 }
  let c := c.metricsCall .beginRequest
  let timing : RequestTimingPtr :=
    if c.latencyMetrics = some true then some c.requestGeneration else none
  let c := c.metricsCall (.markQueued timing)
  c.call (.requestHandler c.requestGeneration timing request)

def afterRead (now : Nat) (receivedData : Bool) (c : TcpConnection) : TcpConnection :=
  let c := if receivedData then c.markActivity now else c
  if !c.responseReady && !c.processingRequest && c.hasCompleteRequest then c.processRequest
  else if c.peerClosed && !c.responseReady && !c.processingRequest then c.close
  else c

/-- The `recv` loop of `handleRead`; where the answers end, `recv` finds nothing
more to read. -/
def readLoop (now : Nat) (receivedData : Bool) (c : TcpConnection) :
    List RecvResult → TcpConnection
  | .bytes (b :: data) :: answers =>
    let c := c.call (.recv now c.fd (.bytes (b :: data)))
    readLoop now true { c with inputBuffer := c.inputBuffer.append (b :: data) } answers
  | .bytes [] :: _ =>
    afterRead now receivedData { c.call (.recv now c.fd (.bytes [])) with peerClosed := true }
  | .eintr :: answers => readLoop now receivedData (c.call (.recv now c.fd .eintr)) answers
  | .fail :: _ => (c.call (.recv now c.fd .fail)).close
  | .again :: _ | [] => afterRead now receivedData (c.call (.recv now c.fd .again))

/-- On the descriptor of a closed connection the first call fails with EBADF. -/
def handleRead (now : Nat) (answers : List RecvResult) (c : TcpConnection) : TcpConnection :=
  c.readLoop now false (if c.fd < 0 then [.fail] else answers)

def responseSent (c : TcpConnection) : TcpConnection :=
  { c.disableWriting.activeTimingCall .complete with
    activeRequestTiming := none
    responseReady := false }

def afterWrite (now : Nat) (sentData : Bool) (c : TcpConnection) : TcpConnection :=
  let c := c.responseSent
  if c.closeAfterResponse then c.close
  else if !c.processingRequest && c.hasCompleteRequest then c.processRequest
  else if c.peerClosed then c.close
  else if sentData then c.markActivity now
  else c

/-- The `send` loop of `handleWrite`; where the answers end, the socket takes
nothing more for now. -/
def writeLoop (now : Nat) (sentData : Bool) (c : TcpConnection) (answers : List SendResult) :
    TcpConnection :=
  if c.outputBuffer.empty then afterWrite now sentData c
  else
    let output := c.outputBuffer.peek
    match answers with
    | .bytes (n + 1) :: answers =>
      let c := c.call (.send now c.fd output (.bytes (n + 1)))
      let c := c.activeTimingCall .markWriteStarted
      writeLoop now true { c with outputBuffer := c.outputBuffer.retrieve (n + 1) } answers
    | .eintr :: answers => writeLoop now sentData (c.call (.send now c.fd output .eintr)) answers
    | .again :: _ | [] =>
      let c := c.call (.send now c.fd output .again)
      let c := if sentData then c.markActivity now else c
      c.enableWriting
    | .bytes 0 :: _ => (c.call (.send now c.fd output (.bytes 0))).close
    | .fail :: _ => (c.call (.send now c.fd output .fail)).close

def handleWrite (now : Nat) (answers : List SendResult) (c : TcpConnection) : TcpConnection :=
  c.writeLoop now false (if c.fd < 0 then [.fail] else answers)

def handleError (c : TcpConnection) : TcpConnection := c.close

/-- `Channel::handleEvent` with the callbacks `establish` installs. -/
def handleEvent (now : Nat) (revents : EventMask) (reads : List RecvResult)
    (writes : List SendResult) : TcpConnection → TcpConnection :=
  Channel.handleEvent revents (handleRead now reads) (handleWrite now writes) handleError

def closeIfIdle (now : Nat) (expectedGeneration : Nat) (c : TcpConnection) : TcpConnection :=
  if c.fd < 0 then c
  else if expectedGeneration ≠ c.idleGeneration then
    c.scheduleIdleCheck (c.lastActivityAt + c.idleTimeout)
  else if !c.isIdle then c.scheduleIdleCheck (now + c.idleTimeout)
  else c.close

def finishRequest (now : Nat) (requestId : Nat) (timing : RequestTimingPtr)
    (result : ResponseResult) (answers : List SendResult) (c : TcpConnection) : TcpConnection :=
  if c.fd < 0 then c
  else if !c.processingRequest then c
  else if requestId ≠ c.requestGeneration then c
  else
    let c := c.metricsCall (.markReturnedToIo timing)
    let c :=
      { c with
        processingRequest := false
        activeRequestTiming := timing
        outputBuffer := c.outputBuffer.append result.response
        closeAfterResponse := result.closeAfterResponse
        responseReady := true }
    c.handleWrite now answers

end TcpConnection

end CppSearchServer.Net
