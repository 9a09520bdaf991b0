import CppSearchServer.Library.TransitionSystem
import CppSearchServer.Net.ConnectionInvariant

/-! One established connection and everything that can happen to it: readiness
events with any answers from the kernel, completions of handed-over requests any
number of times and arbitrarily late, expired idle checks, and time. -/

namespace CppSearchServer.Net

open Library.TransitionSystem Library.Framing

/-- `idleChecks` are the pending timers of this connection, as expiry and
expected generation. `delivered` records every completion that ran. -/
structure Session where
  now : Nat
  connection : TcpConnection
  idleChecks : List (Nat × Nat)
  delivered : List (Nat × ResponseResult)
deriving DecidableEq, Repr

namespace Session

inductive Action where
  | tick (elapsed : Nat)
  | event (revents : EventMask) (reads : List RecvResult) (writes : List SendResult)
  | completion (requestId : Nat) (timing : RequestTimingPtr) (result : ResponseResult)
      (writes : List SendResult)
  | expire (check : Nat × Nat)
deriving DecidableEq, Repr

/-- The connection after a handler; the timers it asked for become pending. -/
def ran (s : Session) (c : TcpConnection) : Session :=
  { s with
    connection := c
    idleChecks := s.idleChecks ++ scheduledChecks (c.calls.drop s.connection.calls.length) }

def interested (s : Session) (event : EventMask) : Bool :=
  (registration s.connection.fd s.connection.calls).any (·.has event)

/-- Events are dispatched while the connection is open, and EPOLLOUT only while
it is part of the interest. A completion callback exists for every request handed
over so far. A timer runs at or after its expiry, once. -/
def step (s : Session) : Action → Option Session
  | .tick elapsed => some { s with now := s.now + elapsed }
  | .event revents reads writes =>
    if 0 ≤ s.connection.fd ∧ (revents.has EPOLLOUT = true → s.interested EPOLLOUT = true) then
      some (s.ran (s.connection.handleEvent s.now revents reads writes))
    else none
  | .completion requestId timing result writes =>
    if 1 ≤ requestId ∧ requestId ≤ s.connection.requestGeneration then
      some { s.ran (s.connection.finishRequest s.now requestId timing result writes) with
        delivered := s.delivered ++ [(requestId, result)] }
    else none
  | .expire check =>
    if check ∈ s.idleChecks ∧ check.1 ≤ s.now then
      some ({ s with idleChecks := s.idleChecks.erase check }.ran
        (s.connection.closeIfIdle s.now check.2))
    else none

def established (now : Nat) (fd : Int) (idleTimeout : Nat) (latencyMetrics : Option Bool) :
    Session :=
  let c := (TcpConnection.new fd idleTimeout latencyMetrics).establish now (.new fd)
  ⟨now, c, scheduledChecks c.calls, []⟩

def system : System Session Action where
  initial s := ∃ now fd idleTimeout latencyMetrics,
    0 ≤ fd ∧ s = established now fd idleTimeout latencyMetrics
  step := step

theorem step_cases {s t : Session} {a : Action} (h : s.step a = some t) :
    (∃ elapsed, a = .tick elapsed ∧ t = { s with now := s.now + elapsed }) ∨
    (∃ revents reads writes, a = .event revents reads writes ∧ 0 ≤ s.connection.fd ∧
      (revents.has EPOLLOUT = true → s.interested EPOLLOUT = true) ∧
      t = s.ran (s.connection.handleEvent s.now revents reads writes)) ∨
    (∃ requestId timing result writes, a = .completion requestId timing result writes ∧
      1 ≤ requestId ∧ requestId ≤ s.connection.requestGeneration ∧
      t = { s.ran (s.connection.finishRequest s.now requestId timing result writes) with
        delivered := s.delivered ++ [(requestId, result)] }) ∨
    (∃ check, a = .expire check ∧ check ∈ s.idleChecks ∧ check.1 ≤ s.now ∧
      t = { s with idleChecks := s.idleChecks.erase check }.ran
        (s.connection.closeIfIdle s.now check.2)) := by
  cases a with
  | tick elapsed => exact .inl ⟨elapsed, rfl, by simpa [step] using h.symm⟩
  | event revents reads writes =>
    obtain ⟨⟨hopen, hout⟩, ht⟩ := Option.ite_none_right_eq_some.mp h
    cases ht
    exact .inr (.inl ⟨revents, reads, writes, rfl, hopen, hout, rfl⟩)
  | completion requestId timing result writes =>
    obtain ⟨⟨hpos, hle⟩, ht⟩ := Option.ite_none_right_eq_some.mp h
    cases ht
    exact .inr (.inr (.inl ⟨requestId, timing, result, writes, rfl, hpos, hle, rfl⟩))
  | expire check =>
    obtain ⟨⟨hmem, hdue⟩, ht⟩ := Option.ite_none_right_eq_some.mp h
    cases ht
    exact .inr (.inr (.inr ⟨check, rfl, hmem, hdue, rfl⟩))

theorem registration_of_settled {fd : Int} {c : TcpConnection} (h : c.Settled fd) :
    registration c.fd c.calls = some c.interest := by
  simp [registration, h.registered.fd_eq, h.registered.stage]

theorem interest_has_out {c : TcpConnection} :
    c.interest.has EPOLLOUT = true ↔ c.responseReady = true := by
  unfold TcpConnection.interest
  split <;> simp_all [show readInterest.has EPOLLOUT = false by decide,
    show writeInterest.has EPOLLOUT = true by decide]

theorem interest_has_in (c : TcpConnection) : c.interest.has EPOLLIN = true := by
  unfold TcpConnection.interest
  split <;> decide

theorem responseReady_of_interested {fd : Int} {s : Session} (h : s.connection.Settled fd)
    (hout : s.interested EPOLLOUT = true) : s.connection.responseReady = true := by
  rw [interested, registration_of_settled h] at hout
  exact interest_has_out.mp (by simpa using hout)

theorem step_sound {fd : Int} (hfd : 0 ≤ fd) {s t : Session} {a : Action}
    (h : s.connection.Sound fd) (hstep : s.step a = some t) : t.connection.Sound fd := by
  rcases step_cases hstep with ⟨_, -, rfl⟩ | ⟨revents, reads, writes, -, hopen, hout, rfl⟩ |
    ⟨requestId, timing, result, writes, -, -, -, rfl⟩ | ⟨check, -, -, -, rfl⟩
  · exact h
  · have h := h.resolve_right fun h => h.open_false hopen
    exact TcpConnection.handleEvent_sound hfd _ _ _ _ h fun hw =>
      responseReady_of_interested h (hout hw)
  · exact TcpConnection.finishRequest_sound hfd _ _ _ _ _ h
  · exact TcpConnection.closeIfIdle_sound hfd _ _ h

theorem reachable_sound {s : Session} (h : Reachable system s) :
    ∃ fd, 0 ≤ fd ∧ s.connection.Sound fd := by
  induction h with
  | start hs =>
    obtain ⟨now, fd, idleTimeout, latencyMetrics, hfd, rfl⟩ := hs
    exact ⟨fd, hfd, .inl (TcpConnection.establish_settled now fd idleTimeout latencyMetrics)⟩
  | next _ hstep ih =>
    obtain ⟨fd, hfd, hsound⟩ := ih
    exact ⟨fd, hfd, step_sound hfd hsound hstep⟩

theorem reachable_settled {s : Session} (h : Reachable system s) (hopen : 0 ≤ s.connection.fd) :
    ∃ fd, 0 ≤ fd ∧ s.connection.Settled fd := by
  obtain ⟨fd, hfd, hsound⟩ := reachable_sound h
  exact ⟨fd, hfd, hsound.resolve_right fun h => h.open_false hopen⟩

/-- Nothing buffered, unsent or half-closed is left with nothing scheduled. -/
structure WorkScheduled (c : TcpConnection) : Prop where
  exclusive : ¬(c.processingRequest = true ∧ c.responseReady = true)
  ready_iff_output : c.responseReady = true ↔ c.outputBuffer.peek ≠ []
  registered : ∃ events, registration c.fd c.calls = some events ∧
    events.has EPOLLIN = true ∧ (events.has EPOLLOUT = true ↔ c.responseReady = true)
  quiet : c.processingRequest = false → c.responseReady = false →
    find headerEnd c.inputBuffer.peek = none ∧ c.peerClosed = false

theorem open_connection_workScheduled {s : Session} (h : Reachable system s)
    (hopen : 0 ≤ s.connection.fd) : WorkScheduled s.connection := by
  obtain ⟨fd, -, hs⟩ := reachable_settled h hopen
  refine ⟨hs.exclusive, hs.pending, ?_, ?_⟩
  · exact ⟨_, registration_of_settled hs, interest_has_in _, interest_has_out⟩
  · intro hidle hready
    obtain ⟨hcomplete, hpeer⟩ := hs.quiet hidle hready
    exact ⟨by simpa [TcpConnection.hasCompleteRequest] using hcomplete, hpeer⟩

def halfSent : List Action :=
  [.event EPOLLIN [.bytes (ascii "GET / HTTP/1.1\r\n\r\nGET"), .again] [],
   .completion 1 none ⟨ascii "ok", false⟩ [.bytes 1, .again],
   .event EPOLLIN [.bytes (ascii " /x HTTP/1.1\r\n\r\n"), .bytes []] []]

def halfSentState : Session := (run system (established 0 7 40 none) halfSent).get (by decide)

theorem halfSentState_reachable : Reachable system halfSentState :=
  Reachable.run (.start ⟨0, 7, 40, none, by decide, rfl⟩) (Option.some_get _).symm

theorem halfSentState_workScheduled :
    halfSentState.connection.outputBuffer.peek = ascii "k" ∧
      WorkScheduled halfSentState.connection :=
  ⟨by decide, open_connection_workScheduled halfSentState_reachable (by decide)⟩

end Session

end CppSearchServer.Net
