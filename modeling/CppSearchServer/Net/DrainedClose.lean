import CppSearchServer.Net.IdleTimeout
import CppSearchServer.Net.Pipeline

/-! A connection never truncates its own answers.
It closes in seven places. Three of them give up: a `recv` that fails, a `send`
that fails, an error event. At each of the other four, whatever was going on when
the peer closed its side or the timer expired, everything has been sent. -/

namespace CppSearchServer.Net

open Library.TransitionSystem Library.Framing

/-- A failed `recv` or `send`, after which the handler gives the connection up. A
`send` that takes nothing over ends in the same branch. -/
@[simp] def Call.gaveUp : Call → Bool
  | .recv _ _ .fail => true
  | .send _ _ _ .fail => true
  | .send _ _ _ (.bytes 0) => true
  | _ => false

namespace TcpConnection

/-- Nothing unsent, nothing in processing, and no request left that would be
answered. -/
structure Drained (c : TcpConnection) : Prop where
  unsent : c.outputBuffer.peek = []
  idle : c.processingRequest = false
  served : c.closeAfterResponse = true ∨ c.hasCompleteRequest = false

def Exit (seen : Nat) (c : TcpConnection) : Prop :=
  0 ≤ c.fd ∨ (∃ made ∈ c.calls.drop seen, made.gaveUp = true) ∨
    ∃ before : TcpConnection, 0 ≤ before.fd ∧ c = before.close ∧ before.Drained

variable {fd : Int} {c : TcpConnection} {seen : Nat}

theorem Exit.drained (hopen : 0 ≤ c.fd) (h : c.Drained) : Exit seen c.close :=
  .inr (.inr ⟨c, hopen, rfl, h⟩)

theorem Exit.failed {made : Call} (hseen : seen ≤ c.calls.length) (hfailed : made.gaveUp = true) :
    Exit seen (c.call made).close := by
  refine .inr (.inl ⟨made, ?_, hfailed⟩)
  rw [close_eq]
  simp [TcpConnection.call, List.append_assoc, List.drop_append_of_le_length hseen]

theorem le_calls_call (h : seen ≤ c.calls.length) (made : Call) :
    seen ≤ (c.call made).calls.length := by
  simpa [TcpConnection.call] using Nat.le_succ_of_le h

theorem processRequest_exit (hopen : 0 ≤ c.fd) : Exit seen c.processRequest :=
  .inl ((processRequest_fields c).1 ▸ hopen)

theorem afterRead_exit (hfd : 0 ≤ fd) (now : Nat) (d : Bool) (h : Steady fd c) :
    Exit seen (afterRead now d c) := by
  refine afterRead_rule (P := Steady fd) (Q := Exit seen) ?_ ?_ ?_ ?_ d c h
  · exact fun c h => h.markActivity now
  · exact fun c h _ _ _ => processRequest_exit (h.registered.fd_eq ▸ hfd)
  · intro c h hready hidle hcomplete
    refine .drained (h.registered.fd_eq ▸ hfd) ⟨?_, hidle, .inr hcomplete⟩
    by_contra hne
    simp [h.pending.mpr hne] at hready
  · exact fun c h _ => .inl (h.registered.fd_eq ▸ hfd)

theorem readLoop_exit (hfd : 0 ≤ fd) (now : Nat) (answers : List RecvResult) (d : Bool)
    (h : Steady fd c) (hseen : seen ≤ c.calls.length) : Exit seen (readLoop now d c answers) := by
  refine readLoop_rule (P := fun _ c => Steady fd c ∧ seen ≤ c.calls.length) ?_ ?_ ?_ ?_ ?_
    answers d c ⟨h, hseen⟩
  · exact fun _ c b bytes ⟨h, hseen⟩ =>
      ⟨(h.recv now (.bytes (b :: bytes))).congr _ _, le_calls_call hseen _⟩
  · exact fun _ c ⟨h, hseen⟩ => ⟨h.recv now .eintr, le_calls_call hseen _⟩
  · exact fun d c ⟨h, _⟩ => afterRead_exit hfd now d ((h.recv now (.bytes [])).congr _ _)
  · exact fun d c ⟨h, _⟩ => afterRead_exit hfd now d (h.recv now .again)
  · exact fun _ c ⟨_, hseen⟩ => .failed hseen rfl

theorem afterWrite_exit (hfd : 0 ≤ fd) (now : Nat) (d : Bool) (h : Sending fd c)
    (hempty : c.outputBuffer.peek = []) : Exit seen (afterWrite now d c) := by
  have hopen : 0 ≤ c.responseSent.fd := (responseSent_registered h).fd_eq ▸ hfd
  obtain ⟨hidle, -, hout, -⟩ := responseSent_fields h
  refine afterWrite_rule (P := fun c => 0 ≤ c.fd ∧ c.processingRequest = false ∧
      c.outputBuffer.peek = []) (Q := Exit seen) ?_ ?_ ?_ ?_ d c ⟨hopen, hidle, hout ▸ hempty⟩
  · exact fun c ⟨hopen, hidle, hempty⟩ hclose => .drained hopen ⟨hempty, hidle, .inl hclose⟩
  · exact fun c h _ _ _ => processRequest_exit h.1
  · exact fun c ⟨hopen, hidle, hempty⟩ hquiet =>
      .drained hopen ⟨hempty, hidle, .inr (hquiet hidle)⟩
  · exact fun c h _ _ _ => ⟨.inl h.1, .inl h.1⟩

theorem writeLoop_exit (hfd : 0 ≤ fd) (now : Nat) (answers : List SendResult) (d : Bool)
    (h : Sending fd c) (hseen : seen ≤ c.calls.length) : Exit seen (writeLoop now d c answers) := by
  refine writeLoop_rule (P := fun _ c => Sending fd c ∧ seen ≤ c.calls.length) ?_ ?_ ?_ ?_ ?_
    answers d c ⟨h, hseen⟩
  · intro _ c n ⟨h, hseen⟩ _
    refine ⟨tookOver_sending now (n + 1) h, ?_⟩
    simp only [tookOver, activeTimingCall_eq, TcpConnection.call, List.length_append]
    omega
  · exact fun _ c ⟨h, hseen⟩ _ => ⟨h.send now .eintr, le_calls_call hseen _⟩
  · exact fun d c h hempty => afterWrite_exit hfd now d h.1 hempty
  · intro d c ⟨h, _⟩ hne
    have hsettled := blocked_settled now d (h.send now .again) hne
    exact .inl (hsettled.registered.fd_eq ▸ hfd)
  · rintro _ c result ⟨-, hseen⟩ - (rfl | rfl)
    · exact .failed hseen rfl
    · exact .failed hseen rfl

/-- On a connection that the read callback of the same event has closed, `send`
fails. -/
theorem handleWrite_exit (hfd : 0 ≤ fd) (now : Nat) (answers : List SendResult)
    (h : Sound fd c) (hready : c.responseReady = true) (hne : c.outputBuffer.peek ≠ [])
    (hseen : seen ≤ c.calls.length) : Exit seen (c.handleWrite now answers) := by
  rcases h with h | h
  · refine writeLoop_exit hfd now _ false ⟨⟨_, interest_cases c, h.registered⟩, ?_, hready⟩ hseen
    simpa [hready] using h.exclusive
  · have hempty : c.outputBuffer.empty = false := (Buffer.empty_false_iff _).mpr hne
    rw [handleWrite, if_pos h.fd_neg, writeLoop, hempty]
    exact .failed hseen rfl

theorem handleEvent_exit (hfd : 0 ≤ fd) (now : Nat) (revents : EventMask)
    (reads : List RecvResult) (writes : List SendResult) (h : Settled fd c)
    (hwrite : revents.has EPOLLOUT = true → c.responseReady = true)
    (herror : revents.has (EPOLLERR ||| EPOLLHUP) = false) :
    Exit c.calls.length (c.handleEvent now revents reads writes) := by
  refine handleEvent_rule (P := fun c' => (Sound fd c' ∧ Exit c.calls.length c') ∧
      c.calls <+: c'.calls ∧ (c.responseReady = true →
      c'.responseReady = true ∧ c'.outputBuffer = c.outputBuffer)) ?_ ?_ ?_ ?_ fun _ h => h.1.2
  · exact fun hup => by simp [herror] at hup
  · exact ⟨⟨.inl h, .inl (h.registered.fd_eq ▸ hfd)⟩, List.prefix_rfl,
      fun hready => ⟨hready, rfl⟩⟩
  · exact ⟨⟨handleRead_sound hfd now reads h, readLoop_exit hfd now _ false h.toSteady le_rfl⟩,
      (handleRead_timed now reads c).calls_extended, handleRead_ready now reads c⟩
  · intro c' ⟨⟨hsound, _⟩, hextended, hkept⟩ hout
    obtain ⟨hready, houtput⟩ := hkept (hwrite hout)
    exact handleWrite_exit hfd now writes hsound hready
      (houtput ▸ h.pending.mp (hwrite hout)) hextended.length_le

theorem closeIfIdle_exit (now expectedGeneration : Nat) (hopen : 0 ≤ c.fd) :
    Exit c.calls.length (c.closeIfIdle now expectedGeneration) := by
  unfold closeIfIdle
  split_ifs with hclosed hgeneration hbusy
  · exact .inl hopen
  · exact .inl hopen
  · exact .inl hopen
  · obtain ⟨⟨⟨hin, hout⟩, -⟩, hidle⟩ : ((c.inputBuffer.peek = [] ∧ c.outputBuffer.peek = []) ∧
        c.responseReady = false) ∧ c.processingRequest = false := by
      simpa [isIdle] using hbusy
    refine .drained hopen ⟨hout, hidle, .inr ?_⟩
    simp [hasCompleteRequest, hin, find, headerEnd_ne_nil]

theorem finishRequest_exit (hfd : 0 ≤ fd) (now requestId : Nat) (timing : RequestTimingPtr)
    (result : ResponseResult) (answers : List SendResult) (h : Settled fd c) :
    Exit c.calls.length (c.finishRequest now requestId timing result answers) := by
  rcases finishRequest_cases now requestId timing result answers c with
    ⟨heq, -⟩ | ⟨-, -, -, heq⟩
  · exact .inl (by rw [heq, h.registered.fd_eq]; exact hfd)
  · rw [heq]
    refine writeLoop_exit hfd now _ false (answered_sending timing result h) ?_
    simp [answered, metricsCall_eq]

end TcpConnection

namespace Session

open TcpConnection

def Action.hangUp : Action → Bool
  | .event revents _ _ => revents.has (EPOLLERR ||| EPOLLHUP)
  | _ => false

theorem step_exit {s t : Session} {a : Action} (h : Reachable system s)
    (hopen : 0 ≤ s.connection.fd) (hstep : s.step a = some t) (hup : a.hangUp = false) :
    Exit s.connection.calls.length t.connection := by
  obtain ⟨fd, hfd, hsettled⟩ := reachable_settled h hopen
  rcases step_cases hstep with ⟨_, -, rfl⟩ | ⟨revents, reads, writes, rfl, -, hout, rfl⟩ |
    ⟨requestId, timing, result, writes, -, -, -, rfl⟩ | ⟨check, -, -, -, rfl⟩
  · exact .inl hopen
  · exact handleEvent_exit hfd _ _ _ _ hsettled
      (fun hw => responseReady_of_interested hsettled (hout hw)) hup
  · exact finishRequest_exit hfd _ _ _ _ _ hsettled
  · exact closeIfIdle_exit _ _ hopen

theorem Pipeline.of_close {c : TcpConnection} {delivered : List (Nat × ResponseResult)}
    {responses : List ResponseResult} (h : Pipeline c.close delivered responses)
    (hidle : c.processingRequest = false) : Pipeline c delivered responses := by
  obtain ⟨more, ⟨hr, ha, hh, hi⟩, hcalls⟩ :
      ∃ more, Quiet more ∧ c.close.calls = c.calls ++ more := by
    rw [close_eq]
    refine ⟨_, ?_, rfl⟩
    split <;> exact ⟨rfl, rfl, rfl, rfl⟩
  obtain ⟨hin, hout, hproc, hgen, hflag⟩ : c.close.inputBuffer = c.inputBuffer ∧
      c.close.outputBuffer = c.outputBuffer ∧
      c.close.processingRequest = c.processingRequest ∧
      c.close.requestGeneration = c.requestGeneration ∧
      c.close.closeAfterResponse = c.closeAfterResponse := by
    simp [close_eq]
  have hframed : Framed c :=
    ⟨by simpa [hcalls, hr, hh, hin] using h.framed.split,
      by simpa [hcalls, hh] using h.framed.frames,
      by simpa [hcalls, hi, hgen] using h.framed.ids,
      by simpa [hcalls, hh, hgen] using h.framed.count⟩
  refine ⟨hframed, ?_, h.first, ?_, ?_, h.onlyLast, ?_, ?_, by simp [hidle]⟩
  · simpa [hproc, hgen] using h.balance
  · simpa [TcpConnection.outgoing, hcalls, ha, hout] using h.outgoing
  · simpa [hflag] using h.lastFlag
  · simp [hidle]
  · simpa [hgen] using h.known

theorem Pipeline.drained {c : TcpConnection} {delivered : List (Nat × ResponseResult)}
    {responses : List ResponseResult} (h : Pipeline c delivered responses) (hd : c.Drained) :
    accepted c.calls = responses.flatMap ResponseResult.response ∧
      (handed c.calls).length = responses.length := by
  have hout := h.outgoing
  have hbalance := h.balance
  rw [TcpConnection.outgoing, hd.unsent, List.append_nil] at hout
  rw [hd.idle] at hbalance
  exact ⟨hout, h.framed.count.trans hbalance.symm⟩

/-- The connection `c` that a session closed: every request it has taken is
answered and every answer is with the kernel. Unless an answer asked to close,
these are all the complete requests received, in particular all that came before
the peer's end of the stream. -/
structure DrainedClose (t : Session) (c : TcpConnection) : Prop where
  opened : 0 ≤ c.fd
  closed : t.connection = c.close
  unsent : c.outputBuffer.peek = []
  idle : c.processingRequest = false
  sent : accepted c.calls = t.acceptedResponses.flatMap ResponseResult.response
  served : (∃ r, t.acceptedResponses.getLast? = some r ∧ r.closeAfterResponse = true) ∨
    c.hasCompleteRequest = false
  complete : (∀ r ∈ t.acceptedResponses, r.closeAfterResponse = false) →
    t.acceptedResponses.length = (frames headerEnd (received c.calls)).length

theorem close_drained {s t : Session} {a : Action} (h : Reachable system s)
    (hstep : s.step a = some t) (hopen : 0 ≤ s.connection.fd) (hclosed : t.connection.fd < 0)
    (hup : a.hangUp = false)
    (hcalls : ∀ made ∈ t.connection.calls.drop s.connection.calls.length, made.gaveUp = false) :
    ∃ c, DrainedClose t c := by
  rcases step_exit h hopen hstep hup with hstill | ⟨made, hmem, hfailed⟩ |
    ⟨c, hbefore, hclose, hdrained⟩
  · omega
  · exact absurd hfailed (by rw [hcalls made hmem]; decide)
  · obtain ⟨responses, hp⟩ := reachable_pipeline (.next h hstep)
    have heq : t.acceptedResponses = responses := hp.acceptedResponses_eq
    have hp : Pipeline c t.delivered responses := .of_close (hclose ▸ hp) hdrained.idle
    obtain ⟨hsent, hlength⟩ := hp.drained hdrained
    refine ⟨c, hbefore, hclose, hdrained.unsent, hdrained.idle, heq ▸ hsent, ?_, ?_⟩
    · rw [heq, ← hp.lastFlag]
      exact hdrained.served
    · rw [heq]
      intro hnone
      have hcomplete : c.hasCompleteRequest = false := by
        refine hdrained.served.resolve_left fun hc => ?_
        obtain ⟨r, hr, hasks⟩ := hp.lastFlag.mp hc
        simp [hnone r (List.mem_of_getLast? hr)] at hasks
      rw [← hlength, ← hp.framed.split, frames_flatten_append headerEnd_ne_nil _ hp.framed.frames,
        frames_of_find_none (by simpa [hasCompleteRequest] using hcomplete), List.append_nil]

/-- After `halfSentState`: the rest of the first response goes out, the second
request is handed over, and its response is the last thing before the close. -/
def secondHanded : Session :=
  (run system halfSentState [.event EPOLLOUT [] [.bytes 1]]).get (by decide)

def afterHalfClose : Session :=
  (secondHanded.step (.completion 2 none ⟨ascii "no", false⟩ [.bytes 1, .eintr, .bytes 1])).get
    (by decide)

theorem afterHalfClose_drained :
    secondHanded.connection.peerClosed = true ∧
      accepted afterHalfClose.connection.calls = ascii "okno" ∧
      ∃ c, DrainedClose afterHalfClose c :=
  ⟨by decide, by decide, close_drained
    (halfSentState_reachable.run (Option.some_get _).symm)
    (Option.some_get _).symm (by decide) (by decide) (by decide) (by decide)⟩

end Session

end CppSearchServer.Net
