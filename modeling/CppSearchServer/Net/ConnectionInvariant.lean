import CppSearchServer.Net.ConnectionCalls

/-! The invariant of a connection between two handlers.
An open connection is either computing a response, or sending one, or waiting
for input; its registration in epoll follows from which. `Sound` is kept by each
handler the loop can dispatch, and contains the call protocol. -/

namespace CppSearchServer.Net.TcpConnection

open Library.Framing

/-- Open on descriptor `fd`, with `events` both in the channel and in epoll. -/
structure Registered (fd : Int) (events : EventMask) (c : TcpConnection) : Prop where
  fd_eq : c.fd = fd
  channel : c.channel = some ⟨fd, events⟩
  stage : stageAfter fd c.calls = some (.registered events)

structure Closed (fd : Int) (c : TcpConnection) : Prop where
  fd_neg : c.fd < 0
  stage : stageAfter fd c.calls = some .closed

def interest (c : TcpConnection) : EventMask :=
  if c.responseReady then writeInterest else readInterest

/-- What holds all the time outside `handleWrite`, whatever has been read. -/
structure Steady (fd : Int) (c : TcpConnection) : Prop where
  registered : Registered fd c.interest c
  exclusive : ¬(c.processingRequest = true ∧ c.responseReady = true)
  pending : c.responseReady = true ↔ c.outputBuffer.peek ≠ []
  closing : c.closeAfterResponse = true → c.responseReady = true

structure Settled (fd : Int) (c : TcpConnection) : Prop extends Steady fd c where
  quiet : c.processingRequest = false → c.responseReady = false →
    c.hasCompleteRequest = false ∧ c.peerClosed = false

/-- A response is on its way out; the write interest may or may not be set. -/
structure Sending (fd : Int) (c : TcpConnection) : Prop where
  registered : ∃ events, (events = readInterest ∨ events = writeInterest) ∧
    Registered fd events c
  idle : c.processingRequest = false
  ready : c.responseReady = true

def Sound (fd : Int) (c : TcpConnection) : Prop := Settled fd c ∨ Closed fd c

variable {fd : Int} {events : EventMask} {c : TcpConnection}

theorem Registered.call (h : Registered fd events c) {made : Call}
    (legal : (Stage.registered events).next fd made = some (.registered events)) :
    Registered fd events (c.call made) :=
  ⟨h.fd_eq, h.channel, (stageAfter_concat h.stage made).trans legal⟩

theorem Registered.metricsCall (h : Registered fd events c) {made : Call}
    (legal : (Stage.registered events).next fd made = some (.registered events)) :
    Registered fd events (c.metricsCall made) := by
  unfold TcpConnection.metricsCall
  split
  · exact h.call legal
  · exact h

theorem Registered.congr {c' : TcpConnection} (h : Registered fd events c) (hfd : c'.fd = c.fd)
    (hchannel : c'.channel = c.channel) (hcalls : c'.calls = c.calls) :
    Registered fd events c' :=
  ⟨hfd.trans h.fd_eq, hchannel.trans h.channel, hcalls ▸ h.stage⟩

theorem Registered.close (h : Registered fd events c) (hfd : 0 ≤ fd) : Closed fd c.close := by
  have hopen : ¬c.fd < 0 := by rw [h.fd_eq]; omega
  refine ⟨by simp [close_eq, hopen], ?_⟩
  simp only [close_eq, if_neg hopen]
  simp [stageAfter_append, h.stage, Stage.next, h.fd_eq]

theorem Registered.enableWriting (h : Registered fd events c)
    (hevents : events = readInterest ∨ events = writeInterest) :
    Registered fd writeInterest c.enableWriting := by
  rw [enableWriting_eq c h.channel, enableWriting_events (by simpa using hevents)]
  exact ⟨h.fd_eq, rfl, by simp [stageAfter_append, h.stage, Stage.next]⟩

theorem Registered.disableWriting (h : Registered fd events c)
    (hevents : events = readInterest ∨ events = writeInterest) :
    Registered fd readInterest c.disableWriting := by
  rw [disableWriting_eq c h.channel, disableWriting_events (by simpa using hevents)]
  exact ⟨h.fd_eq, rfl, by simp [stageAfter_append, h.stage, Stage.next]⟩

theorem interest_cases (c : TcpConnection) :
    c.interest = readInterest ∨ c.interest = writeInterest := by
  unfold interest
  split <;> simp

theorem Closed.open_false (h : Closed fd c) : ¬0 ≤ c.fd := by
  have := h.fd_neg
  omega

theorem Closed.call (h : Closed fd c) {made : Call}
    (legal : Stage.closed.next fd made = some .closed) : Closed fd (c.call made) :=
  ⟨h.fd_neg, (stageAfter_concat h.stage made).trans legal⟩

theorem processRequest_fields (c : TcpConnection) :
    c.processRequest.fd = c.fd ∧ c.processRequest.channel = c.channel ∧
      c.processRequest.outputBuffer = c.outputBuffer ∧
      c.processRequest.responseReady = c.responseReady ∧
      c.processRequest.closeAfterResponse = c.closeAfterResponse ∧
      c.processRequest.peerClosed = c.peerClosed ∧
      c.processRequest.processingRequest = true ∧
      c.processRequest.requestGeneration = c.requestGeneration + 1 ∧
      c.processRequest.lastActivityAt = c.lastActivityAt ∧
      c.processRequest.idleGeneration = c.idleGeneration ∧
      c.processRequest.idleTimeout = c.idleTimeout := by
  simp [processRequest, metricsCall_eq, TcpConnection.call]

theorem Registered.processRequest (h : Registered fd events c) :
    Registered fd events c.processRequest := by
  unfold TcpConnection.processRequest
  refine Registered.call (Registered.metricsCall ?_ rfl) rfl
  refine Registered.metricsCall ?_ rfl
  exact h.congr rfl rfl rfl

theorem processRequest_settled (h : Steady fd c) (hready : c.responseReady = false) :
    Settled fd c.processRequest := by
  obtain ⟨-, -, hout, hrdy, hcls, -, hproc, -⟩ := processRequest_fields c
  have hinterest : c.processRequest.interest = c.interest := by simp [interest, hrdy]
  refine ⟨⟨hinterest ▸ h.registered.processRequest, ?_, ?_, ?_⟩, ?_⟩
  · simp [hrdy, hready]
  · rw [hrdy, hout]; exact h.pending
  · rw [hrdy, hcls]; exact h.closing
  · simp [hproc]

theorem Steady.markActivity (h : Steady fd c) (now : Nat) : Steady fd (c.markActivity now) :=
  ⟨h.registered.congr rfl rfl rfl, h.exclusive, h.pending, h.closing⟩

theorem afterRead_sound (hfd : 0 ≤ fd) (now : Nat) (d : Bool) (h : Steady fd c) :
    Sound fd (afterRead now d c) := by
  refine afterRead_rule (P := Steady fd) ?_ ?_ ?_ ?_ d c h
  · exact fun c h => h.markActivity now
  · exact fun c h hready _ _ => .inl (processRequest_settled h hready)
  · exact fun c h _ _ _ => .inr (h.registered.close hfd)
  · exact fun c h hquiet => .inl ⟨h, hquiet⟩

theorem Steady.call (h : Steady fd c) {made : Call}
    (legal : ∀ events, (Stage.registered events).next fd made = some (.registered events)) :
    Steady fd (c.call made) :=
  ⟨h.registered.call (legal _), h.exclusive, h.pending, h.closing⟩

theorem Steady.recv (h : Steady fd c) (now : Nat) (result : RecvResult) :
    Steady fd (c.call (.recv now c.fd result)) :=
  h.call fun events => by simp [Stage.next, h.registered.fd_eq]

theorem Steady.congr (h : Steady fd c) (input : Buffer) (gone : Bool) :
    Steady fd { c with inputBuffer := input, peerClosed := gone } :=
  ⟨h.registered.congr rfl rfl rfl, h.exclusive, h.pending, h.closing⟩

theorem readLoop_sound (hfd : 0 ≤ fd) (now : Nat) (answers : List RecvResult) (d : Bool)
    (h : Steady fd c) : Sound fd (readLoop now d c answers) := by
  refine readLoop_rule (P := fun _ c => Steady fd c) ?_ ?_ ?_ ?_ ?_ answers d c h
  · exact fun _ c b bytes h => (h.recv now (.bytes (b :: bytes))).congr _ _
  · exact fun _ c h => h.recv now .eintr
  · exact fun d c h => afterRead_sound hfd now d ((h.recv now (.bytes [])).congr _ _)
  · exact fun d c h => afterRead_sound hfd now d (h.recv now .again)
  · exact fun _ c h => .inr ((h.recv now .fail).registered.close hfd)

theorem handleRead_sound (hfd : 0 ≤ fd) (now : Nat) (answers : List RecvResult)
    (h : Settled fd c) : Sound fd (c.handleRead now answers) :=
  readLoop_sound hfd now _ false h.toSteady

theorem Registered.activeTimingCall (h : Registered fd events c)
    {made : RequestTimingPtr → Call} (legal : ∀ timing,
      (Stage.registered events).next fd (made timing) = some (.registered events)) :
    Registered fd events (c.activeTimingCall made) := by
  unfold TcpConnection.activeTimingCall
  split
  · exact h.call (legal _)
  · exact h

theorem responseSent_registered (h : Sending fd c) : Registered fd readInterest c.responseSent := by
  obtain ⟨events, hevents, hreg⟩ := h.registered
  exact ((hreg.disableWriting hevents).activeTimingCall fun _ => rfl).congr rfl rfl rfl

theorem responseSent_fields (h : Sending fd c) :
    c.responseSent.processingRequest = false ∧ c.responseSent.responseReady = false ∧
      c.responseSent.outputBuffer = c.outputBuffer ∧
      c.responseSent.closeAfterResponse = c.closeAfterResponse := by
  obtain ⟨_, _, hreg⟩ := h.registered
  simp [responseSent, activeTimingCall_eq, disableWriting_eq c hreg.channel, h.idle]

theorem responseSent_steady (h : Sending fd c) (hempty : c.outputBuffer.peek = [])
    (hclose : c.responseSent.closeAfterResponse = false) : Steady fd c.responseSent := by
  obtain ⟨-, hready, hout, -⟩ := responseSent_fields h
  refine ⟨?_, by simp [hready], by simp [hready, hout, hempty], by simp [hclose]⟩
  simpa [interest, hready] using responseSent_registered h

theorem afterWrite_sound (hfd : 0 ≤ fd) (now : Nat) (d : Bool) (h : Sending fd c)
    (hempty : c.outputBuffer.peek = []) : Sound fd (afterWrite now d c) := by
  have hreg := responseSent_registered h
  have hsteady := responseSent_steady h hempty
  obtain ⟨hidle, hready, -⟩ := responseSent_fields h
  refine afterWrite_rule (P := fun c => Registered fd readInterest c ∧
      (c.closeAfterResponse = false → Steady fd c) ∧
      c.processingRequest = false ∧ c.responseReady = false)
    ?_ ?_ ?_ ?_ d c ⟨hreg, hsteady, hidle, hready⟩
  · exact fun c h _ => .inr (h.1.close hfd)
  · exact fun c ⟨_, hsteady, _, hready⟩ hclose _ _ =>
      .inl (processRequest_settled (hsteady hclose) hready)
  · exact fun c h _ => .inr (h.1.close hfd)
  · intro c ⟨_, hsteady, hidle, _⟩ hclose hquiet hpeer
    have hsteady := hsteady hclose
    exact ⟨.inl ⟨hsteady, fun _ _ => ⟨hquiet hidle, hpeer⟩⟩,
      .inl ⟨hsteady.markActivity now, fun _ _ => ⟨hquiet hidle, hpeer⟩⟩⟩

theorem Sending.call (h : Sending fd c) {made : Call}
    (legal : ∀ events, (Stage.registered events).next fd made = some (.registered events)) :
    Sending fd (c.call made) := by
  obtain ⟨events, hevents, hreg⟩ := h.registered
  exact ⟨⟨events, hevents, hreg.call (legal _)⟩, h.idle, h.ready⟩

theorem Sending.fd_eq (h : Sending fd c) : c.fd = fd := by
  obtain ⟨_, _, hreg⟩ := h.registered
  exact hreg.fd_eq

theorem tookOver_sending (now n : Nat) (h : Sending fd c) : Sending fd (tookOver now n c) := by
  have hsent : Sending fd (c.call (.send now c.fd c.outputBuffer.peek (.bytes n))) :=
    h.call fun events => by simp [Stage.next, h.fd_eq]
  obtain ⟨events, hevents, hreg⟩ := hsent.registered
  have hreg : Registered fd events ((c.call (.send now c.fd c.outputBuffer.peek
      (.bytes n))).activeTimingCall .markWriteStarted) := hreg.activeTimingCall fun _ => rfl
  refine ⟨⟨events, hevents, hreg.congr rfl rfl rfl⟩, ?_, ?_⟩
  · simpa [tookOver, activeTimingCall_eq] using hsent.idle
  · simpa [tookOver, activeTimingCall_eq] using hsent.ready

theorem blocked_settled (now : Nat) (d : Bool) (h : Sending fd c)
    (hne : c.outputBuffer.peek ≠ []) :
    Settled fd (if d then c.markActivity now else c).enableWriting := by
  obtain ⟨events, hevents, hreg⟩ := h.registered
  have hreg : Registered fd events (if d then c.markActivity now else c) := by
    split
    · exact hreg.congr rfl rfl rfl
    · exact hreg
  have hfields : (if d then c.markActivity now else c).processingRequest = false ∧
      (if d then c.markActivity now else c).responseReady = true ∧
      (if d then c.markActivity now else c).outputBuffer.peek ≠ [] := by
    split <;> exact ⟨h.idle, h.ready, hne⟩
  generalize (if d then c.markActivity now else c) = c at hreg hfields
  obtain ⟨hidle, hready, hne⟩ := hfields
  have henabled := hreg.enableWriting hevents
  rw [enableWriting_eq c hreg.channel] at henabled ⊢
  refine ⟨⟨?_, ?_, ?_, ?_⟩, ?_⟩
  · simpa [interest, hready] using henabled
  · simp [hidle]
  · simp [hready, hne]
  · simp [hready]
  · simp [hready]

theorem Sending.send (h : Sending fd c) (now : Nat) (result : SendResult) :
    Sending fd (c.call (.send now c.fd c.outputBuffer.peek result)) :=
  h.call fun events => by simp [Stage.next, h.fd_eq]

theorem writeLoop_sound (hfd : 0 ≤ fd) (now : Nat) (answers : List SendResult) (d : Bool)
    (h : Sending fd c) : Sound fd (writeLoop now d c answers) := by
  refine writeLoop_rule (P := fun _ c => Sending fd c) ?_ ?_ ?_ ?_ ?_ answers d c h
  · exact fun _ c n h _ => tookOver_sending now (n + 1) h
  · exact fun _ c h _ => h.send now .eintr
  · exact fun d c h hempty => afterWrite_sound hfd now d h hempty
  · exact fun d c h hne => .inl (blocked_settled now d (h.send now .again) hne)
  · intro _ c result h _ _
    obtain ⟨_, _, hreg⟩ := (h.send now result).registered
    exact .inr (hreg.close hfd)

/-- A write event only reaches a connection with unsent output, also where the
read callback of the same event has just closed it. -/
theorem handleWrite_sound (hfd : 0 ≤ fd) (now : Nat) (answers : List SendResult)
    (h : Sound fd c) (hready : c.responseReady = true) (hne : c.outputBuffer.peek ≠ []) :
    Sound fd (c.handleWrite now answers) := by
  rcases h with h | h
  · refine writeLoop_sound hfd now _ false ⟨⟨_, interest_cases c, h.registered⟩, ?_, hready⟩
    simpa [hready] using h.exclusive
  · have hclosed : Closed fd (c.call (.send now c.fd c.outputBuffer.peek .fail)) :=
      h.call (by simp [Stage.next, h.fd_neg])
    have hempty : c.outputBuffer.empty = false := (Buffer.empty_false_iff _).mpr hne
    rw [handleWrite, if_pos h.fd_neg, writeLoop, hempty]
    simp only [Bool.false_eq_true, if_false]
    rw [close_of_closed _ hclosed.fd_neg]
    exact .inr hclosed

theorem afterRead_ready (now : Nat) (d : Bool) (c : TcpConnection)
    (hready : c.responseReady = true) :
    (afterRead now d c).responseReady = true ∧
      (afterRead now d c).outputBuffer = c.outputBuffer := by
  unfold afterRead
  cases d <;> simp [markActivity, hready]

theorem handleRead_ready (now : Nat) (answers : List RecvResult) (c : TcpConnection)
    (hready : c.responseReady = true) :
    (c.handleRead now answers).responseReady = true ∧
      (c.handleRead now answers).outputBuffer = c.outputBuffer := by
  refine readLoop_rule
    (P := fun _ c' => c'.responseReady = true ∧ c'.outputBuffer = c.outputBuffer)
    (Q := fun c' => c'.responseReady = true ∧ c'.outputBuffer = c.outputBuffer)
    ?_ ?_ ?_ ?_ ?_ _ false c ⟨hready, rfl⟩
  · exact fun _ _ _ _ h => h
  · exact fun _ _ h => h
  · intro d c' h
    have := afterRead_ready now d
      { c'.call (.recv now c'.fd (.bytes [])) with peerClosed := true } h.1
    exact ⟨this.1, this.2.trans h.2⟩
  · intro d c' h
    have := afterRead_ready now d (c'.call (.recv now c'.fd .again)) h.1
    exact ⟨this.1, this.2.trans h.2⟩
  · intro _ c' h
    simpa [close_eq, TcpConnection.call] using h

theorem handleEvent_sound (hfd : 0 ≤ fd) (now : Nat) (revents : EventMask)
    (reads : List RecvResult) (writes : List SendResult) (h : Settled fd c)
    (hwrite : revents.has EPOLLOUT = true → c.responseReady = true) :
    Sound fd (c.handleEvent now revents reads writes) := by
  refine handleEvent_rule (P := fun c' => Sound fd c' ∧ (c.responseReady = true →
      c'.responseReady = true ∧ c'.outputBuffer = c.outputBuffer)) ?_ ?_ ?_ ?_ fun _ h => h.1
  · exact fun _ => .inr (h.registered.close hfd)
  · exact ⟨.inl h, fun hready => ⟨hready, rfl⟩⟩
  · exact ⟨handleRead_sound hfd now reads h, handleRead_ready now reads c⟩
  · intro c' ⟨hsound, hkept⟩ hout
    obtain ⟨hready, houtput⟩ := hkept (hwrite hout)
    exact handleWrite_sound hfd now writes hsound hready
      (houtput ▸ h.pending.mp (hwrite hout))

theorem scheduleIdleCheck_settled (expiresAt : Nat) (h : Settled fd c) :
    Settled fd (c.scheduleIdleCheck expiresAt) :=
  ⟨h.toSteady.call fun _ => rfl, h.quiet⟩

theorem closeIfIdle_sound (hfd : 0 ≤ fd) (now expectedGeneration : Nat) (h : Sound fd c) :
    Sound fd (c.closeIfIdle now expectedGeneration) := by
  unfold closeIfIdle
  split_ifs with hclosed
  · exact h
  all_goals have h := h.resolve_right fun h => hclosed h.fd_neg
  · exact .inl (scheduleIdleCheck_settled _ h)
  · exact .inl (scheduleIdleCheck_settled _ h)
  · exact .inr (h.registered.close hfd)

def answered (timing : RequestTimingPtr) (result : ResponseResult) (c : TcpConnection) :
    TcpConnection :=
  { c.metricsCall (.markReturnedToIo timing) with
    processingRequest := false
    activeRequestTiming := timing
    outputBuffer := c.outputBuffer.append result.response
    closeAfterResponse := result.closeAfterResponse
    responseReady := true }

theorem finishRequest_cases (now requestId : Nat) (timing : RequestTimingPtr)
    (result : ResponseResult) (answers : List SendResult) (c : TcpConnection) :
    (c.finishRequest now requestId timing result answers = c ∧
      (0 ≤ c.fd → c.processingRequest = true → requestId ≠ c.requestGeneration)) ∨
    (0 ≤ c.fd ∧ c.processingRequest = true ∧ requestId = c.requestGeneration ∧
      c.finishRequest now requestId timing result answers =
        (c.answered timing result).handleWrite now answers) := by
  unfold finishRequest
  split_ifs with hclosed hidle hother
  · exact .inl ⟨rfl, fun hopen => absurd hclosed (by omega)⟩
  · exact .inl ⟨rfl, fun _ hp => by simp [hp] at hidle⟩
  · exact .inl ⟨rfl, fun _ _ => hother⟩
  · refine .inr ⟨by omega, by simpa using hidle, by simpa using hother, ?_⟩
    simp [answered, metricsCall_eq]

theorem answered_sending (timing : RequestTimingPtr) (result : ResponseResult)
    (h : Settled fd c) : Sending fd (c.answered timing result) := by
  have hreg : Registered fd c.interest (c.metricsCall (.markReturnedToIo timing)) :=
    h.registered.metricsCall rfl
  exact ⟨⟨_, interest_cases c, hreg.congr rfl rfl rfl⟩, rfl, rfl⟩

theorem finishRequest_sound (hfd : 0 ≤ fd) (now requestId : Nat) (timing : RequestTimingPtr)
    (result : ResponseResult) (answers : List SendResult) (h : Sound fd c) :
    Sound fd (c.finishRequest now requestId timing result answers) := by
  rcases finishRequest_cases now requestId timing result answers c with
    ⟨heq, -⟩ | ⟨hopen, -, -, heq⟩
  · rwa [heq]
  · rw [heq]
    have h := h.resolve_right fun h => h.open_false hopen
    exact writeLoop_sound hfd now _ false (answered_sending timing result h)

theorem establish_settled (now : Nat) (fd : Int) (idleTimeout : Nat)
    (latencyMetrics : Option Bool) :
    Settled fd ((new fd idleTimeout latencyMetrics).establish now (.new fd)) := by
  refine ⟨⟨⟨rfl, ?_, ?_⟩, ?_, ?_, ?_⟩, fun _ _ => ⟨?_, rfl⟩⟩
  · simp [establish, new, Channel.new, Channel.enableReading, markActivity, scheduleIdleCheck,
      TcpConnection.call, interest, readInterest]
  · simp [establish, new, Channel.new, Channel.enableReading, markActivity, scheduleIdleCheck,
      TcpConnection.call, stageAfter, Stage.next, interest, readInterest]
  · simp [establish, new, markActivity, scheduleIdleCheck, TcpConnection.call]
  · simp [establish, new, markActivity, scheduleIdleCheck, TcpConnection.call, Buffer.peek]
  · simp [establish, new, markActivity, scheduleIdleCheck, TcpConnection.call]
  · simp [establish, new, markActivity, scheduleIdleCheck, TcpConnection.call, Buffer.peek,
      hasCompleteRequest, find, headerEnd_ne_nil]

theorem Sound.stage (h : Sound fd c) :
    (stageAfter fd c.calls).isSome := by
  rcases h with h | h
  · simp [h.registered.stage]
  · simp [h.stage]

end CppSearchServer.Net.TcpConnection
