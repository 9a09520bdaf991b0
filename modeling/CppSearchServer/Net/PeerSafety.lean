import CppSearchServer.Net.FdReuse

/-! What a peer can do to the server.
A call that fails closes its connection, and nothing else. The code closes the
connection after a failed `send` too, but a `send` to a peer that is gone never
returns: SIGPIPE ends the process. As long as no such `send` is made the server
keeps running. -/

namespace CppSearchServer.Net

open Library.TransitionSystem

/-- -1 with an `errno` other than EINTR, EAGAIN and EWOULDBLOCK. -/
def Call.failed : Call → Bool
  | .recv _ _ .fail => true
  | .send _ _ _ .fail => true
  | _ => false

namespace TcpConnection

def FailsClosed (c : TcpConnection) : Prop := c.fd < 0 ∨ ∀ made ∈ c.calls, made.failed = false

variable {c : TcpConnection}

theorem FailsClosed.of_calls {c' : TcpConnection} (h : FailsClosed c) (more : List Call)
    (hfd : c'.fd = c.fd) (hcalls : c'.calls = c.calls ++ more)
    (hmore : ∀ made ∈ more, made.failed = false) : FailsClosed c' := by
  rw [FailsClosed, hfd, hcalls]
  refine h.imp_right fun hold made hmem => ?_
  exact (List.mem_append.mp hmem).elim (hold made) (hmore made)

theorem FailsClosed.call (h : FailsClosed c) (made : Call) (hmade : made.failed = false) :
    FailsClosed (c.call made) :=
  h.of_calls [made] rfl rfl (by simpa using hmade)

theorem FailsClosed.congr {c' : TcpConnection} (h : FailsClosed c) (hfd : c'.fd = c.fd)
    (hcalls : c'.calls = c.calls) : FailsClosed c' :=
  h.of_calls [] hfd (by simpa using hcalls) (by simp)

theorem close_failsClosed (c : TcpConnection) : FailsClosed c.close :=
  .inl (Int.not_le.mp (close_not_open c))

theorem FailsClosed.markActivity (h : FailsClosed c) (now : Nat) :
    FailsClosed (c.markActivity now) :=
  h.congr rfl rfl

theorem FailsClosed.metricsCall (h : FailsClosed c) (made : Call) (hmade : made.failed = false) :
    FailsClosed (c.metricsCall made) := by
  unfold TcpConnection.metricsCall
  split
  · exact h.call made hmade
  · exact h

theorem FailsClosed.activeTimingCall (h : FailsClosed c) (made : RequestTimingPtr → Call)
    (hmade : ∀ timing, (made timing).failed = false) : FailsClosed (c.activeTimingCall made) := by
  unfold TcpConnection.activeTimingCall
  split
  · exact h.call _ (hmade _)
  · exact h

theorem FailsClosed.enableWriting (h : FailsClosed c) : FailsClosed c.enableWriting := by
  unfold TcpConnection.enableWriting
  split
  · exact h
  · exact h.of_calls [_] rfl rfl (by simp [Call.failed])

theorem FailsClosed.responseSent (h : FailsClosed c) : FailsClosed c.responseSent := by
  have hdisabled : FailsClosed c.disableWriting := by
    unfold TcpConnection.disableWriting
    split
    · exact h
    · exact h.of_calls [_] rfl rfl (by simp [Call.failed])
  exact (hdisabled.activeTimingCall .complete fun _ => rfl).congr rfl rfl

theorem FailsClosed.processRequest (h : FailsClosed c) : FailsClosed c.processRequest := by
  unfold TcpConnection.processRequest
  simp only [metricsCall_eq, TcpConnection.call, List.append_assoc]
  refine h.of_calls _ rfl rfl ?_
  split <;> simp [Call.failed]

theorem FailsClosed.afterRead (h : FailsClosed c) (now : Nat) (d : Bool) :
    FailsClosed (afterRead now d c) := by
  refine afterRead_rule (P := FailsClosed) ?_ ?_ ?_ ?_ d c h
  · exact fun c h => h.markActivity now
  · exact fun c h _ _ _ => h.processRequest
  · exact fun c _ _ _ _ => close_failsClosed c
  · exact fun c h _ => h

theorem FailsClosed.handleRead (h : FailsClosed c) (now : Nat) (answers : List RecvResult) :
    FailsClosed (c.handleRead now answers) := by
  refine readLoop_rule (P := fun _ c => FailsClosed c) ?_ ?_ ?_ ?_ ?_ _ false c h
  · exact fun _ c _ _ h => (h.call (.recv now c.fd _) rfl).congr rfl rfl
  · exact fun _ c h => h.call (.recv now c.fd .eintr) rfl
  · intro d c h
    have heof : FailsClosed { c.call (.recv now c.fd (.bytes [])) with peerClosed := true } :=
      (h.call (.recv now c.fd (.bytes [])) rfl).congr rfl rfl
    exact heof.afterRead now d
  · exact fun d c h => (h.call (.recv now c.fd .again) rfl).afterRead now d
  · exact fun _ _ _ => close_failsClosed _

theorem FailsClosed.afterWrite (h : FailsClosed c) (now : Nat) (d : Bool) :
    FailsClosed (afterWrite now d c) := by
  refine afterWrite_rule (P := FailsClosed) ?_ ?_ ?_ ?_ d c h.responseSent
  · exact fun c _ _ => close_failsClosed c
  · exact fun c h _ _ _ => h.processRequest
  · exact fun c _ _ => close_failsClosed c
  · exact fun c h _ _ _ => ⟨h, h.markActivity now⟩

theorem FailsClosed.handleWrite (h : FailsClosed c) (now : Nat) (answers : List SendResult) :
    FailsClosed (c.handleWrite now answers) := by
  refine writeLoop_rule (P := fun _ c => FailsClosed c) ?_ ?_ ?_ ?_ ?_ _ false c h
  · exact fun _ c n h _ =>
      ((h.call (.send now c.fd c.outputBuffer.peek (.bytes (n + 1))) rfl).activeTimingCall
        .markWriteStarted fun _ => rfl).congr rfl rfl
  · exact fun _ c h _ => h.call (.send now c.fd c.outputBuffer.peek .eintr) rfl
  · exact fun d _ h _ => h.afterWrite now d
  · intro d c h _
    have hagain := h.call (.send now c.fd c.outputBuffer.peek .again) rfl
    dsimp only
    split
    · exact (hagain.markActivity now).enableWriting
    · exact hagain.enableWriting
  · exact fun _ _ _ _ _ _ => close_failsClosed _

theorem FailsClosed.handleEvent (h : FailsClosed c) (now : Nat) (revents : EventMask)
    (reads : List RecvResult) (writes : List SendResult) :
    FailsClosed (c.handleEvent now revents reads writes) := by
  refine handleEvent_rule (P := FailsClosed) ?_ ?_ ?_ ?_ fun _ h => h
  · exact fun _ => close_failsClosed c
  · exact h
  · exact h.handleRead now reads
  · exact fun c' h _ => h.handleWrite now writes

theorem FailsClosed.finishRequest (h : FailsClosed c) (now requestId : Nat)
    (timing : RequestTimingPtr) (result : ResponseResult) (answers : List SendResult) :
    FailsClosed (c.finishRequest now requestId timing result answers) := by
  rcases finishRequest_cases now requestId timing result answers c with ⟨heq, -⟩ | ⟨-, -, -, heq⟩
  · rwa [heq]
  · rw [heq]
    have hanswered : FailsClosed (c.answered timing result) :=
      (h.metricsCall (.markReturnedToIo timing) rfl).congr rfl rfl
    exact hanswered.handleWrite now answers

theorem FailsClosed.closeIfIdle (h : FailsClosed c) (now expectedGeneration : Nat) :
    FailsClosed (c.closeIfIdle now expectedGeneration) := by
  unfold TcpConnection.closeIfIdle
  split_ifs
  · exact h
  · exact h.call (.runAt _ c.idleGeneration) rfl
  · exact h.call (.runAt _ c.idleGeneration) rfl
  · exact close_failsClosed c

theorem establish_failsClosed (now : Nat) (fd : Int) (idleTimeout : Nat)
    (latencyMetrics : Option Bool) :
    FailsClosed ((new fd idleTimeout latencyMetrics).establish now (.new fd)) := by
  refine .inr fun made hmem => ?_
  simp only [establish, scheduleIdleCheck, markActivity, TcpConnection.call, new, List.nil_append,
    List.cons_append, List.mem_cons, List.not_mem_nil, or_false] at hmem
  rcases hmem with rfl | rfl <;> rfl

end TcpConnection

namespace Server

variable {settings : Settings} {s t : Server} {id : Nat}

inductive Handled (settings : Settings) (before : Option TcpConnection) : TcpConnection → Prop where
  | kept {c : TcpConnection} : before = some c → Handled settings before c
  | event {c : TcpConnection} (now : Nat) (revents : EventMask) (reads : List RecvResult)
      (writes : List SendResult) :
      before = some c → Handled settings before (c.handleEvent now revents reads writes)
  | response {c : TcpConnection} (now requestId : Nat) (timing : RequestTimingPtr)
      (result : ResponseResult) (writes : List SendResult) :
      before = some c → Handled settings before (c.finishRequest now requestId timing result writes)
  | timer {c : TcpConnection} (now expectedGeneration : Nat) :
      before = some c → Handled settings before (c.closeIfIdle now expectedGeneration)
  | established (now : Nat) (fd : Int) : Handled settings before
      ((TcpConnection.new fd settings.idleTimeout settings.latencyMetrics).establish now (.new fd))

theorem enter_handled {c c' c'' : TcpConnection} {other : Nat}
    (hc : (s.enter other c c').connections id = some c'')
    (hhandled : Handled settings (s.connections other) c') :
    Handled settings (s.connections id) c'' := by
  by_cases hid : id = other
  · subst hid
    obtain rfl : c' = c'' := by simpa [enter] using hc
    exact hhandled
  · exact .kept (by simpa [enter, hid] using hc)

theorem runHandler_handled {handler : TcpConnection → TcpConnection} {other : Nat}
    {c' : TcpConnection} (hc : (s.runHandler other handler).connections id = some c')
    (hhandler : ∀ c, s.connections other = some c →
      Handled settings (s.connections other) (handler c)) :
    Handled settings (s.connections id) c' := by
  unfold runHandler at hc
  split at hc
  · exact .kept hc
  · rename_i c hfound
    exact enter_handled hc (hhandler c hfound)

theorem loopStep_handled {a : Action} {c' : TcpConnection} (hmove : LoopMove settings s a t)
    (hc : t.connections id = some c') : Handled settings (s.connections id) c' := by
  cases hmove with
  | wait | drop | swap | endBatch | endTasks | endTimers => exact .kept hc
  | deliver =>
    have hhandled : Handled settings _ c' :=
      runHandler_handled hc fun _ hc => .event _ _ _ _ hc
    exact hhandled
  | establish =>
    have hhandled : Handled settings _ c' := enter_handled hc (.established ..)
    exact hhandled
  | finishRequest =>
    have hhandled : Handled settings _ c' :=
      runHandler_handled hc fun _ hc => .response _ _ _ _ _ hc
    exact hhandled
  | runTimer =>
    have hhandled : Handled settings _ c' := runHandler_handled hc fun _ hc => .timer _ _ hc
    exact hhandled

theorem Handled.failsClosed {before : Option TcpConnection} {c : TcpConnection}
    (h : Handled settings before c) (hbefore : ∀ c, before = some c → c.FailsClosed) :
    c.FailsClosed := by
  cases h with
  | kept hc => exact hbefore _ hc
  | event now revents reads writes hc => exact (hbefore _ hc).handleEvent ..
  | response now requestId timing result writes hc => exact (hbefore _ hc).finishRequest ..
  | timer now expectedGeneration hc => exact (hbefore _ hc).closeIfIdle ..
  | established now fd => exact TcpConnection.establish_failsClosed ..

theorem reachable_failsClosed (h : Reachable (system settings) s) :
    ∀ id c, s.connections id = some c → c.FailsClosed := by
  refine h.invariant (P := fun s => ∀ id c, s.connections id = some c → c.FailsClosed) ?_
    fun s a t hreach ih ht => ?_
  · rintro _ ⟨now, peers, files, rfl⟩ id c hc
    cases hc
  · have hs := reachable_sound hreach
    intro id c hc
    obtain ⟨-, ⟨-, ht⟩ | ⟨-, ht⟩ | ht⟩ := step_cases ht
    · obtain ⟨_, _, _, _, _, _, hstep⟩ := execute_callStep hs ht
      exact ih id c (congrFun hstep.frame.connections id ▸ hc)
    · exact (loopStep_handled ht hc).failsClosed (ih id)
    · exact ih id c ((outsideStep_frame ht).connections ▸ hc)

/-- Whether the step sends, if at all, to a peer that has neither closed nor reset the
connection. -/
def sendsToLivePeer (s : Server) : Action → Bool
  | .execute =>
    match s.todo with
    | .send _ fd _ _ :: _ => !s.raisesSigpipe fd
    | _ => true
  | _ => true

/-- The process runs; a failed call has closed its connection, whose descriptor is
closed as soon as the handler is through; and no step done for one connection reaches
another, its registration or its descriptor. -/
structure PeerSafe (settings : Settings) (s : Server) : Prop where
  running : s.process = .running
  failed : ∀ id c made, s.connections id = some c → made ∈ c.calls → made.failed = true →
    c.fd < 0 ∧ (s.remaining id = [] → ∀ fd, s.opened fd ≠ some (.connection id))
  confined : ∀ a t id, s.step settings a = some t → s.actsFor a = some id → Confined id s t

theorem failed_closes (hs : Sound settings s) {c : TcpConnection} (hc : s.connections id = some c)
    (hfails : c.FailsClosed) {made : Call} (hmem : made ∈ c.calls) (hmade : made.failed = true) :
    c.fd < 0 ∧ (s.remaining id = [] → ∀ fd, s.opened fd ≠ some (.connection id)) := by
  have hneg : c.fd < 0 := hfails.resolve_right fun hnone => by simp [hnone made hmem] at hmade
  refine ⟨hneg, fun hremaining fd hopened => ?_⟩
  obtain ⟨fd', hest⟩ := hs.tables.established id c hc
  obtain rfl := hs.ownership.unique hopened hest.accepted
  have hclosed := hest.sound.resolve_left fun hsettled => by
    have hfd := hs.ownership.nonneg fd (List.mem_of_getElem? hest.accepted)
    rw [hsettled.registered.fd_eq] at hneg
    omega
  refine hest.opened.mp hopened ?_
  rw [← hclosed.stage, hest.calls, hremaining, List.append_nil]

/-- Only a `send` to a peer that is gone ends the process. -/
theorem step_process (hs : Sound settings s) {a : Action} (ht : s.step settings a = some t)
    (hallowed : s.sendsToLivePeer a = true) : t.process = .running := by
  obtain ⟨hrunning, ⟨rfl, ht'⟩ | ⟨-, ht'⟩ | ht'⟩ := step_cases ht
  · obtain ⟨made, todo, _, _, _, _, hstep⟩ := execute_callStep hs ht'
    rcases hstep.effect.process with heq | ⟨-, time, used, output, result, rfl, hsigpipe⟩
    · exact heq.trans hrunning
    · simp [sendsToLivePeer, hstep.todo_eq, hsigpipe] at hallowed
  · exact (loopStep_frame hs ht').process.trans hrunning
  · exact (outsideStep_frame ht').process.trans hrunning

theorem livePeers_peerSafe (h : Reachable (restrict (system settings) sendsToLivePeer) s) :
    PeerSafe settings s where
  running := by
    refine h.invariant (P := fun s => s.process = .running) ?_ fun s a t hreach _ ht => ?_
    · rintro _ ⟨now, peers, files, rfl⟩
      rfl
    · obtain ⟨hallowed, ht⟩ := restrict_step.mp ht
      exact step_process (reachable_sound hreach.of_restrict) ht hallowed
  failed id c _ hc := failed_closes (reachable_sound h.of_restrict) hc
    (reachable_failsClosed h.of_restrict id c hc)
  confined _ _ _ ht := step_confined (reachable_sound h.of_restrict) ht

def twoClients : List Action :=
  [.accept 5, .queueEstablish, .accept 6, .queueEstablish, .wait [(3, EPOLLIN)],
   .dispatch [] [] true, .runTask [], .execute, .execute, .runTask [], .execute, .execute,
   .endTasks, .endBatch, .endTimers, .peer 0 .send, .peer 0 .halfClose, .wait [(5, EPOLLIN)],
   .dispatch [.bytes (ascii "GET /metrics" ++ headerEnd), .bytes []] [] false, .execute, .execute,
   .execute, .endBatch, .endTimers, .complete 0 1 none ⟨ascii "ok", false⟩]

def failedRecv : List Action :=
  twoClients ++ [.wait [(3, EPOLLIN)], .dispatch [] [] true, .runTask [.again], .execute, .execute,
    .endTasks, .endBatch, .endTimers, .peer 0 .reset, .wait [(5, EPOLLIN)],
    .dispatch [.fail] [] false, .execute, .execute, .execute]

/-- The first part of the response is out when the peer resets the connection. -/
def resetBetweenSends : List Action :=
  twoClients ++ [.wait [(3, EPOLLIN)], .dispatch [] [] true, .runTask [.bytes 1, .fail], .execute,
    .peer 0 .reset, .execute]

def freshServer : Server := new sampleSettings 0 (fun _ => .connected) fun _ => false

def failedRecvState : Server :=
  (run (restrict (system sampleSettings) sendsToLivePeer) freshServer failedRecv).get
    (by decide +kernel)

theorem failedRecvState_peerSafe :
    failedRecvState.closed = [0] ∧ failedRecvState.opened 6 = some (.connection 1) ∧
      PeerSafe sampleSettings failedRecvState :=
  ⟨by decide +kernel, by decide +kernel, livePeers_peerSafe
    (Reachable.run (.start ⟨_, _, _, rfl⟩) (Option.some_get _).symm)⟩

def killedState : Server :=
  (run (system sampleSettings) freshServer resetBetweenSends).get (by decide +kernel)

/-- One peer takes the server down, and with it the other client's connection. -/
theorem killedState_not_peerSafe :
    Reachable (system sampleSettings) killedState ∧ killedState.process = .killed ∧
      killedState.opened 6 = some (.connection 1) ∧ ¬PeerSafe sampleSettings killedState := by
  have hkilled : killedState.process = .killed := by decide +kernel
  refine ⟨Reachable.run (.start ⟨_, _, _, rfl⟩) (Option.some_get _).symm, hkilled,
    by decide +kernel, fun h => ?_⟩
  simpa [hkilled] using h.running

end Server

end CppSearchServer.Net
