import CppSearchServer.Net.Session

/-! The idle timeout.
Every handler either refreshes the activity clock or leaves a connection that was
already waiting as it was; exactly one idle check is pending while the connection
is open. Responses are not empty here: an empty one is sent without a byte. -/

namespace CppSearchServer.Net

open Library.TransitionSystem

namespace TcpConnection

def Waiting (c : TcpConnection) : Prop := c.processingRequest = false ∧ c.responseReady = false

/-- A handler at time `now` moves bytes at that time only, schedules no check, and
changes the activity clock only together with the generation. -/
structure Timed (now : Nat) (c c' : TcpConnection) : Prop where
  calls : ∃ more, c'.calls = c.calls ++ more ∧ scheduledChecks more = [] ∧
    ∀ t ∈ transferTimes more, t = now
  opened : 0 ≤ c'.fd → 0 ≤ c.fd
  timeout : c'.idleTimeout = c.idleTimeout
  clock : c'.lastActivityAt = now ∧ c.idleGeneration < c'.idleGeneration ∨
    c'.lastActivityAt = c.lastActivityAt ∧ c'.idleGeneration = c.idleGeneration

theorem Timed.trans {now : Nat} {c c' c'' : TcpConnection} (h : Timed now c c')
    (h' : Timed now c' c'') : Timed now c c'' where
  calls := by
    obtain ⟨more, hcalls, hchecks, htimes⟩ := h.calls
    obtain ⟨more', hcalls', hchecks', htimes'⟩ := h'.calls
    refine ⟨more ++ more', by rw [hcalls', hcalls, List.append_assoc], by simp [hchecks, hchecks'],
      fun t ht => ?_⟩
    rw [transferTimes_append, List.mem_append] at ht
    exact ht.elim (htimes t) (htimes' t)
  opened hopen := h.opened (h'.opened hopen)
  timeout := h'.timeout.trans h.timeout
  clock := by
    rcases h.clock with ⟨hl, hg⟩ | ⟨hl, hg⟩ <;> rcases h'.clock with ⟨hl', hg'⟩ | ⟨hl', hg'⟩
    · exact .inl ⟨hl', by omega⟩
    · exact .inl ⟨hl'.trans hl, by omega⟩
    · exact .inl ⟨hl', by omega⟩
    · exact .inr ⟨hl'.trans hl, hg'.trans hg⟩

theorem Timed.of_calls {now : Nat} {c c' : TcpConnection} (more : List Call)
    (hcalls : c'.calls = c.calls ++ more) (hchecks : scheduledChecks more = [])
    (htimes : ∀ t ∈ transferTimes more, t = now) (hopened : 0 ≤ c'.fd → 0 ≤ c.fd)
    (htimeout : c'.idleTimeout = c.idleTimeout) (hlast : c'.lastActivityAt = c.lastActivityAt)
    (hgeneration : c'.idleGeneration = c.idleGeneration) : Timed now c c' :=
  ⟨⟨more, hcalls, hchecks, htimes⟩, hopened, htimeout, .inr ⟨hlast, hgeneration⟩⟩

theorem Timed.refl (now : Nat) (c : TcpConnection) : Timed now c c :=
  .of_calls [] (by simp) rfl (by simp) id rfl rfl rfl

theorem Timed.calls_extended {now : Nat} {c c' : TcpConnection} (h : Timed now c c') :
    c.calls <+: c'.calls := by
  obtain ⟨more, hcalls, -⟩ := h.calls
  exact ⟨more, hcalls.symm⟩

theorem markActivity_timed (now : Nat) (c : TcpConnection) : Timed now c (c.markActivity now) :=
  ⟨⟨[], by simp [markActivity], rfl, by simp⟩, id, rfl, .inl ⟨rfl, Nat.lt_succ_self _⟩⟩

theorem close_timed (now : Nat) (c : TcpConnection) : Timed now c c.close := by
  rw [close_eq]
  refine .of_calls (if c.fd < 0 then [] else [.removeChannel c.fd, .closeFd c.fd]) rfl ?_ ?_ ?_
    rfl rfl rfl
  · split <;> rfl
  · split <;> simp
  · dsimp only
    split <;> intro <;> omega

theorem closeIfIdle_extended (now expectedGeneration : Nat) (c : TcpConnection) :
    c.calls <+: (c.closeIfIdle now expectedGeneration).calls := by
  unfold closeIfIdle
  split_ifs
  · exact List.prefix_rfl
  · exact List.prefix_append ..
  · exact List.prefix_append ..
  · exact (close_timed now c).calls_extended

theorem enableWriting_timed (now : Nat) (c : TcpConnection) : Timed now c c.enableWriting := by
  unfold enableWriting
  split
  · exact .refl now c
  · exact .of_calls [_] rfl rfl (by simp) id rfl rfl rfl

theorem responseSent_timed (now : Nat) (c : TcpConnection) : Timed now c c.responseSent := by
  have hdisable : Timed now c c.disableWriting := by
    unfold disableWriting
    split
    · exact .refl now c
    · exact .of_calls [_] rfl rfl (by simp) id rfl rfl rfl
  refine hdisable.trans ?_
  rw [responseSent, activeTimingCall_eq]
  generalize c.disableWriting = c
  refine .of_calls _ rfl ?_ ?_ id rfl rfl rfl
  · split <;> rfl
  · split <;> simp

theorem processRequest_timed (now : Nat) (c : TcpConnection) : Timed now c c.processRequest := by
  unfold processRequest
  simp only [metricsCall_eq, TcpConnection.call, List.append_assoc]
  refine .of_calls _ rfl ?_ ?_ id rfl rfl rfl
  · split <;> rfl
  · split <;> simp

/-- `processRequest` and `close` do not touch the clock. -/
theorem close_lastActivityAt (c : TcpConnection) : c.close.lastActivityAt = c.lastActivityAt := by
  simp [close_eq]

theorem close_not_open (c : TcpConnection) : ¬0 ≤ c.close.fd := by
  simp only [close_eq]
  split <;> omega

theorem processRequest_not_waiting (c : TcpConnection) : ¬c.processRequest.Waiting := by
  simp [Waiting, (processRequest_fields c).2.2.2.2.2.2.1]

/-- Whoever waits for input after a handler was either refreshed by it, or was
waiting before and received nothing. -/
def Refreshed (now : Nat) (c c' : TcpConnection) : Prop :=
  0 ≤ c'.fd → c'.Waiting → c'.lastActivityAt = now ∨
    c.Waiting ∧ c'.inputBuffer = c.inputBuffer ∧
      transferTimes c'.calls = transferTimes c.calls ∧ c'.lastActivityAt = c.lastActivityAt

theorem afterRead_timed (now : Nat) (d : Bool) (c : TcpConnection) :
    Timed now c (afterRead now d c) := by
  refine afterRead_rule (P := Timed now c) (Q := Timed now c) ?_ ?_ ?_ ?_ d c (.refl now c)
  · exact fun c' h => h.trans (markActivity_timed now c')
  · exact fun c' h _ _ _ => h.trans (processRequest_timed now c')
  · exact fun c' h _ _ _ => h.trans (close_timed now c')
  · exact fun _ h _ => h

theorem afterRead_waiting (now : Nat) (d : Bool) (c : TcpConnection)
    (hopen : 0 ≤ (afterRead now d c).fd) (hwait : (afterRead now d c).Waiting) :
    afterRead now d c = if d then c.markActivity now else c := by
  unfold afterRead at hopen hwait ⊢
  generalize (if d then c.markActivity now else c) = c at hopen hwait ⊢
  dsimp only at hopen hwait ⊢
  split_ifs at hopen hwait ⊢
  · exact absurd hwait (processRequest_not_waiting c)
  · exact absurd hopen (close_not_open c)
  · rfl

theorem recv_timed (now : Nat) (result : RecvResult) (c : TcpConnection) :
    Timed now c (c.call (.recv now c.fd result)) := by
  refine .of_calls [_] rfl rfl ?_ id rfl rfl rfl
  rcases result with (_ | _) | _ | _ | _ <;> simp

theorem handleRead_timed (now : Nat) (answers : List RecvResult) (c : TcpConnection) :
    Timed now c (c.handleRead now answers) := by
  refine readLoop_rule (P := fun _ c' => Timed now c c') (Q := fun c' => Timed now c c')
    ?_ ?_ ?_ ?_ ?_ _ false c (.refl now c)
  · intro _ c' b bytes h
    exact (h.trans (recv_timed now (.bytes (b :: bytes)) c')).trans
      (.of_calls [] (by simp) rfl (by simp) id rfl rfl rfl)
  · exact fun _ c' h => h.trans (recv_timed now .eintr c')
  · intro d c' h
    have heof : Timed now c' { c'.call (.recv now c'.fd (.bytes [])) with peerClosed := true } :=
      (recv_timed now (.bytes []) c').trans (.of_calls [] (by simp) rfl (by simp) id rfl rfl rfl)
    exact (h.trans heof).trans (afterRead_timed now d _)
  · exact fun d c' h => (h.trans (recv_timed now .again c')).trans (afterRead_timed now d _)
  · exact fun _ c' h => (h.trans (recv_timed now .fail c')).trans (close_timed now _)

/-- Whether data has arrived in this handler; until then nothing but the history
and `peerClosed` changes. -/
def ReadSoFar (c : TcpConnection) (d : Bool) (c' : TcpConnection) : Prop :=
  d = true ∨ (c'.Waiting → c.Waiting) ∧ c'.inputBuffer = c.inputBuffer ∧
    transferTimes c'.calls = transferTimes c.calls ∧ c'.lastActivityAt = c.lastActivityAt

theorem ReadSoFar.afterRead {now : Nat} {d : Bool} {c c' : TcpConnection}
    (h : ReadSoFar c d c') : Refreshed now c (afterRead now d c') := by
  intro hopen hwait
  have heq := afterRead_waiting now d c' hopen hwait
  rw [heq] at hwait ⊢
  rcases h with rfl | ⟨hw, hin, ht, hl⟩
  · exact .inl rfl
  · cases d with
    | true => exact .inl rfl
    | false => exact .inr ⟨hw hwait, hin, ht, hl⟩

theorem handleRead_refreshed (now : Nat) (answers : List RecvResult) (c : TcpConnection) :
    Refreshed now c (c.handleRead now answers) := by
  have silent : ∀ d c' c'', ReadSoFar c d c' → (c''.Waiting → c'.Waiting) →
      c''.inputBuffer = c'.inputBuffer → transferTimes c''.calls = transferTimes c'.calls →
      c''.lastActivityAt = c'.lastActivityAt → ReadSoFar c d c'' := by
    rintro d c' c'' (hd | ⟨hw, hin, ht, hl⟩) hw' hin' ht' hl'
    · exact .inl hd
    · exact .inr ⟨hw ∘ hw', hin'.trans hin, ht'.trans ht, hl'.trans hl⟩
  refine readLoop_rule (P := ReadSoFar c) (Q := Refreshed now c) ?_ ?_ ?_ ?_ ?_ _ false c
    (.inr ⟨id, rfl, rfl, rfl⟩)
  · exact fun _ _ _ _ _ => .inl rfl
  · exact fun d c' h => silent d c' _ h id rfl (by simp [TcpConnection.call]) rfl
  · exact fun d c' h =>
      ReadSoFar.afterRead (silent d c' _ h id rfl (by simp [TcpConnection.call]) rfl)
  · exact fun d c' h =>
      ReadSoFar.afterRead (silent d c' _ h id rfl (by simp [TcpConnection.call]) rfl)
  · exact fun _ c' _ hopen => absurd hopen (close_not_open _)

theorem afterWrite_timed (now : Nat) (d : Bool) (c : TcpConnection) :
    Timed now c (afterWrite now d c) := by
  refine afterWrite_rule (P := Timed now c) (Q := Timed now c) ?_ ?_ ?_ ?_ d c
    (responseSent_timed now c)
  · exact fun c' h _ => h.trans (close_timed now c')
  · exact fun c' h _ _ _ => h.trans (processRequest_timed now c')
  · exact fun c' h _ => h.trans (close_timed now c')
  · exact fun c' h _ _ _ => ⟨h, h.trans (markActivity_timed now c')⟩

theorem afterWrite_refreshes (now : Nat) (c : TcpConnection)
    (hopen : 0 ≤ (afterWrite now true c).fd) (hwait : (afterWrite now true c).Waiting) :
    (afterWrite now true c).lastActivityAt = now := by
  simp only [afterWrite, if_true] at hopen hwait ⊢
  split_ifs at hopen hwait ⊢
  · exact absurd hopen (close_not_open _)
  · exact absurd hwait (processRequest_not_waiting _)
  · exact absurd hopen (close_not_open _)
  · rfl

theorem send_timed (now : Nat) (result : SendResult) (c : TcpConnection) :
    Timed now c (c.call (.send now c.fd c.outputBuffer.peek result)) := by
  refine .of_calls [_] rfl rfl ?_ id rfl rfl rfl
  rcases result with (_ | _) | _ | _ | _ <;> simp

theorem tookOver_timed (now n : Nat) (c : TcpConnection) : Timed now c (tookOver now n c) := by
  have htiming : ∀ c : TcpConnection, Timed now c (c.activeTimingCall .markWriteStarted) := by
    intro c
    rw [activeTimingCall_eq]
    refine .of_calls _ rfl ?_ ?_ id rfl rfl rfl
    · split <;> rfl
    · split <;> simp
  exact ((send_timed now (.bytes n) c).trans (htiming _)).trans
    (.of_calls [] (by simp [tookOver]) rfl (by simp) id rfl rfl rfl)

theorem handleWrite_timed (now : Nat) (answers : List SendResult) (c : TcpConnection) :
    Timed now c (c.handleWrite now answers) := by
  refine writeLoop_rule (P := fun _ c' => Timed now c c') (Q := fun c' => Timed now c c')
    ?_ ?_ ?_ ?_ ?_ _ false c (.refl now c)
  · exact fun _ c' n h _ => h.trans (tookOver_timed now (n + 1) c')
  · exact fun _ c' h _ => h.trans (send_timed now .eintr c')
  · exact fun d c' h _ => h.trans (afterWrite_timed now d c')
  · intro d c' h _
    refine (h.trans (send_timed now .again c')).trans (Timed.trans ?_ (enableWriting_timed now _))
    split
    · exact markActivity_timed now _
    · exact .refl now _
  · exact fun _ c' result h _ _ => (h.trans (send_timed now result c')).trans (close_timed now _)

theorem handleWrite_refreshes (now : Nat) (answers : List SendResult) (c : TcpConnection)
    (hready : c.responseReady = true) (hne : c.outputBuffer.peek ≠ [])
    (hopen : 0 ≤ (c.handleWrite now answers).fd) (hwait : (c.handleWrite now answers).Waiting) :
    (c.handleWrite now answers).lastActivityAt = now := by
  revert hopen hwait
  refine writeLoop_rule
    (P := fun d c' => c'.responseReady = true ∧ (d = true ∨ c'.outputBuffer.peek ≠ []))
    (Q := fun c' => 0 ≤ c'.fd → c'.Waiting → c'.lastActivityAt = now)
    ?_ ?_ ?_ ?_ ?_ _ false c ⟨hready, .inr hne⟩
  · intro _ c' n h _
    exact ⟨by simpa [tookOver, activeTimingCall_eq, TcpConnection.call] using h.1, .inl rfl⟩
  · exact fun _ _ h _ => h
  · rintro d c' ⟨-, hd⟩ hempty
    rw [hd.resolve_right (absurd hempty)]
    exact afterWrite_refreshes now c'
  · intro d c' h _ c'' _ hwait
    have hready : (if d then c''.markActivity now else c'').enableWriting.responseReady = true := by
      unfold enableWriting
      split <;> split <;> exact h.1
    exact absurd (hready.symm.trans hwait.2) (by simp)
  · exact fun _ c' _ _ _ _ hopen => absurd hopen (close_not_open _)

theorem handleEvent_timed (now : Nat) (revents : EventMask) (reads : List RecvResult)
    (writes : List SendResult) (c : TcpConnection) :
    Timed now c (c.handleEvent now revents reads writes) := by
  refine handleEvent_rule (P := Timed now c) ?_ ?_ ?_ ?_ fun _ h => h
  · exact fun _ => close_timed now c
  · exact .refl now c
  · exact handleRead_timed now reads c
  · exact fun c' h _ => h.trans (handleWrite_timed now writes c')

theorem handleEvent_refreshed {fd : Int} (now : Nat) (revents : EventMask)
    (reads : List RecvResult) (writes : List SendResult) {c : TcpConnection} (h : c.Settled fd)
    (hwrite : revents.has EPOLLOUT = true → c.responseReady = true) :
    Refreshed now c (c.handleEvent now revents reads writes) := by
  refine handleEvent_rule (P := fun c' => Refreshed now c c' ∧ (c.responseReady = true →
      c'.responseReady = true ∧ c'.outputBuffer = c.outputBuffer))
    (Q := fun c' => Refreshed now c c') ?_ ?_ ?_ ?_ fun _ h => h.1
  · exact fun _ hopen => absurd hopen (close_not_open c)
  · exact ⟨fun _ hwait => .inr ⟨hwait, rfl, rfl, rfl⟩, fun hready => ⟨hready, rfl⟩⟩
  · exact ⟨handleRead_refreshed now reads c, handleRead_ready now reads c⟩
  · intro c' ⟨_, hkept⟩ hout hopen hwait
    obtain ⟨hready, houtput⟩ := hkept (hwrite hout)
    exact .inl (handleWrite_refreshes now writes c' hready
      (houtput ▸ h.pending.mp (hwrite hout)) hopen hwait)

theorem answered_timed (now : Nat) (timing : RequestTimingPtr) (result : ResponseResult)
    (c : TcpConnection) : Timed now c (c.answered timing result) := by
  simp only [answered, metricsCall_eq]
  refine .of_calls _ rfl ?_ ?_ id rfl rfl rfl
  · split <;> rfl
  · split <;> simp

theorem finishRequest_timed (now requestId : Nat) (timing : RequestTimingPtr)
    (result : ResponseResult) (answers : List SendResult) (c : TcpConnection) :
    Timed now c (c.finishRequest now requestId timing result answers) := by
  rcases finishRequest_cases now requestId timing result answers c with ⟨heq, -⟩ | ⟨-, -, -, heq⟩
  · rw [heq]; exact .refl now c
  · rw [heq]
    exact (answered_timed now timing result c).trans (handleWrite_timed now answers _)

theorem finishRequest_refreshed (now requestId : Nat) (timing : RequestTimingPtr)
    {result : ResponseResult} (answers : List SendResult) (c : TcpConnection)
    (hne : result.response ≠ []) :
    Refreshed now c (c.finishRequest now requestId timing result answers) := by
  rcases finishRequest_cases now requestId timing result answers c with ⟨heq, -⟩ | ⟨-, -, -, heq⟩
  · rw [heq]; exact fun _ hwait => .inr ⟨hwait, rfl, rfl, rfl⟩
  · rw [heq]
    exact fun hopen hwait => .inl
      (handleWrite_refreshes now answers _ rfl (by simp [answered, hne]) hopen hwait)

end TcpConnection

namespace Session

open TcpConnection

/-- What keeps the timeout exact. A check for the current generation is never
early, and no check is later than one timeout from now. -/
structure IdleWatched (s : Session) : Prop where
  transfers_past : ∀ t ∈ transferTimes s.connection.calls, t ≤ s.now
  clock_past : s.connection.lastActivityAt ≤ s.now
  covered : 0 ≤ s.connection.fd → s.connection.Waiting →
    ∀ t ∈ transferTimes s.connection.calls, t ≤ s.connection.lastActivityAt
  check : 0 ≤ s.connection.fd → ∃ check, s.idleChecks = [check] ∧
    check.2 ≤ s.connection.idleGeneration ∧
    (check.2 = s.connection.idleGeneration →
      s.connection.lastActivityAt + s.connection.idleTimeout ≤ check.1) ∧
    check.1 ≤ s.now + s.connection.idleTimeout ∧
    (s.connection.isIdle = true →
      check.1 ≤ s.connection.lastActivityAt + s.connection.idleTimeout)

theorem isIdle_iff (c : TcpConnection) : c.isIdle = true ↔
    c.Waiting ∧ c.inputBuffer.peek = [] ∧ c.outputBuffer.peek = [] := by
  simp only [isIdle, Waiting, Bool.and_eq_true, Bool.not_eq_true', Buffer.empty_iff]
  tauto

theorem IdleWatched.tick {s : Session} (h : IdleWatched s) (elapsed : Nat) :
    IdleWatched { s with now := s.now + elapsed } where
  transfers_past t ht := (h.transfers_past t ht).trans (Nat.le_add_right _ _)
  clock_past := h.clock_past.trans (Nat.le_add_right _ _)
  covered := h.covered
  check hopen := by
    obtain ⟨check, hchecks, hgen, hearly, hlate, hidle⟩ := h.check hopen
    exact ⟨check, hchecks, hgen, hearly, by dsimp only; omega, hidle⟩

theorem IdleWatched.ran {fd : Int} {s : Session} {c : TcpConnection} (h : IdleWatched s)
    (hsound : s.connection.Sound fd) (ht : Timed s.now s.connection c)
    (hr : Refreshed s.now s.connection c) : IdleWatched (s.ran c) := by
  obtain ⟨more, hcalls, hnone, htimes⟩ := ht.calls
  have hpast : ∀ t ∈ transferTimes c.calls, t ≤ s.now := by
    intro t hmem
    rw [hcalls, transferTimes_append, List.mem_append] at hmem
    exact hmem.elim (h.transfers_past t) fun hmem => (htimes t hmem).le
  refine ⟨hpast, ?_, fun hopen hwait => ?_, fun hopen => ?_⟩
  · rcases ht.clock with ⟨hl, -⟩ | ⟨hl, -⟩
    · exact hl.le
    · exact hl.le.trans h.clock_past
  · rcases hr hopen hwait with hl | ⟨hw, -, hsame, hl⟩
    · change ∀ t ∈ transferTimes c.calls, t ≤ c.lastActivityAt
      exact hl ▸ hpast
    · change ∀ t ∈ transferTimes c.calls, t ≤ c.lastActivityAt
      rw [hsame, hl]
      exact h.covered (ht.opened hopen) hw
  · obtain ⟨check, hchecks, hgen, hearly, hlate, hidle⟩ := h.check (ht.opened hopen)
    have htimeout := ht.timeout
    refine ⟨check, by simp [Session.ran, hcalls, hnone, hchecks], ?_, ?_, ?_, ?_⟩
    · change check.2 ≤ c.idleGeneration
      rcases ht.clock with ⟨-, hg⟩ | ⟨-, hg⟩ <;> omega
    · change check.2 = c.idleGeneration → c.lastActivityAt + c.idleTimeout ≤ check.1
      intro heq
      rcases ht.clock with ⟨-, hg⟩ | ⟨hl, hg⟩
      · omega
      · rw [hl, htimeout]
        exact hearly (heq.trans hg)
    · exact htimeout ▸ hlate
    · change c.isIdle = true → check.1 ≤ c.lastActivityAt + c.idleTimeout
      intro hi
      obtain ⟨hwait, hin, -⟩ := (isIdle_iff c).mp hi
      rw [htimeout]
      rcases hr hopen hwait with hl | ⟨hw, hsame, -, hl⟩
      · rw [hl]; exact hlate
      · -- nothing happened, so the connection was idle before
        have hsettled := hsound.resolve_right fun hc => hc.open_false (ht.opened hopen)
        have hout : s.connection.outputBuffer.peek = [] := by
          by_contra hne
          exact absurd (hsettled.pending.mpr hne) (by simp [hw.2])
        rw [hl]
        exact hidle ((isIdle_iff _).mpr ⟨hw, hsame ▸ hin, hout⟩)

theorem IdleWatched.expire {s : Session} (h : IdleWatched s) {check : Nat × Nat}
    (hmem : check ∈ s.idleChecks) :
    IdleWatched ({ s with idleChecks := s.idleChecks.erase check }.ran
      (s.connection.closeIfIdle s.now check.2)) := by
  have hclock := h.clock_past
  have rescheduled : ∀ expiresAt, 0 ≤ s.connection.fd →
      s.connection.lastActivityAt + s.connection.idleTimeout ≤ expiresAt →
      expiresAt ≤ s.now + s.connection.idleTimeout →
      (s.connection.isIdle = true →
        expiresAt ≤ s.connection.lastActivityAt + s.connection.idleTimeout) →
      IdleWatched ({ s with idleChecks := s.idleChecks.erase check }.ran
        (s.connection.scheduleIdleCheck expiresAt)) := by
    intro expiresAt hopen hearly hlate hidle
    obtain ⟨_, hchecks, -⟩ := h.check hopen
    obtain rfl := List.mem_singleton.mp (hchecks ▸ hmem)
    refine ⟨?_, hclock, ?_, fun _ => ⟨(expiresAt, s.connection.idleGeneration), ?_, le_rfl,
      fun _ => hearly, hlate, hidle⟩⟩
    · simpa [Session.ran, scheduleIdleCheck, TcpConnection.call] using h.transfers_past
    · simpa [Session.ran, scheduleIdleCheck, TcpConnection.call, Waiting] using h.covered
    · simp [Session.ran, scheduleIdleCheck, TcpConnection.call, hchecks]
  unfold closeIfIdle
  split_ifs with hclosed hgen hidle
  · refine ⟨h.transfers_past, hclock, h.covered, fun hopen => ?_⟩
    have hopen : 0 ≤ s.connection.fd := hopen
    omega
  · exact rescheduled _ (by omega) le_rfl (by omega) fun _ => le_rfl
  · exact rescheduled _ (by omega) (by omega) le_rfl fun hi => by simp [hi] at hidle
  · refine ⟨?_, ?_, fun hopen => absurd hopen (close_not_open _),
      fun hopen => absurd hopen (close_not_open _)⟩
    · change ∀ t ∈ transferTimes s.connection.close.calls, t ≤ s.now
      simpa [close_eq, if_neg hclosed] using h.transfers_past
    · change s.connection.close.lastActivityAt ≤ s.now
      rw [close_lastActivityAt]
      exact hclock

def responds : Session → Action → Bool
  | _, .completion _ _ result _ => !result.response.isEmpty
  | _, _ => true

theorem reachable_idleWatched {s : Session} (h : Reachable (restrict system responds) s) :
    IdleWatched s := by
  refine h.invariant ?_ ?_
  · rintro s ⟨now, fd, idleTimeout, latencyMetrics, -, rfl⟩
    refine ⟨?_, le_rfl, fun _ _ => ?_, fun _ => ⟨(now + idleTimeout, 1), ?_⟩⟩
    · simp [established, TcpConnection.new, establish, scheduleIdleCheck, markActivity,
        TcpConnection.call]
    · simp [established, TcpConnection.new, establish, scheduleIdleCheck, markActivity,
        TcpConnection.call]
    · exact ⟨rfl, le_rfl, fun _ => le_rfl, le_rfl, fun _ => le_rfl⟩
  · intro s a t hs ih hstep
    obtain ⟨hallowed, hstep⟩ := restrict_step.mp hstep
    obtain ⟨fd, -, hsound⟩ := reachable_sound hs.of_restrict
    rcases step_cases hstep with ⟨elapsed, -, rfl⟩ |
      ⟨revents, reads, writes, -, hopen, hout, rfl⟩ |
      ⟨requestId, timing, result, writes, rfl, -, -, rfl⟩ | ⟨check, -, hmem, -, rfl⟩
    · exact ih.tick elapsed
    · have hsettled := hsound.resolve_right fun hc => hc.open_false hopen
      exact ih.ran hsound (handleEvent_timed s.now revents reads writes s.connection)
        (handleEvent_refreshed s.now revents reads writes hsettled fun hw =>
          responseReady_of_interested hsettled (hout hw))
    · have hne : result.response ≠ [] := by simpa [responds] using hallowed
      have hran := ih.ran hsound (finishRequest_timed s.now requestId timing result writes _)
        (finishRequest_refreshed s.now requestId timing writes s.connection hne)
      exact ⟨hran.transfers_past, hran.clock_past, hran.covered, hran.check⟩
    · exact ih.expire hmem

structure IdleTimeoutExact (s : Session) : Prop where
  closes : ∀ check t, s.step (.expire check) = some t → 0 ≤ s.connection.fd →
    t.connection.fd < 0 → s.connection.processingRequest = false ∧
      s.connection.inputBuffer.peek = [] ∧ s.connection.outputBuffer.peek = [] ∧
      ∀ time ∈ transferTimes t.connection.calls, time + s.connection.idleTimeout ≤ s.now
  pending : 0 ≤ s.connection.fd → ∃ check, s.idleChecks = [check] ∧
    (s.connection.isIdle = true →
      check.1 ≤ s.connection.lastActivityAt + s.connection.idleTimeout)

theorem idleTimeout_exact {s : Session} (h : Reachable (restrict system responds) s) :
    IdleTimeoutExact s := by
  have hwatched := reachable_idleWatched h
  refine ⟨?_, fun hopen => ?_⟩
  · intro check t hstep hopen hclosed
    obtain ⟨⟨hmem, hdue⟩, ht⟩ := Option.ite_none_right_eq_some.mp hstep
    cases ht
    obtain ⟨check', hchecks, -, hearly, -, -⟩ := hwatched.check hopen
    obtain rfl := List.mem_singleton.mp (hchecks ▸ hmem)
    change (s.connection.closeIfIdle s.now check.2).fd < 0 at hclosed
    change _ ∧ _ ∧ _ ∧ ∀ time ∈ transferTimes (s.connection.closeIfIdle s.now check.2).calls, _
    have hfd : ¬s.connection.fd < 0 := by omega
    unfold closeIfIdle at hclosed ⊢
    rw [if_neg hfd] at hclosed ⊢
    split_ifs at hclosed ⊢ with hgen hidle
    · exact absurd hclosed hfd
    · exact absurd hclosed hfd
    · obtain ⟨hwait, hin, hout⟩ := (isIdle_iff s.connection).mp (by simpa using hidle)
      have hexpired := hearly (by simpa using hgen)
      refine ⟨hwait.1, hin, hout, fun time htime => ?_⟩
      have hcovered := hwatched.covered hopen hwait time
        (by simpa [close_eq, if_neg hfd] using htime)
      omega
  · obtain ⟨check, hchecks, -, -, -, hidle⟩ := hwatched.check hopen
    exact ⟨check, hchecks, hidle⟩

/-- One request answered at time 3, the first check at 40 renewed, idle at 43. -/
def idled : List Action :=
  [.tick 3, .event EPOLLIN [.bytes (ascii "GET / HTTP/1.1\r\n\r\n"), .again] [],
   .completion 1 none ⟨ascii "ok", false⟩ [.bytes 2], .tick 37, .expire (40, 1), .tick 3]

def idledState : Session :=
  (run (restrict system responds) (established 0 7 40 none) idled).get (by decide)

theorem idledState_exact : idledState.idleChecks = [(43, 3)] ∧ IdleTimeoutExact idledState :=
  ⟨by decide, idleTimeout_exact
    (Reachable.run (.start ⟨0, 7, 40, none, by decide, rfl⟩) (Option.some_get _).symm)⟩

end Session

end CppSearchServer.Net
