import CppSearchServer.Net.FdReuse
import CppSearchServer.Net.IdleTimeout
import CppSearchServer.Net.Pipeline
import Mathlib.Data.List.Perm.Subperm

/-! One loop, many sessions.
Batches, tasks, timers and descriptors are shared by all connections of a loop, and a
handler's calls are carried out one at a time. Each connection still goes through what a
`Session` of its own goes through, with the same clock and the same pending idle checks:
what holds of every session holds of every connection of every loop. -/

namespace CppSearchServer.Net

open Library.TransitionSystem

def Timer.check (timer : Timer) : Nat × Nat := (timer.expiresAt, timer.expectedGeneration)

namespace Server

variable {settings : Settings} {s t : Server} {id : Nat} {session : Session}

def pendingChecks (s : Server) (id : Nat) : List (Nat × Nat) :=
  (s.timers.filter fun timer => timer.id = id).map Timer.check ++ scheduledChecks (s.remaining id)

structure Follows (s : Server) (id : Nat) (session : Session) : Prop where
  now : session.now = s.now
  connection : s.connections id = some session.connection
  checks : session.idleChecks = s.pendingChecks id

def Delivers (s : Server) (id : Nat) (session session' : Session) : Prop :=
  session'.delivered = session.delivered ∨ ∃ requestId timing result,
    .finishRequest id requestId timing result ∈ s.tasks ∧
      session'.delivered = session.delivered ++ [(requestId, result)]

theorem pendingChecks_eq (htodo : s.todo = []) (id : Nat) :
    s.pendingChecks id = (s.timers.filter fun timer => timer.id = id).map Timer.check := by
  simp [pendingChecks, remaining, htodo]

theorem Follows.congr (h : Follows s id session) (hnow : t.now = s.now)
    (hconnections : t.connections = s.connections) (htimers : t.timers = s.timers)
    (hactive : t.active = s.active) (htodo : t.todo = s.todo) : Follows t id session where
  now := h.now.trans hnow.symm
  connection := hconnections ▸ h.connection
  checks := by rw [h.checks, pendingChecks, pendingChecks, remaining, remaining, htimers, hactive,
    htodo]

theorem perform_checks (s : Server) (made : Call) (id : Nat) :
    ((s.perform made).timers.filter fun timer => timer.id = id).map Timer.check =
      (s.timers.filter fun timer => timer.id = id).map Timer.check ++
        if s.active = id then made.idleCheck.toList else [] := by
  cases made with
  | addChannel channel => rw [perform, addChannel]; split_ifs <;> simp
  | updateChannel channel => rw [perform, updateChannel]; split_ifs <;> simp
  | removeChannel fd => rw [perform, removeChannel]; split_ifs <;> simp
  | runAt expiresAt expectedGeneration =>
    by_cases hid : s.active = id <;> simp [perform, runAt, List.filter_append, hid, Timer.check]
  | _ => split_ifs <;> simp [perform, Server.recordUse, Server.send, Server.closeFd]

theorem Follows.execute (h : Follows s id session) (ht : s.execute = some t) :
    Follows t id session := by
  unfold Server.execute at ht
  split at ht
  · cases ht
  rename_i made todo htodo
  cases ht
  have hframe := perform_frame (s.startCall made todo) made
  refine ⟨h.now.trans hframe.now.symm, hframe.connections ▸ h.connection, ?_⟩
  have hremaining : ((s.startCall made todo).perform made).remaining id =
      if id = s.active then todo else [] := by
    rw [remaining, hframe.active, hframe.todo]
    rfl
  rw [h.checks, pendingChecks, pendingChecks, hremaining, perform_checks, remaining, htodo]
  by_cases hid : id = s.active
  · simp [startCall, hid]
  · simp [startCall, hid, Ne.symm hid]

theorem Follows.handler (h : Follows s id session) (htodo : s.todo = [])
    (handler : TcpConnection → TcpConnection) :
    Follows (s.runHandler id handler) id (session.ran (handler session.connection)) := by
  rw [runHandler, h.connection]
  refine ⟨h.now, Function.update_self .., ?_⟩
  simp only [Session.ran, h.checks, pendingChecks_eq htodo]
  simp [pendingChecks, enter, remaining]

theorem Follows.enterOther (h : Follows s id session) (htodo : s.todo = []) {other : Nat}
    (hne : id ≠ other) (c c' : TcpConnection) : Follows (s.enter other c c') id session where
  now := h.now
  connection := (Function.update_of_ne hne ..).trans h.connection
  checks := by
    rw [h.checks, pendingChecks_eq htodo]
    simp [pendingChecks, enter, remaining, hne]

theorem Follows.handlerOther (h : Follows s id session) (htodo : s.todo = []) {other : Nat}
    (hne : id ≠ other) (handler : TcpConnection → TcpConnection) :
    Follows (s.runHandler other handler) id session := by
  unfold runHandler
  split
  · exact h
  · exact h.enterOther htodo hne ..

theorem checks_erase (timers : List Timer) (timer : Timer) :
    ((timers.erase timer).filter fun other => other.id = timer.id).map Timer.check =
      ((timers.filter fun other => other.id = timer.id).map Timer.check).erase timer.check := by
  induction timers with
  | nil => rfl
  | cons first timers ih =>
    by_cases hfirst : first = timer
    · subst hfirst
      simp
    · rw [List.erase_cons_tail (by simpa using hfirst)]
      by_cases hid : first.id = timer.id
      · have hcheck : first.check ≠ timer.check := fun heq => hfirst <| by
          obtain ⟨expiresAt, expectedGeneration⟩ := Prod.mk.inj heq
          cases first
          cases timer
          simp_all
        simp [hid, hcheck, ih]
      · simp [hid, ih]

theorem checks_erase_other (timers : List Timer) {timer : Timer} (hid : id ≠ timer.id) :
    (timers.erase timer).filter (fun other => other.id = id) =
      timers.filter fun other => other.id = id := by
  induction timers with
  | nil => rfl
  | cons first timers ih =>
    by_cases hfirst : first = timer
    · subst hfirst
      simp [Ne.symm hid]
    · rw [List.erase_cons_tail (by simpa using hfirst), List.filter_cons, List.filter_cons, ih]

/-! The clock of the loop. -/

theorem runHandler_clock (s : Server) (id : Nat) (handler : TcpConnection → TcpConnection) :
    (s.runHandler id handler).now = s.now ∧ (s.runHandler id handler).phase = s.phase := by
  unfold runHandler
  split <;> exact ⟨rfl, rfl⟩

theorem outsideStep_clock {a : Action} (ht : s.outsideStep a = some t) :
    s.now ≤ t.now ∧ t.phase = s.phase := by
  cases a with
  | tick =>
    cases ht
    exact ⟨Nat.le_succ _, rfl⟩
  | peer id action =>
    cases ht
    exact ⟨le_rfl, rfl⟩
  | openOther fd | closeOther fd | accept fd | complete id requestId timing result =>
    obtain ⟨-, ht⟩ := Option.ite_none_right_eq_some.mp ht
    cases ht
    exact ⟨le_rfl, rfl⟩
  | discard | queueEstablish | otherLoop =>
    simp only [outsideStep] at ht
    split at ht <;> cases ht
    exact ⟨le_rfl, rfl⟩
  | _ => cases ht

theorem reachable_timers_le (h : Reachable (system settings) s) :
    ∀ now, s.phase = .timers now → now ≤ s.now := by
  refine h.invariant (P := fun s => ∀ now, s.phase = .timers now → now ≤ s.now) ?_
    fun s a t _ ih ht => ?_
  · rintro _ ⟨now, peers, files, rfl⟩ _ hphase
    cases hphase
  · obtain ⟨-, ⟨-, ht⟩ | ⟨-, hmove⟩ | ht⟩ := step_cases ht
    · unfold execute at ht
      split at ht <;> cases ht
      rename_i made todo _
      have hframe := perform_frame (s.startCall made todo) made
      rw [hframe.phase, hframe.now]
      exact ih
    · cases hmove with
      | wait | endTasks | endTimers | swap =>
        intro now hphase
        cases hphase
      | endBatch =>
        rintro now ⟨⟩
        exact le_rfl
      | drop => exact ih
      | deliver =>
        rw [(runHandler_clock ..).1, (runHandler_clock ..).2]
        exact ih
      | establish => exact ih
      | finishRequest =>
        rw [runTask, (runHandler_clock ..).1, (runHandler_clock ..).2]
        exact ih
      | runTimer =>
        rw [(runHandler_clock ..).1, (runHandler_clock ..).2]
        exact ih
    · obtain ⟨hle, heq⟩ := outsideStep_clock ht
      rw [heq]
      exact fun now hphase => (ih now hphase).trans hle

theorem runTimer_due {timer : Timer} (ht : s.step settings (.runTimer timer) = some t) :
    ∃ now, s.phase = .timers now ∧ timer.expiresAt ≤ now := by
  obtain ⟨-, ht⟩ := Option.ite_none_right_eq_some.mp ht
  obtain ⟨-, ht⟩ := Option.ite_none_right_eq_some.mp ht
  simp only [loopStep] at ht
  split at ht
  · rename_i now hphase
    obtain ⟨⟨-, hdue, -⟩, -⟩ := Option.ite_none_right_eq_some.mp ht
    exact ⟨now, hphase, hdue⟩
  · cases ht

theorem handedId_bounds {c : TcpConnection} (hframed : c.Framed) {requestId : Nat}
    {timing : RequestTimingPtr} {request : Bytes}
    (hmem : .requestHandler requestId timing request ∈ c.calls) :
    1 ≤ requestId ∧ requestId ≤ c.requestGeneration := by
  have hid : requestId ∈ handedIds c.calls := List.mem_filterMap.mpr ⟨_, hmem, rfl⟩
  rw [hframed.ids, List.mem_range'_1] at hid
  omega

theorem follows_establish (h : Sound settings s) (hhistory : History s) {fd : Int}
    {tasks : List LoopTask} (htasks : s.tasks = .establish fd id :: tasks)
    (writes : List SendResult) :
    0 ≤ fd ∧ Follows ({ s with tasks := tasks }.runTask settings writes (.establish fd id)) id
      (Session.established s.now fd settings.idleTimeout settings.latencyMetrics) := by
  have hmem : (fd, id) ∈ s.upcoming := mem_upcoming_of_tasks (by simp [htasks])
  obtain ⟨hopened, hnone⟩ := h.ownership.upcoming _ hmem
  have haccepted := (h.ownership.owner fd id hopened).1
  refine ⟨h.ownership.nonneg fd (List.mem_of_getElem? haccepted), rfl,
    Function.update_self .., ?_⟩
  have htimers : s.timers.filter (fun timer => timer.id = id) = [] := by
    rw [List.filter_eq_nil_iff]
    intro timer htimer hid
    obtain rfl : timer.id = id := by simpa using hid
    have hmade := hhistory.timers timer htimer
    rw [h.tables.fresh _ hnone] at hmade
    cases hmade
  simp [Session.established, pendingChecks, runTask, enter, remaining, htimers,
    TcpConnection.new]

theorem completion_bounds (h : Sound settings s) (hhistory : History s) (htodo : s.todo = [])
    {c : TcpConnection} (hc : s.connections id = some c) (hframed : c.Framed) {requestId : Nat}
    {timing : RequestTimingPtr} {result : ResponseResult}
    (hmem : .finishRequest id requestId timing result ∈ s.tasks) :
    1 ≤ requestId ∧ requestId ≤ c.requestGeneration := by
  have hhanded := hhistory.completions id requestId timing result (List.mem_append_left _ hmem)
  obtain ⟨request, hmade⟩ := hhistory.handedOver _ hhanded
  obtain ⟨fd, hest⟩ := h.tables.established id c hc
  exact handedId_bounds hframed (hest.calls_eq htodo ▸ hmade)

theorem session_event (h : Sound settings s) (htodo : s.todo = []) (hfollows : Follows s id session)
    {event : EpollEvent} {batch : List EpollEvent} (hbatch : s.batch = event :: batch)
    (hfound : s.channels event.fd = some (.connection id)) (reads : List RecvResult)
    (writes : List SendResult) :
    Session.system.step session (.event event.revents reads writes) = some (session.ran
      (session.connection.handleEvent s.now event.revents reads writes)) := by
  have hopened := h.tables.owner_of_channels hfound
  have haccepted := (h.ownership.owner _ _ hopened).1
  have hfd := h.ownership.nonneg _ (List.mem_of_getElem? haccepted)
  obtain ⟨fd, hest⟩ := h.tables.established id _ hfollows.connection
  obtain rfl := h.ownership.unique hopened hest.accepted
  have hsettled := hest.settled htodo hopened
  have hopen : 0 ≤ session.connection.fd := by rw [hsettled.registered.fd_eq]; exact hfd
  simp only [Session.system, Session.step]
  rw [if_pos, hfollows.now]
  refine ⟨hopen, fun hout => ?_⟩
  have hready := (h.write_ready (by simp [hbatch]) hopened hfollows.connection hout).resolve_right
    (by omega)
  rw [Session.interested, Session.registration_of_settled hsettled]
  simpa using Session.interest_has_out.mpr hready

theorem session_completion (h : Sound settings s) (hhistory : History s)
    (hsession : Reachable Session.system session) (htodo : s.todo = [])
    (hfollows : Follows s id session) {requestId : Nat} {timing : RequestTimingPtr}
    {result : ResponseResult} (hmem : .finishRequest id requestId timing result ∈ s.tasks)
    (writes : List SendResult) :
    Session.system.step session (.completion requestId timing result writes) =
      some { session.ran (session.connection.finishRequest s.now requestId timing result
        writes) with delivered := session.delivered ++ [(requestId, result)] } := by
  obtain ⟨responses, hpipeline⟩ := Session.reachable_pipeline hsession
  have hbounds := completion_bounds h hhistory htodo hfollows.connection hpipeline.framed hmem
  simp only [Session.system, Session.step]
  rw [if_pos hbounds, hfollows.now]

theorem session_expire {timer : Timer} (htodo : s.todo = []) (h : Follows s timer.id session)
    (hmem : timer ∈ s.timers) (hdue : timer.expiresAt ≤ s.now) :
    Session.system.step session (.expire timer.check) =
      some ({ session with idleChecks := session.idleChecks.erase timer.check }.ran
        (session.connection.closeIfIdle s.now timer.expectedGeneration)) := by
  have hpending : timer.check ∈ session.idleChecks := by
    rw [h.checks, pendingChecks_eq htodo]
    exact List.mem_map_of_mem (List.mem_filter.mpr ⟨hmem, by simp⟩)
  simp only [Session.system, Session.step]
  rw [if_pos ⟨hpending, h.now ▸ hdue⟩, h.now]
  rfl

theorem Follows.eraseTimer {timer : Timer} (h : Follows s timer.id session) (htodo : s.todo = []) :
    Follows { s with timers := s.timers.erase timer } timer.id
      { session with idleChecks := session.idleChecks.erase timer.check } where
  now := h.now
  connection := h.connection
  checks := by
    rw [pendingChecks_eq (by exact htodo), checks_erase, h.checks, pendingChecks_eq htodo]

theorem Follows.eraseOther {timer : Timer} (h : Follows s id session) (hid : id ≠ timer.id) :
    Follows { s with timers := s.timers.erase timer } id session where
  now := h.now
  connection := h.connection
  checks := by
    rw [h.checks, pendingChecks, pendingChecks, checks_erase_other _ hid]
    rfl

theorem Follows.outside (h : Follows s id session) {a : Action} (ht : s.outsideStep a = some t) :
    ∃ session', (session' = session ∨
      ∃ b, Session.system.step session b = some session') ∧ Follows t id session' ∧
        session'.delivered = session.delivered := by
  have stays : Follows t id session → ∃ session', (session' = session ∨
      ∃ b, Session.system.step session b = some session') ∧ Follows t id session' ∧
        session'.delivered = session.delivered :=
    fun hfollows => ⟨session, .inl rfl, hfollows, rfl⟩
  cases a with
  | tick =>
    cases ht
    exact ⟨{ session with now := session.now + 1 }, .inr ⟨.tick 1, rfl⟩,
      ⟨congrArg (· + 1) h.now, h.connection, h.checks⟩, rfl⟩
  | peer other action =>
    cases ht
    exact stays (h.congr rfl rfl rfl rfl rfl)
  | openOther fd | closeOther fd | accept fd | complete other requestId timing result =>
    obtain ⟨-, ht⟩ := Option.ite_none_right_eq_some.mp ht
    cases ht
    exact stays (h.congr rfl rfl rfl rfl rfl)
  | discard | queueEstablish | otherLoop =>
    simp only [outsideStep] at ht
    split at ht <;> cases ht
    exact stays (h.congr rfl rfl rfl rfl rfl)
  | _ => cases ht

/-- One step of the loop is at most one step of the session. -/
theorem Follows.step (hreach : Reachable (system settings) s)
    (hsession : Reachable Session.system session) (h : Follows s id session) {a : Action}
    (ht : s.step settings a = some t) :
    ∃ session', Reachable Session.system session' ∧ Follows t id session' ∧
      Delivers s id session session' := by
  have hs := reachable_sound hreach
  have hhistory := reachable_history hreach
  have stays : Follows t id session → ∃ session', Reachable Session.system session' ∧
      Follows t id session' ∧ Delivers s id session session' :=
    fun hfollows => ⟨session, hsession, hfollows, .inl rfl⟩
  obtain ⟨-, ⟨-, ht'⟩ | ⟨htodo, hmove⟩ | ht'⟩ := step_cases ht
  · exact stays (h.execute ht')
  · cases hmove with
    | wait | drop | swap | endBatch | endTasks | endTimers =>
      exact stays (h.congr rfl rfl rfl rfl rfl)
    | @deliver event batch reads writes counter actor hphase hbatch hfound =>
      have hbase : Follows { s with
          batch := batch
          dispatched := s.dispatched ++ [⟨event.registrant, s.channels event.fd⟩] } id session :=
        h.congr rfl rfl rfl rfl rfl
      by_cases hid : id = actor
      · subst hid
        exact ⟨_, .next hsession (session_event hs htodo h hbatch hfound reads writes),
          hbase.handler htodo _, .inl rfl⟩
      · exact stays (hbase.handlerOther htodo hid _)
    | @establish fd other tasks writes hphase htasks =>
      have hid : id ≠ other := by
        rintro rfl
        have hupcoming : (fd, id) ∈ s.upcoming := mem_upcoming_of_tasks (by simp [htasks])
        obtain ⟨-, hnone⟩ := hs.ownership.upcoming _ hupcoming
        simp [h.connection] at hnone
      have hbase : Follows { s with tasks := tasks } id session := h.congr rfl rfl rfl rfl rfl
      exact stays (hbase.enterOther htodo hid ..)
    | @finishRequest actor requestId timing result tasks writes hphase htasks =>
      have hbase : Follows { s with tasks := tasks } id session := h.congr rfl rfl rfl rfl rfl
      by_cases hid : id = actor
      · subst hid
        have hmem : .finishRequest id requestId timing result ∈ s.tasks := by simp [htasks]
        have hstep := session_completion hs hhistory hsession htodo h hmem writes
        have hran := hbase.handler htodo
          (TcpConnection.finishRequest s.now requestId timing result writes)
        exact ⟨{ session.ran _ with delivered := session.delivered ++ [(requestId, result)] },
          .next hsession hstep, ⟨hran.now, hran.connection, hran.checks⟩,
          .inr ⟨requestId, timing, result, hmem, rfl⟩⟩
      · exact stays (hbase.handlerOther htodo hid _)
    | @runTimer timer now hphase hmem =>
      by_cases hid : id = timer.id
      · subst hid
        obtain ⟨now', hphase', hdue⟩ := runTimer_due ht
        have hstep := session_expire htodo h hmem
          (hdue.trans (reachable_timers_le hreach now' hphase'))
        exact ⟨_, .next hsession hstep, (h.eraseTimer htodo).handler htodo _, .inl rfl⟩
      · exact stays ((h.eraseOther hid).handlerOther htodo hid _)
  · obtain ⟨session', hstep, hfollows, hdelivered⟩ := h.outside ht'
    rcases hstep with rfl | ⟨b, hstep⟩
    · exact stays hfollows
    · exact ⟨session', .next hsession hstep, hfollows, .inl hdelivered⟩

theorem connection_established {a : Action} (ht : s.step settings a = some t)
    (hnone : s.connections id = none) {c : TcpConnection} (hc : t.connections id = some c) :
    s.todo = [] ∧ ∃ fd tasks writes, s.tasks = .establish fd id :: tasks ∧
      t = { s with tasks := tasks }.runTask settings writes (.establish fd id) := by
  have same : t.connections id = s.connections id → False := fun heq => by
    rw [heq, hnone] at hc
    cases hc
  have handler : ∀ (u : Server) (actor : Nat) (handler : TcpConnection → TcpConnection),
      u.connections = s.connections → (u.runHandler actor handler).connections id = none := by
    intro u actor handler hu
    unfold runHandler
    split
    · rw [hu, hnone]
    · rename_i c' hc'
      have hne : id ≠ actor := by
        rintro rfl
        rw [hu, hnone] at hc'
        cases hc'
      exact (Function.update_of_ne hne ..).trans (hu ▸ hnone)
  obtain ⟨-, ⟨-, ht'⟩ | ⟨htodo, hmove⟩ | ht'⟩ := step_cases ht
  · unfold execute at ht'
    split at ht' <;> cases ht'
    exact (same (congrFun (perform_frame ..).connections id)).elim
  · cases hmove with
    | wait | drop | swap | endBatch | endTasks | endTimers => exact (same rfl).elim
    | deliver | finishRequest | runTimer =>
      refine (same ?_).elim
      rw [hnone]
      exact handler _ _ _ rfl
    | @establish fd other tasks writes hphase htasks =>
      have hid : id = other := by
        by_contra hid
        exact same (Function.update_of_ne hid ..)
      subst hid
      exact ⟨htodo, fd, tasks, writes, htasks, rfl⟩
  · exact (same (congrFun (outsideStep_frame ht').connections id)).elim

theorem reachable_follows (h : Reachable (system settings) s) : ∀ id c, s.connections id = some c →
    ∃ session, Reachable Session.system session ∧ Follows s id session := by
  refine h.invariant (P := fun s => ∀ id c, s.connections id = some c →
    ∃ session, Reachable Session.system session ∧ Follows s id session) ?_ ?_
  · rintro _ ⟨now, peers, files, rfl⟩ id c hc
    cases hc
  · intro s a t hreach ih ht id c hc
    have hs := reachable_sound hreach
    cases hbefore : s.connections id with
    | some c' =>
      obtain ⟨session, hsession, hfollows⟩ := ih id c' hbefore
      obtain ⟨session', hsession', hfollows', -⟩ := hfollows.step hreach hsession ht
      exact ⟨session', hsession', hfollows'⟩
    | none =>
      obtain ⟨-, fd, tasks, writes, htasks, rfl⟩ := connection_established ht hbefore hc
      obtain ⟨hfd, hfollows⟩ := follows_establish hs (reachable_history hreach) htasks writes
      exact ⟨_, .start ⟨_, _, _, _, hfd, rfl⟩, hfollows⟩

/-- Every connection of a loop goes through what a session of its own goes through. -/
theorem connection_session (h : Reachable (system settings) s) :
    ∀ id c, s.connections id = some c →
      ∃ session, Reachable Session.system session ∧ session.connection = c ∧
        session.now = s.now ∧ session.idleChecks = s.pendingChecks id := by
  intro id c hc
  obtain ⟨session, hsession, hfollows⟩ := reachable_follows h id c hc
  exact ⟨session, hsession, Option.some.inj (hfollows.connection.symm.trans hc), hfollows.now,
    hfollows.checks⟩

theorem reusedState_session :
    (reusedState.connections 0).map TcpConnection.fd = some (-1) ∧
      ∀ id c, reusedState.connections id = some c →
        ∃ session, Reachable Session.system session ∧ session.connection = c ∧
          session.now = reusedState.now ∧ session.idleChecks = reusedState.pendingChecks id :=
  ⟨by decide +kernel, connection_session
    (Reachable.run (.start ⟨_, _, _, rfl⟩) (Option.some_get _).symm)⟩

end Server

namespace Session

open TcpConnection

def OneCheck (s : Session) : Prop :=
  s.idleChecks.length ≤ 1 ∧ (0 ≤ s.connection.fd → s.idleChecks ≠ [])

theorem OneCheck.ran {s : Session} (h : OneCheck s) {now : Nat} {c : TcpConnection}
    (htimed : Timed now s.connection c) : OneCheck (s.ran c) := by
  obtain ⟨more, hcalls, hchecks, -⟩ := htimed.calls
  have hsame : (s.ran c).idleChecks = s.idleChecks := by
    simp [Session.ran, hcalls, hchecks]
  rw [OneCheck, hsame]
  exact ⟨h.1, fun hopen => h.2 (htimed.opened hopen)⟩

theorem OneCheck.expire {s : Session} (h : OneCheck s) {check : Nat × Nat}
    (hmem : check ∈ s.idleChecks) :
    OneCheck ({ s with idleChecks := s.idleChecks.erase check }.ran
      (s.connection.closeIfIdle s.now check.2)) := by
  have hnone : s.idleChecks.erase check = [] := by
    have hlength := h.1
    rw [← List.length_eq_zero_iff, List.length_erase_of_mem hmem]
    omega
  unfold closeIfIdle
  split_ifs with hclosed
  · refine ⟨by simp [Session.ran, hnone], fun hopen => ?_⟩
    have hopen : 0 ≤ s.connection.fd := hopen
    omega
  · simp [OneCheck, Session.ran, scheduleIdleCheck, TcpConnection.call, hnone]
  · simp [OneCheck, Session.ran, scheduleIdleCheck, TcpConnection.call, hnone]
  · refine ⟨?_, fun hopen => absurd hopen (close_not_open _)⟩
    simp [Session.ran, close_eq, hclosed, hnone]

theorem reachable_oneCheck {s : Session} (h : Reachable system s) : OneCheck s := by
  refine h.invariant ?_ fun s a t _ ih ht => ?_
  · rintro s ⟨now, fd, idleTimeout, latencyMetrics, -, rfl⟩
    simp [OneCheck, established, TcpConnection.new, establish, scheduleIdleCheck, markActivity,
      TcpConnection.call]
  · rcases step_cases ht with ⟨elapsed, -, rfl⟩ | ⟨revents, reads, writes, -, -, -, rfl⟩ |
      ⟨requestId, timing, result, writes, -, -, -, rfl⟩ | ⟨check, -, hmem, -, rfl⟩
    · exact ih
    · exact ih.ran (handleEvent_timed ..)
    · exact ih.ran (finishRequest_timed ..)
    · exact ih.expire hmem

end Session

namespace Server

variable {settings : Settings} {s : Server}

/-- The timer queue of a loop does not grow with the requests: it has at most one entry for
each connection, and an open connection has one, or its handler is about to ask for it. -/
structure TimersBounded (s : Server) : Prop where
  distinct : (s.timers.map Timer.id).Nodup
  accepted : ∀ timer ∈ s.timers, timer.id < s.accepted.length
  length_le : s.timers.length ≤ s.accepted.length
  pending : ∀ id c, s.connections id = some c → 0 ≤ c.fd → (s.pendingChecks id).length = 1

theorem server_timersBounded (h : Reachable (system settings) s) : TimersBounded s := by
  have hs := reachable_sound h
  have hhistory := reachable_history h
  have hmade : ∀ timer ∈ s.timers, ∃ c, s.connections timer.id = some c := by
    intro timer hmem
    by_contra hnone
    have hexecuted := hhistory.timers timer hmem
    rw [hs.tables.fresh timer.id (by simpa [Option.eq_none_iff_forall_ne_some] using hnone)]
      at hexecuted
    cases hexecuted
  have hcount : ∀ id, (s.timers.map Timer.id).count id =
      (s.timers.filter fun timer => timer.id = id).length := by
    intro id
    rw [List.count, List.countP_map, List.countP_eq_length_filter]
    rfl
  have hdistinct : (s.timers.map Timer.id).Nodup := by
    rw [List.nodup_iff_count_le_one]
    intro id
    by_cases hid : id ∈ s.timers.map Timer.id
    · obtain ⟨timer, hmem, rfl⟩ := List.mem_map.mp hid
      obtain ⟨c, hc⟩ := hmade timer hmem
      obtain ⟨session, hsession, -, -, hchecks⟩ := reachable_follows h _ c hc
      have hone := (Session.reachable_oneCheck hsession).1
      simp only [hchecks, pendingChecks, List.length_append, List.length_map] at hone
      rw [hcount]
      omega
    · rw [List.count_eq_zero_of_not_mem hid]
      exact Nat.zero_le _
  have haccepted : ∀ timer ∈ s.timers, timer.id < s.accepted.length := by
    intro timer hmem
    obtain ⟨c, hc⟩ := hmade timer hmem
    obtain ⟨fd, hest⟩ := hs.tables.established _ c hc
    exact (List.getElem?_eq_some_iff.mp hest.accepted).1
  refine ⟨hdistinct, haccepted, ?_, ?_⟩
  · have hsubset : s.timers.map Timer.id ⊆ List.range s.accepted.length := by
      intro id hid
      obtain ⟨timer, hmem, rfl⟩ := List.mem_map.mp hid
      exact List.mem_range.mpr (haccepted timer hmem)
    simpa using (List.subperm_of_subset hdistinct hsubset).length_le
  · intro id c hc hopen
    obtain ⟨session, hsession, hfollows⟩ := reachable_follows h id c hc
    obtain rfl : session.connection = c := Option.some.inj (hfollows.connection.symm.trans hc)
    obtain ⟨hone, hsome⟩ := Session.reachable_oneCheck hsession
    rw [hfollows.checks] at hone hsome
    exact le_antisymm hone (List.length_pos_iff.mpr (hsome hopen))

theorem reusedState_timersBounded :
    reusedState.timers = [⟨60000, 1, 0⟩] ∧ TimersBounded reusedState :=
  ⟨by decide +kernel, server_timersBounded
    (Reachable.run (.start ⟨_, _, _, rfl⟩) (Option.some_get _).symm)⟩

end Server

end CppSearchServer.Net
