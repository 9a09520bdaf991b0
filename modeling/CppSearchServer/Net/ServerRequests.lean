import CppSearchServer.Net.ServerSessions

/-! Where the loop has the requests of its connections.
While a connection waits for the answer to a request, the loop has still to hand that request
over, or it has done so; and a completion that was queued is still queued. -/

namespace CppSearchServer.Net

open Library.TransitionSystem

namespace TcpConnection

variable {c c' : TcpConnection} {requestId : Nat}

/-- Open, and request `requestId` is the one without a response. -/
def AwaitsAnswer (c : TcpConnection) (requestId : Nat) : Prop :=
  0 ≤ c.fd ∧ c.processingRequest = true ∧ c.requestGeneration = requestId

def HandsOver (calls : List Call) (requestId : Nat) : Prop :=
  ∃ timing request, .requestHandler requestId timing request ∈ calls

theorem handsOver_of_mem {calls : List Call} (hmem : requestId ∈ handedIds calls) :
    HandsOver calls requestId := by
  obtain ⟨made, hmade, hid⟩ := List.mem_filterMap.mp hmem
  cases made with
  | requestHandler id timing request =>
    cases hid
    exact ⟨timing, request, hmade⟩
  | _ => cases hid

theorem Advance.awaits (h : Advance c c') (hframed : c.Framed) (hcalls : c.calls <+: c'.calls)
    (hawaits : c'.AwaitsAnswer requestId) :
    c.AwaitsAnswer requestId ∨ HandsOver (c'.calls.drop c.calls.length) requestId := by
  obtain ⟨hopen, hprocessing, hgeneration⟩ := hawaits
  rcases h.requests with ⟨hp, hg⟩ | ⟨-, -, -, hg⟩
  · exact .inl ⟨h.opened hopen, hp ▸ hprocessing, hg ▸ hgeneration⟩
  · refine .inr (handsOver_of_mem ?_)
    obtain ⟨more, hmore⟩ := hcalls
    have hids := (h.framed hframed).ids
    rw [← hmore, handedIds, List.filterMap_append] at hids
    change handedIds c.calls ++ handedIds more = _ at hids
    rw [hframed.ids, hg, List.range'_concat, List.append_cancel_left_eq] at hids
    rw [← hmore, List.drop_left, hids]
    simp only [List.mem_singleton]
    omega

end TcpConnection

namespace Server

open TcpConnection

variable {settings : Settings} {s t u : Server} {a : Action} {id requestId : Nat}

theorem connection_framed (h : Reachable (system settings) s) {c : TcpConnection}
    (hc : s.connections id = some c) : c.Framed := by
  obtain ⟨session, hsession, hfollows⟩ := reachable_follows h id c hc
  obtain ⟨responses, hpipeline⟩ := Session.reachable_pipeline hsession
  obtain rfl : session.connection = c := Option.some.inj (hfollows.connection.symm.trans hc)
  exact hpipeline.framed

def Awaits (s : Server) (id requestId : Nat) : Prop :=
  ∃ c, s.connections id = some c ∧ c.AwaitsAnswer requestId

def Completed (s : Server) (id requestId : Nat) : Prop :=
  ∃ timing result, .finishRequest id requestId timing result ∈ s.tasks ++ s.pendingTasks

/-- The loop has still to hand the request over, or to run its completion. -/
def Holds (s : Server) (id requestId : Nat) : Prop :=
  HandsOver (s.remaining id) requestId ∨ s.Completed id requestId

def Releases (s : Server) (a : Action) (id requestId : Nat) : Prop :=
  a = .execute ∧ id = s.active ∧ ∃ timing request todo,
    s.todo = .requestHandler requestId timing request :: todo

/-- If the connection waits after the step, the loop holds the request, or the connection
has been waiting and the loop did not hold it or has just handed it over. -/
def Carries (s : Server) (a : Action) (t : Server) (id requestId : Nat) : Prop :=
  t.Awaits id requestId → t.Holds id requestId ∨
    s.Awaits id requestId ∧ (s.Holds id requestId → s.Releases a id requestId)

theorem carries_stays (hconnection : t.connections id = s.connections id)
    (hcalls : HandsOver (s.remaining id) requestId → HandsOver (t.remaining id) requestId)
    (hqueued : s.Completed id requestId → t.Completed id requestId) :
    Carries s a t id requestId := by
  rintro ⟨c, hc, hawaits⟩
  by_cases hholds : s.Holds id requestId
  · exact .inl (hholds.imp hcalls hqueued)
  · exact .inr ⟨⟨c, hconnection ▸ hc, hawaits⟩, fun h => absurd h hholds⟩

theorem carries_enter (htodo : s.todo = []) (hconnections : u.connections = s.connections)
    {actor : Nat} {c c' : TcpConnection}
    (hactor : c'.AwaitsAnswer requestId → HandsOver (c'.calls.drop c.calls.length) requestId ∨
      s.connections actor = some c ∧ c.AwaitsAnswer requestId ∧
        (s.Completed actor requestId → u.Completed actor requestId))
    (hothers : id ≠ actor → s.Completed id requestId → u.Completed id requestId) :
    Carries s a (u.enter actor c c') id requestId := by
  have hempty : ¬HandsOver (s.remaining id) requestId := by
    rintro ⟨timing, request, hmem⟩
    simp [remaining, htodo] at hmem
  by_cases hid : id = actor
  · subst hid
    rintro ⟨c'', hc'', hawaits⟩
    obtain rfl : c' = c'' := by simpa [enter] using hc''
    rcases hactor hawaits with hcalls | ⟨hc, hbefore, hqueued⟩
    · left; left
      simpa [enter, remaining] using hcalls
    · by_cases hholds : s.Completed id requestId
      · exact .inl (.inr (hqueued hholds))
      · exact .inr ⟨⟨c, hc, hbefore⟩, fun h => (h.elim hempty hholds).elim⟩
  · refine carries_stays ?_ (fun h => absurd h hempty) (hothers hid)
    rw [← hconnections]
    exact Function.update_of_ne hid ..

theorem carries_handler (htodo : s.todo = []) (hconnections : u.connections = s.connections)
    {actor : Nat} {handler : TcpConnection → TcpConnection}
    (hactor : ∀ c, s.connections actor = some c → (handler c).AwaitsAnswer requestId →
      HandsOver ((handler c).calls.drop c.calls.length) requestId ∨
        c.AwaitsAnswer requestId ∧ (s.Completed actor requestId → u.Completed actor requestId))
    (hothers : id ≠ actor → s.Completed id requestId → u.Completed id requestId) :
    Carries s a (u.runHandler actor handler) id requestId := by
  unfold runHandler
  split
  · rename_i hnone
    rintro ⟨c, hc, hawaits⟩
    have hid : id ≠ actor := by
      rintro rfl
      rw [hnone] at hc
      cases hc
    refine carries_stays (congrFun hconnections id) (fun h => ?_) (hothers hid) ⟨c, hc, hawaits⟩
    obtain ⟨timing, request, hmem⟩ := h
    simp [remaining, htodo] at hmem
  · rename_i c hc
    have hc : s.connections actor = some c := hconnections ▸ hc
    exact carries_enter htodo hconnections
      (fun hawaits => (hactor c hc hawaits).imp_right fun h => ⟨hc, h⟩) hothers

theorem completed_of_taken {task : LoopTask} {tasks : List LoopTask}
    (htasks : s.tasks = task :: tasks)
    (hother : ∀ timing result, task ≠ .finishRequest id requestId timing result)
    (h : s.Completed id requestId) : Completed { s with tasks := tasks } id requestId := by
  obtain ⟨timing, result, hmem⟩ := h
  refine ⟨timing, result, ?_⟩
  rw [htasks, List.cons_append] at hmem
  exact (List.mem_cons.mp hmem).resolve_left fun heq => hother timing result heq.symm

theorem execute_carries (hs : Sound settings s) (ht : s.execute = some t) (id requestId : Nat) :
    Carries s .execute t id requestId := by
  obtain ⟨made, todo, fd, c, stage, stage', hstep⟩ := execute_callStep hs ht
  have hcompleted : s.Completed id requestId → t.Completed id requestId := by
    rintro ⟨timing, result, hmem⟩
    refine ⟨timing, result, ?_⟩
    rwa [hstep.frame.tasks, hstep.frame.pendingTasks]
  by_cases hreleases : s.Releases .execute id requestId
  · rintro ⟨c, hc, hawaits⟩
    exact .inr ⟨⟨c, hstep.frame.connections ▸ hc, hawaits⟩, fun _ => hreleases⟩
  · refine carries_stays (congrFun hstep.frame.connections id) ?_ hcompleted
    rintro ⟨timing, request, hmem⟩
    refine ⟨timing, request, ?_⟩
    rw [remaining, hstep.frame.active, hstep.frame.todo]
    rw [remaining, hstep.todo_eq] at hmem
    split at hmem
    · rename_i hid
      refine (if_pos hid).symm ▸ (List.mem_cons.mp hmem).resolve_left fun heq => hreleases ?_
      exact ⟨rfl, hid, timing, request, todo, heq ▸ hstep.todo_eq⟩
    · cases hmem

theorem finishRequest_carries (hreach : Reachable (system settings) s) {actor finished : Nat}
    {timing : RequestTimingPtr} {result : ResponseResult} {tasks : List LoopTask}
    {writes : List SendResult}
    (htasks : s.tasks = .finishRequest actor finished timing result :: tasks) {c : TcpConnection}
    (hc : s.connections actor = some c)
    (hawaits : (c.finishRequest s.now finished timing result writes).AwaitsAnswer requestId) :
    HandsOver ((c.finishRequest s.now finished timing result writes).calls.drop c.calls.length)
        requestId ∨
      c.AwaitsAnswer requestId ∧
        (s.Completed actor requestId → Completed { s with tasks := tasks } actor requestId) := by
  rcases TcpConnection.finishRequest_cases s.now finished timing result writes c with
    ⟨heq, hdrop⟩ | ⟨hopen, hprocessing, hfinished, heq⟩
  · rw [heq] at hawaits ⊢
    refine .inr ⟨hawaits, completed_of_taken htasks fun _ _ hsame => ?_⟩
    cases hsame
    exact hdrop hawaits.1 hawaits.2.1 hawaits.2.2.symm
  · left
    rw [heq] at hawaits ⊢
    obtain ⟨more, -, hanswered⟩ := Session.answered_eq c timing result
    have hframed : (c.answered timing result).Framed := by
      obtain ⟨session, hsession, hfollows⟩ := reachable_follows hreach _ c hc
      obtain ⟨responses, hpipeline⟩ := Session.reachable_pipeline hsession
      obtain rfl : session.connection = c := Option.some.inj (hfollows.connection.symm.trans hc)
      exact (hpipeline.accept timing result hopen hprocessing).framed
    rcases (handleWrite_advance s.now writes _).awaits hframed
      (handleWrite_timed ..).calls_extended hawaits with hstill | ⟨timing', request, hmem⟩
    · cases hstill.2.1
    · refine ⟨timing', request, List.drop_subset_drop_left _ ?_ hmem⟩
      simp [hanswered]

theorem completed_of_queued {task : LoopTask} {acceptor : Option (Int × Nat)}
    (h : s.Completed id requestId) :
    Completed { s with acceptor := acceptor, pendingTasks := s.pendingTasks ++ [task] } id
      requestId := by
  obtain ⟨timing, result, hmem⟩ := h
  refine ⟨timing, result, ?_⟩
  change _ ∈ s.tasks ++ (s.pendingTasks ++ [task])
  rw [← List.append_assoc]
  exact List.mem_append_left _ hmem

theorem outsideStep_carries (ht : s.outsideStep a = some t) (id requestId : Nat) :
    Carries s a t id requestId := by
  cases a with
  | tick | peer other action =>
    cases ht
    exact carries_stays rfl (fun h => h) fun h => h
  | openOther fd | closeOther fd | accept fd =>
    obtain ⟨-, ht⟩ := Option.ite_none_right_eq_some.mp ht
    cases ht
    exact carries_stays rfl (fun h => h) fun h => h
  | discard | otherLoop =>
    simp only [Server.outsideStep] at ht
    split at ht <;> cases ht
    exact carries_stays rfl (fun h => h) fun h => h
  | queueEstablish =>
    simp only [Server.outsideStep] at ht
    split at ht <;> cases ht
    exact carries_stays rfl (fun h => h) completed_of_queued
  | complete other finished timing result =>
    obtain ⟨-, ht⟩ := Option.ite_none_right_eq_some.mp ht
    cases ht
    exact carries_stays rfl (fun h => h) completed_of_queued
  | _ => cases ht

/-- No step of a loop loses a request. -/
theorem step_carries (hreach : Reachable (system settings) s) (ht : s.step settings a = some t)
    (id requestId : Nat) : Carries s a t id requestId := by
  have hs := reachable_sound hreach
  obtain ⟨-, ⟨rfl, ht'⟩ | ⟨htodo, hmove⟩ | ht'⟩ := step_cases ht
  · exact execute_carries hs ht' id requestId
  · cases hmove with
    | wait | drop | endBatch | endTasks | endTimers =>
      exact carries_stays rfl (fun h => h) fun h => h
    | swap hphase =>
      refine carries_stays rfl (fun h => h) fun ⟨timing, result, hmem⟩ => ⟨timing, result, ?_⟩
      simpa [hs.batch.tasks (by simp [hphase])] using hmem
    | @deliver event batch reads writes counter actor hphase hbatch hfound =>
      refine carries_handler (u := { s with
          batch := batch
          dispatched := s.dispatched ++ [⟨event.registrant, s.channels event.fd⟩] })
        htodo rfl (fun c hc hawaits => ?_) fun _ h => h
      obtain ⟨fd, hest⟩ := hs.tables.established _ c hc
      have hopened := hs.tables.owner_of_channels hfound
      obtain rfl := hs.ownership.unique hopened hest.accepted
      have hadvance := TcpConnection.handleEvent_advance s.now event.revents reads writes
        (hest.settled htodo hopened).closing
      exact (hadvance.awaits (connection_framed hreach hc) (handleEvent_timed ..).calls_extended
        hawaits).symm.imp_right fun h => ⟨h, fun h => h⟩
    | @establish fd actor tasks writes hphase htasks =>
      have hqueued : s.Completed id requestId → Completed { s with tasks := tasks } id requestId :=
        completed_of_taken htasks nofun
      refine carries_enter (u := { s with tasks := tasks }) htodo rfl (fun hawaits => ?_)
        fun _ => hqueued
      cases hawaits.2.1
    | @finishRequest actor finished timing result tasks writes hphase htasks =>
      have hqueued (hid : id ≠ actor) :
          s.Completed id requestId → Completed { s with tasks := tasks } id requestId :=
        completed_of_taken htasks fun _ _ heq => hid (by cases heq; rfl)
      exact carries_handler (u := { s with tasks := tasks }) htodo rfl
        (fun c hc hawaits => finishRequest_carries hreach htasks hc hawaits) hqueued
    | @runTimer timer now hphase hmem =>
      refine carries_handler (u := { s with timers := s.timers.erase timer }) htodo rfl
        (fun c hc hawaits => ?_) fun _ h => h
      exact ((closeIfIdle_advance ..).awaits (connection_framed hreach hc) (closeIfIdle_extended ..)
        hawaits).symm.imp_right fun h => ⟨h, fun h => h⟩
  · exact outsideStep_carries ht' id requestId

end Server

end CppSearchServer.Net
