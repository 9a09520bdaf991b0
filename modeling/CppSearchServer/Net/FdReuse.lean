import CppSearchServer.Net.ServerSteps

/-! Reuse of descriptor numbers is harmless.
Every entry of a batch reaches the connection that was registered when the batch was
returned, or nobody; the code of a connection changes that connection alone; and a
connection uses a number only while it owns it. -/

namespace CppSearchServer.Net.Server

open Library.TransitionSystem

variable {settings : Settings} {s t : Server} {id : Nat}

def actsFor (s : Server) : Action → Option Nat
  | .execute => some s.active
  | .dispatch _ _ _ =>
    match s.batch.head?.bind fun event => s.channels event.fd with
    | some (.connection id) => some id
    | _ => none
  | .runTask _ =>
    match s.tasks.head? with
    | some (.establish _ id) => some id
    | some (.finishRequest id _ _ _) => some id
    | none => none
  | .runTimer timer => some timer.id
  | _ => none

/-- Nothing but connection `id` and its own descriptor has changed. -/
structure Confined (id : Nat) (s t : Server) : Prop where
  connections : ∀ other ≠ id, t.connections other = s.connections other
  executed : ∀ other ≠ id, t.executed other = s.executed other
  opened : ∀ fd, s.opened fd ≠ some (.connection id) → t.opened fd = s.opened fd
  channels : ∀ fd, s.opened fd ≠ some (.connection id) → t.channels fd = s.channels fd
  epoll : ∀ fd, s.opened fd ≠ some (.connection id) → t.epoll fd = s.epoll fd

structure LoopFrame (s : Server) (a : Action) (t : Server) : Prop where
  process : t.process = s.process
  opened : t.opened = s.opened
  closed : t.closed = s.closed
  channels : t.channels = s.channels
  epoll : t.epoll = s.epoll
  connections : ∀ id, s.actsFor a ≠ some id → t.connections id = s.connections id
  executed : t.executed = s.executed
  handedOver : t.handedOver = s.handedOver
  used : t.used = s.used
  timers : ∀ timer ∈ t.timers, timer ∈ s.timers
  tasks : ∀ task ∈ t.tasks ++ t.pendingTasks, task ∈ s.tasks ++ s.pendingTasks
  dispatched : t.dispatched = s.dispatched ∨ ∃ event ∈ s.batch,
    t.dispatched = s.dispatched ++ [⟨event.registrant, s.channels event.fd⟩]

structure HandlerFrame (id : Nat) (s t : Server) : Prop where
  process : t.process = s.process
  opened : t.opened = s.opened
  closed : t.closed = s.closed
  channels : t.channels = s.channels
  epoll : t.epoll = s.epoll
  connections : ∀ other ≠ id, t.connections other = s.connections other
  executed : t.executed = s.executed
  handedOver : t.handedOver = s.handedOver
  used : t.used = s.used
  timers : t.timers = s.timers
  tasks : t.tasks = s.tasks
  pendingTasks : t.pendingTasks = s.pendingTasks
  dispatched : t.dispatched = s.dispatched

theorem enter_frame (s : Server) (id : Nat) (c c' : TcpConnection) :
    HandlerFrame id s (s.enter id c c') :=
  ⟨rfl, rfl, rfl, rfl, rfl, fun _ hne => Function.update_of_ne hne .., rfl, rfl, rfl, rfl, rfl, rfl,
    rfl⟩

theorem runHandler_frame (s : Server) (id : Nat) (handler : TcpConnection → TcpConnection) :
    HandlerFrame id s (s.runHandler id handler) := by
  unfold runHandler
  split
  · exact ⟨rfl, rfl, rfl, rfl, rfl, fun _ _ => rfl, rfl, rfl, rfl, rfl, rfl, rfl, rfl⟩
  · exact enter_frame ..

theorem LoopFrame.handler {u : Server} {a : Action} (h : LoopFrame s a u)
    (hactor : s.actsFor a = some id) (hframe : HandlerFrame id u t) : LoopFrame s a t where
  process := hframe.process.trans h.process
  opened := hframe.opened.trans h.opened
  closed := hframe.closed.trans h.closed
  channels := hframe.channels.trans h.channels
  epoll := hframe.epoll.trans h.epoll
  connections other hne := by
    rw [hframe.connections other fun heq => hne (heq ▸ hactor)]
    exact h.connections other hne
  executed := hframe.executed.trans h.executed
  handedOver := hframe.handedOver.trans h.handedOver
  used := hframe.used.trans h.used
  timers := by rw [hframe.timers]; exact h.timers
  tasks := by rw [hframe.tasks, hframe.pendingTasks]; exact h.tasks
  dispatched := by rw [hframe.dispatched]; exact h.dispatched

theorem LoopFrame.moved {a : Action} (phase : Phase) (batch : List EpollEvent) :
    LoopFrame s a { s with phase := phase, batch := batch } :=
  ⟨rfl, rfl, rfl, rfl, rfl, fun _ _ => rfl, rfl, rfl, rfl, fun _ hmem => hmem, fun _ hmem => hmem,
    .inl rfl⟩

theorem LoopFrame.drop {event : EpollEvent} {batch : List EpollEvent} {a : Action}
    (hbatch : s.batch = event :: batch) : LoopFrame s a { s with
      batch := batch
      dispatched := s.dispatched ++ [⟨event.registrant, s.channels event.fd⟩] } :=
  ⟨rfl, rfl, rfl, rfl, rfl, fun _ _ => rfl, rfl, rfl, rfl, fun _ hmem => hmem, fun _ hmem => hmem,
    .inr ⟨event, by simp [hbatch], rfl⟩⟩

theorem LoopFrame.takeTask {task : LoopTask} {tasks : List LoopTask} {a : Action}
    (htasks : s.tasks = task :: tasks) : LoopFrame s a { s with tasks := tasks } :=
  ⟨rfl, rfl, rfl, rfl, rfl, fun _ _ => rfl, rfl, rfl, rfl, fun _ hmem => hmem,
    fun other hmem => by rw [htasks]; exact List.mem_cons_of_mem _ hmem, .inl rfl⟩

theorem LoopFrame.takeTimer (timer : Timer) {a : Action} :
    LoopFrame s a { s with timers := s.timers.erase timer } :=
  ⟨rfl, rfl, rfl, rfl, rfl, fun _ _ => rfl, rfl, rfl, rfl, fun _ => List.mem_of_mem_erase,
    fun _ hmem => hmem, .inl rfl⟩

theorem loopStep_frame (h : Sound settings s) {a : Action} (hmove : LoopMove settings s a t) :
    LoopFrame s a t := by
  cases hmove with
  | wait | endBatch | endTasks | endTimers => exact .moved ..
  | drop _ hbatch => exact .drop hbatch
  | @swap event batch _ _ hphase hbatch _ =>
    have htasks := h.batch.tasks (by simp [hphase])
    exact ⟨rfl, rfl, rfl, rfl, rfl, fun _ _ => rfl, rfl, rfl, rfl, fun _ hmem => hmem,
      by simp [htasks], .inr ⟨event, by simp [hbatch], rfl⟩⟩
  | deliver _ hbatch hfound =>
    exact (LoopFrame.drop hbatch).handler (by simp [actsFor, hbatch, hfound]) (runHandler_frame ..)
  | establish _ htasks =>
    exact (LoopFrame.takeTask htasks).handler (by simp [actsFor, htasks]) (enter_frame ..)
  | finishRequest _ htasks =>
    exact (LoopFrame.takeTask htasks).handler (by simp [actsFor, htasks]) (runHandler_frame ..)
  | @runTimer timer => exact (LoopFrame.takeTimer timer).handler rfl (runHandler_frame ..)

structure OutsideFrame (s t : Server) : Prop where
  process : t.process = s.process
  channels : t.channels = s.channels
  epoll : t.epoll = s.epoll
  connections : t.connections = s.connections
  executed : t.executed = s.executed
  handedOver : t.handedOver = s.handedOver
  used : t.used = s.used
  timers : t.timers = s.timers
  tasks : ∀ task ∈ t.tasks ++ t.pendingTasks, task ∈ s.tasks ++ s.pendingTasks ∨
    (∃ fd id, task = .establish fd id) ∨ ∃ id requestId timing result,
      task = .finishRequest id requestId timing result ∧ (id, requestId, timing) ∈ s.handedOver
  dispatched : t.dispatched = s.dispatched

theorem outsideStep_frame {a : Action} (ht : s.outsideStep a = some t) : OutsideFrame s t := by
  have hqueued : ∀ {task} {more : LoopTask}, task ∈ s.tasks ++ (s.pendingTasks ++ [more]) →
      task ∈ s.tasks ++ s.pendingTasks ∨ task = more := by
    intro task more hmem
    simpa [or_assoc] using hmem
  cases a with
  | tick | peer id action =>
    cases ht
    exact ⟨rfl, rfl, rfl, rfl, rfl, rfl, rfl, rfl, fun _ => .inl, rfl⟩
  | openOther fd | closeOther fd | accept fd =>
    obtain ⟨-, ht⟩ := Option.ite_none_right_eq_some.mp ht
    cases ht
    exact ⟨rfl, rfl, rfl, rfl, rfl, rfl, rfl, rfl, fun _ => .inl, rfl⟩
  | discard | otherLoop =>
    simp only [Server.outsideStep] at ht
    split at ht <;> cases ht
    exact ⟨rfl, rfl, rfl, rfl, rfl, rfl, rfl, rfl, fun _ => .inl, rfl⟩
  | queueEstablish =>
    simp only [Server.outsideStep] at ht
    split at ht <;> cases ht
    refine ⟨rfl, rfl, rfl, rfl, rfl, rfl, rfl, rfl, fun task hmem => ?_, rfl⟩
    exact (hqueued hmem).imp_right fun heq => .inl ⟨_, _, heq⟩
  | complete id requestId timing result =>
    obtain ⟨hmade, ht⟩ := Option.ite_none_right_eq_some.mp ht
    cases ht
    refine ⟨rfl, rfl, rfl, rfl, rfl, rfl, rfl, rfl, fun task hmem => ?_, rfl⟩
    exact (hqueued hmem).imp_right fun heq => .inr ⟨_, _, _, _, heq, hmade⟩
  | _ => cases ht

/-- The histories: deliveries, uses of descriptors, and who created the timers and the
completions still to come. -/
structure History (s : Server) : Prop where
  delivered : ∀ d ∈ s.dispatched, d.receiver = none ∨ d.receiver = d.registrant
  used : ∀ use ∈ s.used, 0 ≤ use.fd → use.owner = some (.connection use.id)
  timers : ∀ timer ∈ s.timers,
    .runAt timer.expiresAt timer.expectedGeneration ∈ s.executed timer.id
  handedOver : ∀ p ∈ s.handedOver, ∃ request, .requestHandler p.2.1 p.2.2 request ∈ s.executed p.1
  completions : ∀ id requestId timing result,
    .finishRequest id requestId timing result ∈ s.tasks ++ s.pendingTasks →
      (id, requestId, timing) ∈ s.handedOver

theorem perform_timers (s : Server) (made : Call) : ∀ timer ∈ (s.perform made).timers,
    timer ∈ s.timers ∨
      timer.id = s.active ∧ made = .runAt timer.expiresAt timer.expectedGeneration := by
  cases made with
  | addChannel channel => rw [perform, addChannel]; split_ifs <;> exact fun _ => .inl
  | updateChannel channel => rw [perform, updateChannel]; split_ifs <;> exact fun _ => .inl
  | removeChannel fd => rw [perform, removeChannel]; split_ifs <;> exact fun _ => .inl
  | runAt expiresAt expectedGeneration =>
    intro timer hmem
    refine (List.mem_append.mp hmem).imp_right fun heq => ?_
    rw [List.mem_singleton.mp heq]
    exact ⟨rfl, rfl⟩
  | _ => exact fun _ => .inl

theorem perform_handedOver (s : Server) (made : Call) :
    (s.perform made).handedOver = s.handedOver ∨ ∃ requestId timing request,
      made = .requestHandler requestId timing request ∧
        (s.perform made).handedOver = s.handedOver ++ [(s.active, requestId, timing)] := by
  cases made with
  | addChannel channel => rw [perform, addChannel]; split_ifs <;> exact .inl rfl
  | updateChannel channel => rw [perform, updateChannel]; split_ifs <;> exact .inl rfl
  | removeChannel fd => rw [perform, removeChannel]; split_ifs <;> exact .inl rfl
  | requestHandler requestId timing request => exact .inr ⟨_, _, _, rfl, rfl⟩
  | _ => exact .inl rfl

theorem handedOver_subset_perform (s : Server) (made : Call) :
    s.handedOver ⊆ (s.perform made).handedOver := by
  rcases perform_handedOver s made with heq | ⟨_, _, _, -, heq⟩ <;> rw [heq]
  · exact List.Subset.refl _
  · exact List.subset_append_left ..

section CallStep
variable {made : Call} {todo : List Call} {fd : Int} {c : TcpConnection} {stage stage' : Stage}

theorem CallStep.mem_executed (h : CallStep s t made todo fd c stage stage') {other : Call}
    (hmem : other ∈ s.executed id) : other ∈ t.executed id := by
  by_cases hid : id = s.active
  · subst hid
    rw [h.executed_active]
    exact List.mem_append_left _ hmem
  · rwa [h.executed_of_ne hid]

theorem CallStep.made_executed (h : CallStep s t made todo fd c stage stage') :
    made ∈ t.executed s.active := by
  rw [h.executed_active]
  exact List.mem_concat_self

theorem CallStep.history (h : CallStep s t made todo fd c stage stage') (hs : History s) :
    History t where
  delivered := by rw [h.frame.dispatched]; exact hs.delivered
  used use hmem := (h.effect.used use hmem).elim (hs.used use) id
  timers timer hmem := by
    rw [h.result] at hmem
    rcases perform_timers _ made timer hmem with hmem | ⟨hid, heq⟩
    · exact h.mem_executed (hs.timers timer hmem)
    · rw [hid, ← heq]
      exact h.made_executed
  handedOver p hmem := by
    have hold : ∀ p ∈ s.handedOver, ∃ request,
        .requestHandler p.2.1 p.2.2 request ∈ t.executed p.1 := fun p hp =>
      (hs.handedOver p hp).imp fun _ => h.mem_executed
    rw [h.result] at hmem
    rcases perform_handedOver (s.startCall made todo) made with
      heq | ⟨requestId, timing, request, hmade, heq⟩ <;> rw [heq] at hmem
    · exact hold p hmem
    · rcases List.mem_append.mp hmem with hmem | hmem
      · exact hold p hmem
      · rw [List.mem_singleton.mp hmem]
        exact ⟨request, hmade ▸ h.made_executed⟩
  completions id requestId timing result hmem := by
    rw [h.frame.tasks, h.frame.pendingTasks] at hmem
    have hold := hs.completions id requestId timing result hmem
    rw [h.result]
    exact handedOver_subset_perform (s.startCall made todo) made hold

theorem CallStep.confined (h : CallStep s t made todo fd c stage stage') :
    Confined s.active s t where
  connections _ _ := congrFun h.frame.connections _
  executed _ := h.executed_of_ne
  opened _ := h.opened_of_ne
  channels fd' hne := by rw [h.effect.channels, if_neg hne]
  epoll fd' hne := by rw [h.effect.epoll, if_neg hne]

end CallStep

theorem Sound.receiver (h : Sound settings s) {event : EpollEvent} (hmem : event ∈ s.batch) :
    s.channels event.fd = none ∨ s.channels event.fd = event.registrant := by
  rcases h.batch.entries event hmem with hcurrent | hstale
  · cases hcurrent with
    | wakeup hfd hregistrant =>
      have hopened := (h.ownership.wakeup event.fd).mpr hfd
      rw [h.tables.channels, expected_wakeup hopened, hregistrant]
      exact .inr rfl
    | connection hregistrant hopened _ _ =>
      cases hfound : s.channels event.fd with
      | none => exact .inl rfl
      | some owner =>
        have howner := h.tables.owner_of_channels hfound
        rw [hopened] at howner
        exact .inr (howner.symm.trans hregistrant.symm)
  · refine .inl ?_
    have hwakeup : s.opened event.fd ≠ some .wakeup := fun heq =>
      hstale.not_wakeup ((h.ownership.wakeup event.fd).mp heq)
    rw [h.tables.channels, expected_none hwakeup fun id hid =>
      h.tables.fresh id (hstale.unregistered id hid)]
    rfl

theorem History.loopStep (h : History s) (hs : Sound settings s) {a : Action}
    (hframe : LoopFrame s a t) : History t where
  delivered d hmem := by
    rcases hframe.dispatched with heq | ⟨event, hevent, heq⟩ <;> rw [heq] at hmem
    · exact h.delivered d hmem
    · rcases List.mem_append.mp hmem with hmem | hmem
      · exact h.delivered d hmem
      · rw [List.mem_singleton.mp hmem]
        exact hs.receiver hevent
  used := by rw [hframe.used]; exact h.used
  timers timer hmem := by
    rw [hframe.executed]
    exact h.timers timer (hframe.timers timer hmem)
  handedOver := by rw [hframe.handedOver, hframe.executed]; exact h.handedOver
  completions id requestId timing result hmem := by
    rw [hframe.handedOver]
    exact h.completions id requestId timing result (hframe.tasks _ hmem)

theorem History.outsideStep (h : History s) (hframe : OutsideFrame s t) : History t where
  delivered := by rw [hframe.dispatched]; exact h.delivered
  used := by rw [hframe.used]; exact h.used
  timers := by rw [hframe.timers, hframe.executed]; exact h.timers
  handedOver := by rw [hframe.handedOver, hframe.executed]; exact h.handedOver
  completions id requestId timing result hmem := by
    rw [hframe.handedOver]
    rcases hframe.tasks _ hmem with hmem | ⟨_, _, heq⟩ | ⟨_, _, _, _, heq, hmade⟩
    · exact h.completions id requestId timing result hmem
    · cases heq
    · cases heq
      exact hmade

theorem handedOver_subset_of_step (hs : Sound settings s) {a : Action}
    (ht : s.step settings a = some t) : s.handedOver ⊆ t.handedOver := by
  obtain ⟨-, ⟨-, ht⟩ | ⟨-, hmove⟩ | ht⟩ := step_cases ht
  · unfold execute at ht
    split at ht
    · cases ht
    · rename_i made todo _
      cases ht
      exact handedOver_subset_perform (s.startCall made todo) made
  · rw [(loopStep_frame hs hmove).handedOver]
    exact List.Subset.refl _
  · rw [(outsideStep_frame ht).handedOver]
    exact List.Subset.refl _

theorem reachable_history (h : Reachable (system settings) s) : History s := by
  refine h.invariant ?_ fun s a t hreach ih ht => ?_
  · rintro _ ⟨now, peers, files, rfl⟩
    constructor <;> simp [new]
  · have hs := reachable_sound hreach
    obtain ⟨-, ⟨-, ht⟩ | ⟨-, ht⟩ | ht⟩ := step_cases ht
    · obtain ⟨made, todo, fd, c, stage, stage', hstep⟩ := execute_callStep hs ht
      exact hstep.history ih
    · exact ih.loopStep hs (loopStep_frame hs ht)
    · exact ih.outsideStep (outsideStep_frame ht)

/-- The code of a connection reaches that connection and its own descriptor. -/
theorem step_confined (h : Sound settings s) {a : Action} (ht : s.step settings a = some t)
    (hactor : s.actsFor a = some id) : Confined id s t := by
  obtain ⟨-, ⟨rfl, ht'⟩ | ⟨-, ht'⟩ | ht'⟩ := step_cases ht
  · obtain ⟨made, todo, fd, c, stage, stage', hstep⟩ := execute_callStep h ht'
    obtain rfl : s.active = id := Option.some.inj hactor
    exact hstep.confined
  · have hframe := loopStep_frame h ht'
    exact ⟨fun other hne => hframe.connections other fun heq =>
        hne (Option.some.inj (heq.symm.trans hactor)),
      fun _ _ => congrFun hframe.executed _, fun _ _ => congrFun hframe.opened _,
      fun _ _ => congrFun hframe.channels _, fun _ _ => congrFun hframe.epoll _⟩
  · cases a with
    | execute | dispatch | runTask | runTimer => cases ht'
    | _ => cases hactor

theorem step_idle (h : Sound settings s) {a : Action} (ht : s.step settings a = some t)
    (hactor : s.actsFor a = none) :
    t.connections = s.connections ∧ t.channels = s.channels ∧ t.epoll = s.epoll := by
  obtain ⟨-, ⟨rfl, ht'⟩ | ⟨-, ht'⟩ | ht'⟩ := step_cases ht
  · cases hactor
  · have hframe := loopStep_frame h ht'
    refine ⟨?_, hframe.channels, hframe.epoll⟩
    funext id
    exact hframe.connections id (by simp [hactor])
  · have hframe := outsideStep_frame ht'
    exact ⟨hframe.connections, hframe.channels, hframe.epoll⟩

/-- Batch entries, timers and completions reach the connection they were made for;
descriptors are used and closed by their owners, and closed once. -/
structure FdReuseHarmless (settings : Settings) (s : Server) : Prop where
  delivered : ∀ d ∈ s.dispatched, d.receiver = none ∨ d.receiver = d.registrant
  timers : ∀ timer ∈ s.timers,
    .runAt timer.expiresAt timer.expectedGeneration ∈ s.executed timer.id
  completions : ∀ id requestId timing result,
    .finishRequest id requestId timing result ∈ s.tasks ++ s.pendingTasks →
      ∃ request, .requestHandler requestId timing request ∈ s.executed id
  confined : ∀ a t id, s.step settings a = some t → s.actsFor a = some id → Confined id s t
  idle : ∀ a t, s.step settings a = some t → s.actsFor a = none →
    t.connections = s.connections ∧ t.channels = s.channels ∧ t.epoll = s.epoll
  used : ∀ use ∈ s.used, 0 ≤ use.fd → use.owner = some (.connection use.id)
  closed_once : s.closed.Nodup

theorem server_fdReuseHarmless (h : Reachable (system settings) s) :
    FdReuseHarmless settings s where
  delivered := (reachable_history h).delivered
  timers := (reachable_history h).timers
  completions _ _ _ _ hmem := (reachable_history h).handedOver _
    ((reachable_history h).completions _ _ _ _ hmem)
  confined _ _ _ ht := step_confined (reachable_sound h) ht
  idle _ _ ht := step_idle (reachable_sound h) ht
  used := (reachable_history h).used
  closed_once := (reachable_sound h).ownership.closed_nodup

/-- The response closes the first connection on descriptor 5 in the middle of a batch
that still has an entry for it, and `accept` hands the number out again. -/
def reused : List Action :=
  [.accept 5, .queueEstablish, .wait [(3, EPOLLIN)], .dispatch [] [] true, .runTask [], .execute,
   .execute, .endTasks, .endBatch, .endTimers, .wait [(5, EPOLLIN)],
   .dispatch [.bytes (ascii "GET /metrics" ++ headerEnd)] [] false, .execute, .execute, .execute,
   .complete 0 1 none ⟨ascii "ok", true⟩, .endBatch, .endTimers,
   .wait [(3, EPOLLIN), (5, EPOLLIN)], .dispatch [] [] true, .runTask [.bytes 2], .execute,
   .execute, .execute, .execute, .accept 5, .queueEstablish, .endTasks, .dispatch [] [] false]

def sampleSettings : Settings := ⟨3, 60000, none⟩

def reusedState : Server :=
  (run (system sampleSettings) (new sampleSettings 0 (fun _ => .connected) fun _ => false)
    reused).get (by decide +kernel)

theorem reusedState_fdReuseHarmless :
    reusedState.dispatched.getLast? = some ⟨some (.connection 0), none⟩ ∧
      reusedState.opened 5 = some (.connection 1) ∧ reusedState.closed = [0] ∧
      FdReuseHarmless sampleSettings reusedState :=
  ⟨by decide +kernel, by decide +kernel, by decide +kernel, server_fdReuseHarmless
    (Reachable.run (.start ⟨_, _, _, rfl⟩) (Option.some_get _).symm)⟩

end CppSearchServer.Net.Server
