import CppSearchServer.Main.Shutdown
import CppSearchServer.Net.ServerSessions

/-! Whose completion a connection gets.
A request leaves its loop as a task, the task is started by one worker, and that worker
alone passes results back for it. So whatever is known of the results of tasks is known of
the responses of every connection. -/

namespace CppSearchServer.Net.Server

open Library.TransitionSystem

variable {settings : Settings} {s t : Server} {id : Nat}

theorem executed_of_step (hs : Sound settings s) {a : Action} (ht : s.step settings a = some t)
    (id : Nat) : s.executed id <+: t.executed id := by
  obtain ⟨-, ⟨-, ht⟩ | ⟨-, hmove⟩ | ht⟩ := step_cases ht
  · obtain ⟨made, todo, fd, c, stage, stage', hstep⟩ := execute_callStep hs ht
    by_cases hid : id = s.active
    · subst hid
      rw [hstep.executed_active]
      exact List.prefix_append ..
    · rw [hstep.executed_of_ne hid]
  · rw [(loopStep_frame hs hmove).executed]
  · rw [(outsideStep_frame ht).executed]

theorem finishRequest_of_step (hs : Sound settings s) {a : Action}
    (ht : s.step settings a = some t) {requestId : Nat} {timing : RequestTimingPtr}
    {result : ResponseResult}
    (hmem : .finishRequest id requestId timing result ∈ t.tasks ++ t.pendingTasks) :
    .finishRequest id requestId timing result ∈ s.tasks ++ s.pendingTasks ∨
      a = .complete id requestId timing result := by
  obtain ⟨-, ⟨-, ht⟩ | ⟨-, hmove⟩ | ht⟩ := step_cases ht
  · obtain ⟨made, todo, fd, c, stage, stage', hstep⟩ := execute_callStep hs ht
    have htasks : t.tasks = s.tasks := hstep.frame.tasks
    have hpending : t.pendingTasks = s.pendingTasks := hstep.frame.pendingTasks
    exact .inl (by rwa [htasks, hpending] at hmem)
  · exact .inl ((loopStep_frame hs hmove).tasks _ hmem)
  · cases a with
    | tick | peer other action =>
      cases ht
      exact .inl hmem
    | openOther fd | closeOther fd | accept fd =>
      obtain ⟨-, ht⟩ := Option.ite_none_right_eq_some.mp ht
      cases ht
      exact .inl hmem
    | discard | otherLoop =>
      simp only [outsideStep] at ht
      split at ht <;> cases ht
      exact .inl hmem
    | queueEstablish =>
      simp only [outsideStep] at ht
      split at ht <;> cases ht
      exact .inl (by simpa using hmem)
    | complete other otherId otherTiming otherResult =>
      obtain ⟨-, ht⟩ := Option.ite_none_right_eq_some.mp ht
      cases ht
      have hmem : _ ∈ s.tasks ++ (s.pendingTasks ++ [_]) := hmem
      rw [← List.append_assoc, List.mem_append, List.mem_singleton] at hmem
      refine hmem.imp_right fun heq => ?_
      cases heq
      rfl
    | _ => cases ht

end CppSearchServer.Net.Server

namespace CppSearchServer.Net

def Call.handedPair : Call → Option (Nat × Bytes)
  | .requestHandler requestId _ request => some (requestId, request)
  | _ => none

theorem map_handedPair (calls : List Call) :
    (calls.filterMap Call.handedPair).map Prod.fst = handedIds calls ∧
      (calls.filterMap Call.handedPair).map Prod.snd = handed calls := by
  rw [List.map_filterMap, List.map_filterMap, handedIds, handed]
  constructor <;>
  · congr 1
    funext made
    cases made <;> rfl

theorem handed_of_id {calls : List Call} {g k : Nat} {timing : RequestTimingPtr} {request : Bytes}
    (hids : handedIds calls = List.range' 1 g)
    (hmem : .requestHandler (k + 1) timing request ∈ calls) :
    (handed calls)[k]? = some request := by
  obtain ⟨hfst, hsnd⟩ := map_handedPair calls
  have hpairs : (k + 1, request) ∈ calls.filterMap Call.handedPair :=
    List.mem_filterMap.mpr ⟨_, hmem, rfl⟩
  obtain ⟨j, hj, hpair⟩ := List.mem_iff_getElem.mp hpairs
  have hat : (handedIds calls)[j]? = some (k + 1) := by
    rw [← hfst, List.getElem?_map, List.getElem?_eq_getElem hj, hpair]
    rfl
  obtain rfl : j = k := by
    rw [hids] at hat
    obtain ⟨hlt, hat⟩ := List.getElem?_eq_some_iff.mp hat
    rw [List.getElem_range'] at hat
    omega
  rw [← hsnd, List.getElem?_map, List.getElem?_eq_getElem hj, hpair]
  rfl

end CppSearchServer.Net

namespace CppSearchServer.Concurrency.WorkerPool

open Library.TransitionSystem

variable {n : Nat} {Caller Task : Type*} [DecidableEq Caller] {s t : WorkerPool n Caller Task}

theorem started_of_step {a : Action n Caller Task} (ht : s.step a = some t) :
    s.started <+: t.started := by
  cases step_move ht with
  | submit thread task =>
    unfold submit
    split <;> exact List.prefix_rfl
  | takeTask =>
    unfold takeTask
    split
    · exact List.prefix_rfl
    · exact List.prefix_rfl
    · exact List.prefix_append ..
  | _ => exact List.prefix_rfl

theorem running_started (h : Reachable (system n Caller Task) s) {w : Fin n} {task : Task}
    (hrunning : s.workers w = .running task) : (w, task) ∈ s.started := by
  refine h.invariant (P := fun s => s.workers w = .running task → (w, task) ∈ s.started) ?_ ?_
    hrunning
  · intro s hs hrunning
    obtain ⟨-, hs⟩ := Option.ite_none_left_eq_some.mp hs
    cases hs
    cases hrunning
  · intro s a t _ ih ht hrunning
    rcases workers_of_step ht w with heq | ⟨-, hwoken⟩ | ⟨-, rfl⟩ | ⟨-, hready, -⟩
    · exact (started_of_step ht).subset (ih (heq ▸ hrunning))
    · rw [hwoken] at hrunning
      cases hrunning
    · unfold takeTask at hrunning ⊢
      split at hrunning
      · simp [setWorker] at hrunning
      · simp [setWorker] at hrunning
      · rename_i head rest htasks
        obtain rfl : head = task := by simpa [setWorker] using hrunning
        simp
    · rw [hready] at hrunning
      cases hrunning

end CppSearchServer.Concurrency.WorkerPool

namespace CppSearchServer.Main.ServeWithEventLoop

open Net Concurrency Library.TransitionSystem

variable {m n : Nat} {settings : Fin m → Settings} {s t : ServeWithEventLoop m n}
  {a : Action m n}

structure Submits (settings : Fin m → Settings) (s t : ServeWithEventLoop m n)
    (task : Submission m) : Prop where
  todo : ∃ todo, (s.servers task.loop).todo =
    .requestHandler task.requestId task.timing task.request :: todo
  active : task.id = (s.servers task.loop).active
  step : (s.servers task.loop).step (settings task.loop) .execute = some (t.servers task.loop)
  accepted : t.pool.accepted = s.pool.accepted ++ [task]
  tasks : t.pool.tasks = s.pool.tasks ++ [task]

/-- The step of a loop. A completion is that of a task being run, and a request is handed over
to the pool. -/
structure ServerTurn (settings : Fin m → Settings) (s : ServeWithEventLoop m n) (a : Action m n)
    (t : ServeWithEventLoop m n) (i : Fin m) (b : Server.Action) : Prop where
  step : (s.servers i).step (settings i) b = some (t.servers i)
  others : ∀ j ≠ i, t.servers j = s.servers j
  completes : ∀ id requestId timing result, b = .complete id requestId timing result →
    ∃ w task, a = .worker w (.complete result) ∧ s.pool.workers w = .running task ∧
      i = task.loop ∧ id = task.id ∧ requestId = task.requestId
  submits : ∀ requestId timing request todo, b = .execute →
    (s.servers i).todo = .requestHandler requestId timing request :: todo →
      Submits settings s t ⟨i, (s.servers i).active, requestId, timing, request⟩

structure Turn (settings : Fin m → Settings) (s : ServeWithEventLoop m n) (a : Action m n)
    (t : ServeWithEventLoop m n) : Prop where
  servers : t.servers = s.servers ∨ ∃ i b, ServerTurn settings s a t i b
  pool : t.pool = s.pool ∨ ∃ b, s.pool.step b = some t.pool ∧
    (∀ w outcome, b = .finish w outcome → a = .worker w (.finish outcome)) ∧
      ∀ w, b = .takeTask w → a = .worker w .takeTask
  accepted : t.pool.accepted = s.pool.accepted ∨ ∃ task, Submits settings s t task

theorem Turn.idle (hservers : t.servers = s.servers) (hpool : t.pool = s.pool) :
    Turn settings s a t :=
  ⟨.inl hservers, .inl hpool, .inl (by rw [hpool])⟩

theorem Turn.useLoop {i : Fin m} {next : ServeWithEventLoop m n} (h : Turn settings s a next) :
    Turn settings s a (useLoop i s next) := by
  unfold ServeWithEventLoop.useLoop
  split
  · exact .idle rfl rfl
  · exact h

theorem Turn.serve {i : Fin m} {b : Server.Action} {u : ServeWithEventLoop m n}
    (hu : s.serve settings i b = some u)
    (hcompletes : ∀ id requestId timing result, b = .complete id requestId timing result →
      ∃ w task, a = .worker w (.complete result) ∧ s.pool.workers w = .running task ∧
        i = task.loop ∧ id = task.id ∧ requestId = task.requestId)
    (hexecute : b = .execute → ∀ requestId timing request todo,
      (s.servers i).todo ≠ .requestHandler requestId timing request :: todo)
    (hservers : t.servers = u.servers) (hpool : t.pool = u.pool) : Turn settings s a t := by
  obtain ⟨server, hserver, rfl⟩ := serve_cases hu
  have hpool : t.pool = s.pool := hpool
  refine ⟨.inr ⟨i, b, ?_, fun j hj => ?_, hcompletes,
    fun requestId timing request todo heq htodo => (hexecute heq _ _ _ _ htodo).elim⟩,
    .inl hpool, .inl (by rw [hpool])⟩
  · rw [hservers]
    simpa using hserver
  · rw [hservers]
    exact Function.update_of_ne hj ..

theorem Turn.poolStep {b : Concurrency.Action n (Fin m) (Submission m)}
    (hb : s.pool.step b = some t.pool) (hservers : t.servers = s.servers)
    (hsubmit : ∀ thread task, b ≠ .submit thread task)
    (hfinish : ∀ w outcome, b = .finish w outcome → a = .worker w (.finish outcome))
    (htake : ∀ w, b = .takeTask w → a = .worker w .takeTask) : Turn settings s a t := by
  refine ⟨.inl hservers, .inr ⟨b, hb, hfinish, htake⟩, ?_⟩
  exact (WorkerPool.accepted_of_step hb).imp_right
    fun ⟨thread, task, heq, _⟩ => absurd heq (hsubmit thread task)

theorem Turn.usePool {b : Concurrency.Action n (Fin m) (Submission m)}
    (ht : s.usePool b = some t) (hsubmit : ∀ thread task, b ≠ .submit thread task)
    (hfinish : ∀ w outcome, b = .finish w outcome → a = .worker w (.finish outcome))
    (htake : ∀ w, b = .takeTask w → a = .worker w .takeTask) : Turn settings s a t := by
  obtain ⟨pool, hpool, rfl⟩ := Option.map_eq_some_iff.mp ht
  split
  · exact .idle rfl rfl
  · exact .poolStep (t := { s with pool := pool }) hpool rfl hsubmit hfinish htake

theorem mainStep_turn {b : MainAction m} (ht : s.mainStep settings b = some t) :
    Turn settings s (.main b) t := by
  cases mainStep_move ht with
  | accept _ hu | discard _ hu => exact .serve hu nofun nofun rfl rfl
  | queueInLoop _ hu => exact .useLoop (.serve hu nofun nofun rfl rfl)
  | wakeup | wakeupQuit | quit => exact .useLoop (.idle rfl rfl)
  | stop _ hpool | notifyAll _ hpool => exact .poolStep hpool rfl nofun nofun nofun
  | _ => exact .idle rfl rfl

theorem workerStep_turn {w : Fin n} {b : WorkerAction} (ht : s.workerStep settings w b = some t) :
    Turn settings s (.worker w b) t := by
  cases workerStep_move ht with
  | wakeUp ht => exact .usePool ht nofun nofun nofun
  | takeTask ht => exact .usePool ht nofun nofun fun v heq => by cases heq; rfl
  | @complete task _ _ hrunning _ hu =>
    refine .useLoop (.serve hu ?_ nofun rfl rfl)
    intro id requestId timing result' heq
    cases heq
    exact ⟨w, task, rfl, hrunning, rfl, rfl, rfl⟩
  | wakeup => exact .useLoop (.idle rfl rfl)
  | finish _ ht => exact .usePool ht nofun (fun v _ heq => by cases heq; rfl) nofun

theorem submit_turn {i : Fin m} (ht : s.submit settings i = some t) :
    Turn settings s (.loop i .submit) t := by
  unfold ServeWithEventLoop.submit at ht
  split at ht
  · rename_i requestId timing request todo htodo
    split_ifs at ht with hdestroyed hstopping
    · cases ht
      exact .idle rfl rfl
    · cases ht
      exact .idle rfl rfl
    · obtain ⟨pool, hpool, ht⟩ := Option.bind_eq_some_iff.mp ht
      obtain ⟨server, hserver, rfl⟩ := serve_cases ht
      have hstep : (s.servers i).step (settings i) .execute =
          some ((Function.update s.servers i server) i) := by simpa using hserver
      have hadded : pool.accepted = s.pool.accepted ++
            [⟨i, (s.servers i).active, requestId, timing, request⟩] ∧
          pool.tasks = s.pool.tasks ++
            [⟨i, (s.servers i).active, requestId, timing, request⟩] := by
        obtain ⟨-, hpool⟩ := Option.ite_none_right_eq_some.mp hpool
        cases hpool
        simp [WorkerPool.submit, hstopping]
      have hsubmits : Submits settings s
          { s with pool := pool, servers := Function.update s.servers i server }
          ⟨i, (s.servers i).active, requestId, timing, request⟩ :=
        ⟨⟨todo, htodo⟩, rfl, hstep, hadded.1, hadded.2⟩
      refine ⟨.inr ⟨i, .execute, hstep, fun j hj => Function.update_of_ne hj .., by simp, ?_⟩,
        .inr ⟨_, hpool, by simp, by simp⟩, .inr ⟨_, hsubmits⟩⟩
      intro requestId' timing' request' todo' _ htodo'
      rw [htodo] at htodo'
      cases htodo'
      exact hsubmits
  · cases ht

theorem loopStep_turn {i : Fin m} {b : LoopAction n} (ht : s.loopStep settings i b = some t) :
    Turn settings s (.loop i b) t := by
  cases loopStep_move ht with
  | check | clear | destroy => exact .idle rfl rfl
  | execute hother _ ht =>
    exact .serve ht nofun (fun _ requestId timing request todo htodo =>
      hother requestId timing request todo htodo) rfl rfl
  | move hafter _ hu =>
    refine .serve hu ?_ ?_ rfl rfl
    · rintro _ _ _ _ rfl
      cases hafter
    · rintro rfl
      cases hafter
  | submit _ ht => exact submit_turn ht
  | notifyOne ht => exact .usePool ht nofun nofun nofun

theorem step_turn (ht : s.step settings a = some t) : Turn settings s a t := by
  obtain ⟨-, ht⟩ := Option.ite_none_right_eq_some.mp ht
  cases a with
  | main b => exact mainStep_turn ht
  | worker w b => exact workerStep_turn ht
  | loop i b => exact loopStep_turn ht
  | outside i b =>
    unfold outsideStep at ht
    dsimp only at ht
    split at ht
    · exact .serve ht nofun nofun rfl rfl
    · exact .serve ht nofun nofun rfl rfl
    · exact .serve ht nofun nofun rfl rfl
    · exact .serve ht nofun nofun rfl rfl
    · cases ht

theorem system_turn {wakeupFds : Fin m → Int} {latencyMetricsEnabled : Bool}
    (ht : (system wakeupFds latencyMetricsEnabled n).step s a = some t) :
    Turn (connectionSettings wakeupFds latencyMetricsEnabled) s a t :=
  step_turn ht

/-- The results a worker passes on are good ones for its task. -/
def Completes (good : Submission m → ResponseResult → Prop) (s : ServeWithEventLoop m n)
    (a : Action m n) : Prop :=
  ∀ w result task, a = .worker w (.complete result) → s.pool.workers w = .running task →
    good task result

/-- A worker has started the task of that request, with a result that is good for it. -/
def Answered (good : Submission m → ResponseResult → Prop) (s : ServeWithEventLoop m n)
    (i : Fin m) (id requestId : Nat) (result : ResponseResult) : Prop :=
  ∃ w timing request, (w, ⟨i, id, requestId, timing, request⟩) ∈ s.pool.started ∧
    good ⟨i, id, requestId, timing, request⟩ result

/-- Every task, queued completion and response goes back to the request it is for. -/
structure Attributed (good : Submission m → ResponseResult → Prop) (s : ServeWithEventLoop m n) :
    Prop where
  accepted : ∀ task ∈ s.pool.accepted,
    .requestHandler task.requestId task.timing task.request ∈
      (s.servers task.loop).executed task.id
  queued : ∀ i id requestId timing result,
    .finishRequest id requestId timing result ∈ (s.servers i).tasks ++ (s.servers i).pendingTasks →
      s.Answered good i id requestId result
  sessions : ∀ i id c, (s.servers i).connections id = some c →
    ∃ session, Reachable Session.system session ∧ (s.servers i).Follows id session ∧
      ∀ d ∈ session.delivered, s.Answered good i id d.1 d.2

section Runs
variable {wakeupFds : Fin m → Int} {latencyMetricsEnabled : Bool}
  {good : Submission m → ResponseResult → Prop}

theorem new_attributed {now : Nat} {peers : Fin m → Nat → Peer} {files : Fin m → Int → Bool}
    (hs : new m n settings now peers files = some s) : Attributed good s := by
  obtain ⟨hpool, hservers, -⟩ := new_cases hs
  obtain ⟨-, hpool⟩ := Option.ite_none_left_eq_some.mp hpool
  refine ⟨fun task hmem => ?_, fun i id requestId timing result hmem => ?_, fun i id c hc => ?_⟩
  · rw [← Option.some.inj hpool] at hmem
    cases hmem
  · rw [hservers] at hmem
    cases hmem
  · rw [hservers] at hc
    cases hc

theorem Turn.started (h : Turn settings s a t) : s.pool.started <+: t.pool.started := by
  rcases h.pool with heq | ⟨b, hb, -⟩
  · rw [heq]
  · exact WorkerPool.started_of_step hb

theorem Turn.running (h : Turn settings s a t) {w : Fin n} {task : Submission m}
    (hrunning : s.pool.workers w = .running task)
    (hends : ∀ outcome, a ≠ .worker w (.finish outcome)) : t.pool.workers w = .running task := by
  rcases h.pool with heq | ⟨b, hb, hfinish, -⟩
  · rw [heq, hrunning]
  · exact WorkerPool.running_of_step hb hrunning fun outcome heq =>
      hends outcome (hfinish w outcome heq)

theorem Answered.turn {i : Fin m} {id requestId : Nat} {result : ResponseResult}
    (hanswered : s.Answered good i id requestId result) (h : Turn settings s a t) :
    t.Answered good i id requestId result := by
  obtain ⟨w, timing, request, hmem, hgood⟩ := hanswered
  exact ⟨w, timing, request, h.started.subset hmem, hgood⟩

theorem Turn.executed (h : Turn settings s a t)
    (hsound : ∀ i, Server.Sound (settings i) (s.servers i)) (i : Fin m) (id : Nat) :
    (s.servers i).executed id <+: (t.servers i).executed id := by
  rcases h.servers with heq | ⟨j, b, hb⟩
  · rw [heq]
  · by_cases hi : i = j
    · subst hi
      exact Server.executed_of_step (hsound i) hb.step id
    · rw [hb.others i hi]

theorem Submits.executed {task : Submission m} (h : Submits settings s t task) :
    .requestHandler task.requestId task.timing task.request ∈
      (t.servers task.loop).executed task.id := by
  obtain ⟨todo, htodo⟩ := h.todo
  obtain ⟨-, hstep⟩ := Option.ite_none_right_eq_some.mp h.step
  rw [Server.execute, htodo] at hstep
  rw [← Option.some.inj hstep, h.active]
  simp [Server.perform, Server.startCall]

theorem Attributed.step (hreach : Reachable (system wakeupFds latencyMetricsEnabled n) s)
    (h : Attributed good s) (hallowed : Completes good s a)
    (ht : (system wakeupFds latencyMetricsEnabled n).step s a = some t) : Attributed good t := by
  have hturn := step_turn ht
  have hservers := fun i => reachable_server hreach i
  have hsound := fun i => Server.reachable_sound (hservers i)
  refine ⟨fun task hmem => ?_, fun i id requestId timing result hmem => ?_, fun i id c hc => ?_⟩
  · rcases hturn.accepted with heq | ⟨added, hadded⟩
    · exact (hturn.executed hsound _ _).subset (h.accepted task (heq ▸ hmem))
    · rw [hadded.accepted] at hmem
      rcases List.mem_append.mp hmem with hmem | hmem
      · exact (hturn.executed hsound _ _).subset (h.accepted task hmem)
      · rw [List.mem_singleton.mp hmem]
        exact hadded.executed
  · rcases hturn.servers with heq | ⟨j, b, hb⟩
    · rw [heq] at hmem
      exact (h.queued i id requestId timing result hmem).turn hturn
    by_cases hi : i = j
    · subst hi
      rcases Server.finishRequest_of_step (hsound i) hb.step hmem with hmem | rfl
      · exact (h.queued i id requestId timing result hmem).turn hturn
      · obtain ⟨w, task, rfl, hrunning, hloop, hid, hrequestId⟩ := hb.completes _ _ _ _ rfl
        have hstarted := WorkerPool.running_started (reachable_pool hreach) hrunning
        have hgood := hallowed w result task rfl hrunning
        subst hloop hid hrequestId
        exact ⟨w, task.timing, task.request, hturn.started.subset hstarted, hgood⟩
    · rw [hb.others i hi] at hmem
      exact (h.queued i id requestId timing result hmem).turn hturn
  · have stays : t.servers i = s.servers i →
        ∃ session, Reachable Session.system session ∧ (t.servers i).Follows id session ∧
          ∀ d ∈ session.delivered, t.Answered good i id d.1 d.2 := by
      intro heq
      rw [heq] at hc ⊢
      obtain ⟨session, hsession, hfollows, hdelivered⟩ := h.sessions i id c hc
      exact ⟨session, hsession, hfollows, fun d hd => (hdelivered d hd).turn hturn⟩
    rcases hturn.servers with heq | ⟨j, b, hb⟩
    · exact stays (by rw [heq])
    by_cases hi : i = j
    · subst hi
      cases hbefore : (s.servers i).connections id with
      | some c' =>
        obtain ⟨session, hsession, hfollows, hdelivered⟩ := h.sessions i id c' hbefore
        obtain ⟨session', hsession', hfollows', hnew⟩ :=
          hfollows.step (hservers i) hsession hb.step
        refine ⟨session', hsession', hfollows', fun d hd => ?_⟩
        rcases hnew with heq | ⟨requestId, timing, result, hmem, heq⟩
        · exact (hdelivered d (heq ▸ hd)).turn hturn
        · rcases List.mem_append.mp (heq ▸ hd) with hd | hd
          · exact (hdelivered d hd).turn hturn
          · rw [List.mem_singleton.mp hd]
            exact (h.queued i id requestId timing result (List.mem_append_left _ hmem)).turn hturn
      | none =>
        obtain ⟨-, fd, tasks, writes, htasks, heq⟩ :=
          Server.connection_established hb.step hbefore hc
        obtain ⟨hfd, hfollows⟩ := Server.follows_establish (hsound i)
          (Server.reachable_history (hservers i)) htasks writes
        exact ⟨_, .start ⟨_, _, _, _, hfd, rfl⟩, heq ▸ hfollows, by simp [Session.established]⟩
    · exact stays (hb.others i hi)

theorem reachable_attributed
    (h : ReachableBy (system wakeupFds latencyMetricsEnabled n) (Completes good) s) :
    Attributed good s := by
  refine h.invariant ?_ fun s a t hreach ih hallowed ht => ih.step hreach hallowed ht
  rintro s ⟨now, peers, files, hs⟩
  exact new_attributed hs

/-- The response to a connection's k-th request was passed on in a task with that request. -/
theorem Attributed.responses (h : Attributed good s)
    (hreach : Reachable (system wakeupFds latencyMetricsEnabled n) s) {i : Fin m} {id : Nat}
    {c : TcpConnection} (hc : (s.servers i).connections id = some c) :
    ∃ delivered responses, Session.Pipeline c delivered responses ∧
      ∀ k (hk : k < responses.length), ∃ w task, (w, task) ∈ s.pool.started ∧
        task.loop = i ∧ task.id = id ∧ task.requestId = k + 1 ∧
          (handed c.calls)[k]? = some task.request ∧ good task responses[k] := by
  obtain ⟨session, hsession, hfollows, hdelivered⟩ := h.sessions i id c hc
  obtain rfl : session.connection = c := Option.some.inj (hfollows.connection.symm.trans hc)
  obtain ⟨responses, hpipeline⟩ := Session.reachable_pipeline hsession
  refine ⟨session.delivered, responses, hpipeline, fun k hk => ?_⟩
  obtain ⟨d, hd, hresult⟩ := Option.map_eq_some_iff.mp (hpipeline.first k hk)
  have hid : d.1 = k + 1 := by simpa using List.find?_some hd
  obtain ⟨w, timing, request, hstarted, hgood⟩ := hdelivered d (List.mem_of_find?_eq_some hd)
  rw [hid] at hstarted hgood
  refine ⟨w, _, hstarted, rfl, rfl, rfl, ?_, hresult ▸ hgood⟩
  have haccepted : (⟨i, id, k + 1, timing, request⟩ : Submission m) ∈ s.pool.accepted := by
    rw [← (WorkerPool.reachable_sound (reachable_pool hreach)).order]
    exact List.mem_append_left _ (List.mem_map_of_mem hstarted)
  have hmade := h.accepted _ haccepted
  have hserver := reachable_server hreach i
  obtain ⟨fd, hest⟩ := (Server.reachable_sound hserver).tables.established id _ hc
  have hmem : .requestHandler (k + 1) timing request ∈ session.connection.calls := by
    rw [hest.calls]
    exact List.mem_append_left _ hmade
  exact handed_of_id hpipeline.framed.ids hmem

end Runs

end CppSearchServer.Main.ServeWithEventLoop
