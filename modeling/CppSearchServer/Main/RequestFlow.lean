import CppSearchServer.Main.EndToEnd
import CppSearchServer.Net.ServerRequests
import Mathlib.Algebra.Order.BigOperators.Group.Finset

/-! Where a request is between its connection and its answer.
A connection hands over one request at a time, so the queue of the pool holds at most one
task of each; and the request it waits for is always somewhere: with its loop, in that queue,
or with a worker that has not answered. When the threads have nothing to do, none waits. -/

namespace CppSearchServer.Concurrency.WorkerPool

variable {n : Nat} {Caller Task : Type*} [DecidableEq Caller] {s t : WorkerPool n Caller Task}

theorem queued_of_step {a : Action n Caller Task} (ht : s.step a = some t) {task : Task}
    (htask : task ∈ s.tasks) : task ∈ t.tasks ∨
      ∃ w, a = .takeTask w ∧ (s.workers w).atLock = true ∧ t.workers w = .running task := by
  cases step_move ht with
  | submit thread task =>
    unfold submit
    split
    · exact .inl htask
    · exact .inl (List.mem_append_left _ htask)
  | @takeTask w hlock =>
    unfold takeTask
    split
    · exact .inl htask
    · exact .inl htask
    · rename_i head rest htasks
      rw [htasks] at htask
      rcases List.mem_cons.mp htask with rfl | hmem
      · exact .inr ⟨w, rfl, hlock, by simp [setWorker]⟩
      · exact .inl hmem
  | _ => exact .inl htask

end CppSearchServer.Concurrency.WorkerPool

namespace CppSearchServer.Main

open Net Concurrency Search Library.TransitionSystem Library.Framing

namespace Submission

variable {m : Nat}

def connection (task : Submission m) : Fin m × Nat := (task.loop, task.id)

def key (task : Submission m) : (Fin m × Nat) × Nat := (task.connection, task.requestId)

end Submission

namespace ServeWithEventLoop

variable {m n : Nat} {wakeupFds : Fin m → Int} {latencyMetricsEnabled : Bool}
  {s t : ServeWithEventLoop m n}

theorem submitted (h : Reachable (system wakeupFds latencyMetricsEnabled n) s)
    {task : Submission m} (htask : task ∈ s.pool.accepted) :
    ∃ c, (s.servers task.loop).connections task.id = some c ∧
      .requestHandler task.requestId task.timing task.request ∈ c.calls ∧
      task.id < (s.servers task.loop).accepted.length := by
  have hallowed : ReachableBy (system wakeupFds latencyMetricsEnabled n)
      (Completes fun _ _ => True) s := h.reachableBy fun _ _ _ _ _ _ _ => trivial
  have hmade := (reachable_attributed hallowed).accepted task htask
  have hsound := Server.reachable_sound (reachable_server h task.loop)
  cases hc : (s.servers task.loop).connections task.id with
  | none =>
    rw [hsound.tables.fresh _ hc] at hmade
    cases hmade
  | some c =>
    obtain ⟨fd, hest⟩ := hsound.tables.established _ c hc
    refine ⟨c, rfl, ?_, (List.getElem?_eq_some_iff.mp hest.accepted).1⟩
    rw [hest.calls]
    exact List.mem_append_left _ hmade

theorem started_of_lt (h : Reachable (system wakeupFds latencyMetricsEnabled n) s)
    {task : Submission m} (htask : task ∈ s.pool.accepted) {c : TcpConnection}
    (hc : (s.servers task.loop).connections task.id = some c)
    (hlt : task.requestId < c.requestGeneration ∨ c.processingRequest = false) :
    ∃ w other, (w, other) ∈ s.pool.started ∧ other.key = task.key := by
  have hallowed : ReachableBy (system wakeupFds latencyMetricsEnabled n)
      (Completes fun _ _ => True) s := h.reachableBy fun _ _ _ _ _ _ _ => trivial
  obtain ⟨delivered, responses, hpipeline, hanswers⟩ :=
    (reachable_attributed hallowed).responses h hc
  obtain ⟨c', hc', hmade, -⟩ := submitted h htask
  obtain rfl : c = c' := Option.some.inj (hc.symm.trans hc')
  obtain ⟨hpos, hle⟩ := Server.handedId_bounds hpipeline.framed hmade
  have hbalance := hpipeline.balance
  have hanswered : task.requestId - 1 < responses.length := by
    rcases hlt with hlt | hidle
    · split at hbalance <;> omega
    · rw [hidle] at hbalance
      simp only [Bool.false_eq_true, if_false] at hbalance
      omega
  obtain ⟨w, other, hstarted, hloop, hid, hrequestId, -⟩ := hanswers _ hanswered
  refine ⟨w, other, hstarted, ?_⟩
  simp only [Submission.key, Submission.connection, Prod.mk.injEq]
  exact ⟨⟨hloop, hid⟩, by omega⟩

theorem Submits.later (h : Reachable (system wakeupFds latencyMetricsEnabled n) s)
    {task old : Submission m}
    (hsubmits : Submits (connectionSettings wakeupFds latencyMetricsEnabled) s t task)
    (hold : old ∈ s.pool.accepted) (heq : old.connection = task.connection) :
    old.requestId < task.requestId := by
  have hallowed : ReachableBy (system wakeupFds latencyMetricsEnabled n)
      (Completes fun _ _ => True) s := h.reachableBy fun _ _ _ _ _ _ _ => trivial
  obtain ⟨hloop, hid⟩ := Prod.mk.inj heq
  have hserver := reachable_server h task.loop
  have hsound := Server.reachable_sound hserver
  obtain ⟨todo, htodo⟩ := hsubmits.todo
  have hmade := (reachable_attributed hallowed).accepted old hold
  rw [hloop, hid] at hmade
  obtain ⟨c, hc⟩ := hsound.tables.active (by simp [htodo])
  rw [← hsubmits.active] at hc
  obtain ⟨fd, hest⟩ := hsound.tables.established _ c hc
  have hids := (Server.connection_framed hserver hc).ids
  rw [hest.calls, Server.remaining, if_pos hsubmits.active, htodo, handedIds,
    List.filterMap_append] at hids
  have hsorted : (List.range' 1 c.requestGeneration).Pairwise (· < ·) := List.pairwise_lt_range'
  rw [← hids, List.pairwise_append] at hsorted
  exact hsorted.2.2 _ (List.mem_filterMap.mpr ⟨_, hmade, rfl⟩) _
    (List.mem_filterMap.mpr ⟨_, List.mem_cons_self .., rfl⟩)

/-- No request becomes two tasks. -/
theorem reachable_keys (h : Reachable (system wakeupFds latencyMetricsEnabled n) s) :
    (s.pool.accepted.map Submission.key).Nodup := by
  refine h.invariant (P := fun s => (s.pool.accepted.map Submission.key).Nodup) ?_
    fun s a t hreach ih ht => ?_
  · rintro s ⟨now, peers, files, hs⟩
    obtain ⟨hpool, -⟩ := new_cases hs
    obtain ⟨-, hpool⟩ := Option.ite_none_left_eq_some.mp hpool
    rw [← Option.some.inj hpool]
    exact List.nodup_nil
  · rcases (step_turn ht).accepted with heq | ⟨task, hsubmits⟩
    · rwa [heq]
    · rw [hsubmits.accepted, List.map_append, List.nodup_append]
      refine ⟨ih, List.nodup_singleton _, fun key hkey other hother heq => ?_⟩
      obtain ⟨old, hold, rfl⟩ := List.mem_map.mp hkey
      obtain rfl : other = task.key := by simpa using hother
      obtain ⟨hconnection, hrequestId⟩ := Prod.mk.inj heq
      have := hsubmits.later hreach hold hconnection
      omega

theorem started_not_queued (h : Reachable (system wakeupFds latencyMetricsEnabled n) s)
    {w : Fin n} {task other : Submission m} (hstarted : (w, other) ∈ s.pool.started)
    (htask : task ∈ s.pool.tasks) : other.key ≠ task.key := by
  have horder := (WorkerPool.reachable_sound (reachable_pool h)).order
  have hkeys := reachable_keys h
  rw [← horder, List.map_append, List.nodup_append] at hkeys
  exact hkeys.2.2 _ (List.mem_map_of_mem (List.mem_map_of_mem hstarted)) _
    (List.mem_map_of_mem htask)

theorem accepted_of_queued (h : Reachable (system wakeupFds latencyMetricsEnabled n) s)
    {task : Submission m} (htask : task ∈ s.pool.tasks) : task ∈ s.pool.accepted := by
  rw [← (WorkerPool.reachable_sound (reachable_pool h)).order]
  exact List.mem_append_right _ htask

theorem queued_latest (h : Reachable (system wakeupFds latencyMetricsEnabled n) s)
    {task : Submission m} (htask : task ∈ s.pool.tasks) {c : TcpConnection}
    (hc : (s.servers task.loop).connections task.id = some c) :
    c.processingRequest = true ∧ task.requestId = c.requestGeneration := by
  have haccepted := accepted_of_queued h htask
  have hnot : ¬(task.requestId < c.requestGeneration ∨ c.processingRequest = false) := by
    intro hlt
    obtain ⟨w, other, hstarted, hkey⟩ := started_of_lt h haccepted hc hlt
    exact started_not_queued h hstarted htask hkey
  obtain ⟨c', hc', hmade, -⟩ := submitted h haccepted
  obtain rfl : c = c' := Option.some.inj (hc.symm.trans hc')
  have hframed := Server.connection_framed (reachable_server h task.loop) hc
  have hbounds := Server.handedId_bounds hframed hmade
  rw [not_or, Bool.not_eq_false] at hnot
  exact ⟨hnot.2, by omega⟩

/-- Back pressure: the queue of the pool holds one task of each connection at most, and that
is the request the connection waits for. -/
structure QueueBounded (s : ServeWithEventLoop m n) : Prop where
  perConnection : (s.pool.tasks.map Submission.connection).Nodup
  length_le : s.pool.tasks.length ≤ ∑ i, (s.servers i).accepted.length
  latest : ∀ task ∈ s.pool.tasks, ∃ c, (s.servers task.loop).connections task.id = some c ∧
    c.processingRequest = true ∧ task.requestId = c.requestGeneration ∧
      (handed c.calls).getLast? = some task.request

theorem queued_connections (h : Reachable (system wakeupFds latencyMetricsEnabled n) s) :
    (s.pool.tasks.map Submission.connection).Nodup := by
  have hkeys := reachable_keys h
  rw [← (WorkerPool.reachable_sound (reachable_pool h)).order, List.map_append] at hkeys
  rw [List.Nodup, List.pairwise_map]
  refine (List.pairwise_map.mp hkeys.of_append_right).imp_of_mem fun htask hother hne heq => ?_
  rename_i task other
  obtain ⟨c, hc, -⟩ := submitted h (accepted_of_queued h htask)
  have hc' := hc
  obtain ⟨hloop, hid⟩ := Prod.mk.inj heq
  rw [hloop, hid] at hc'
  refine hne (Prod.ext heq ?_)
  exact (queued_latest h htask hc).2.trans (queued_latest h hother hc').2.symm

def acceptedConnections (s : ServeWithEventLoop m n) : Finset (Fin m × Nat) :=
  Finset.univ.biUnion fun i => (Finset.range (s.servers i).accepted.length).image (Prod.mk i)

theorem queued_length (h : Reachable (system wakeupFds latencyMetricsEnabled n) s) :
    s.pool.tasks.length ≤ ∑ i, (s.servers i).accepted.length := by
  have hsubset : (s.pool.tasks.map Submission.connection).toFinset ⊆ s.acceptedConnections := by
    intro connection hmem
    obtain ⟨task, htask, rfl⟩ := List.mem_map.mp (List.mem_toFinset.mp hmem)
    obtain ⟨-, -, -, hlt⟩ := submitted h (accepted_of_queued h htask)
    exact Finset.mem_biUnion.mpr ⟨task.loop, Finset.mem_univ _,
      Finset.mem_image.mpr ⟨task.id, Finset.mem_range.mpr hlt, rfl⟩⟩
  calc s.pool.tasks.length
      = (s.pool.tasks.map Submission.connection).toFinset.card := by
        rw [List.toFinset_card_of_nodup (queued_connections h), List.length_map]
    _ ≤ s.acceptedConnections.card := Finset.card_le_card hsubset
    _ ≤ ∑ i, ((Finset.range (s.servers i).accepted.length).image (Prod.mk i)).card :=
        Finset.card_biUnion_le
    _ ≤ ∑ i, (s.servers i).accepted.length := by
        exact Finset.sum_le_sum fun i _ => Finset.card_image_le.trans_eq (Finset.card_range _)

theorem pool_queueBounded (h : Reachable (system wakeupFds latencyMetricsEnabled n) s) :
    QueueBounded s := by
  refine ⟨queued_connections h, queued_length h, fun task htask => ?_⟩
  obtain ⟨c, hc, hmade, -⟩ := submitted h (accepted_of_queued h htask)
  obtain ⟨hprocessing, hrequestId⟩ := queued_latest h htask hc
  have hframed := Server.connection_framed (reachable_server h task.loop) hc
  obtain ⟨hpos, -⟩ := Server.handedId_bounds hframed hmade
  refine ⟨c, hc, hprocessing, hrequestId, ?_⟩
  have hlast : task.requestId - 1 + 1 = task.requestId := by omega
  rw [List.getLast?_eq_getElem?, hframed.count, ← hrequestId]
  exact handed_of_id hframed.ids (hlast ▸ hmade)

/-- Where a request without a response is. `unanswered` tells which workers have still to
pass on a completion for their tasks. -/
inductive InFlight (unanswered : Fin n → Bool) (s : ServeWithEventLoop m n) (i : Fin m)
    (id requestId : Nat) : Prop where
  | inLoop : (s.servers i).Holds id requestId → InFlight unanswered s i id requestId
  | queued {task : Submission m} : task ∈ s.pool.tasks → task.key = ((i, id), requestId) →
      InFlight unanswered s i id requestId
  | running {w : Fin n} {task : Submission m} : s.pool.workers w = .running task →
      task.key = ((i, id), requestId) → unanswered w = true →
      InFlight unanswered s i id requestId

theorem awaits_of_step (h : Reachable (system wakeupFds latencyMetricsEnabled n) s)
    {a : Action m n} (ht : (system wakeupFds latencyMetricsEnabled n).step s a = some t)
    {i : Fin m} {id requestId : Nat} (hawaits : (t.servers i).Awaits id requestId) :
    (t.servers i).Holds id requestId ∨ (s.servers i).Awaits id requestId ∧
      ((s.servers i).Holds id requestId →
        ∃ task, task ∈ t.pool.tasks ∧ task.key = ((i, id), requestId)) := by
  have stays : t.servers i = s.servers i → (t.servers i).Holds id requestId ∨
      (s.servers i).Awaits id requestId ∧ ((s.servers i).Holds id requestId →
        ∃ task, task ∈ t.pool.tasks ∧ task.key = ((i, id), requestId)) := by
    intro heq
    rw [heq] at hawaits ⊢
    by_cases hholds : (s.servers i).Holds id requestId
    · exact .inl hholds
    · exact .inr ⟨hawaits, fun h => absurd h hholds⟩
  rcases (step_turn ht).servers with heq | ⟨j, b, hb⟩
  · exact stays (by rw [heq])
  by_cases hi : i = j
  · subst hi
    refine (Server.step_carries (reachable_server h i) hb.step id requestId hawaits).imp_right
      fun ⟨hbefore, hreleases⟩ => ⟨hbefore, fun hholds => ?_⟩
    obtain ⟨heq, rfl, timing, request, todo, htodo⟩ := hreleases hholds
    have hadded := (hb.submits _ _ _ _ heq htodo).tasks
    exact ⟨⟨i, (s.servers i).active, requestId, timing, request⟩,
      hadded ▸ List.mem_append_right _ (List.mem_singleton_self _), rfl⟩
  · exact stays (hb.others i hi)

theorem InFlight.step {unanswered unanswered' : Fin n → Bool}
    (h : Reachable (system wakeupFds latencyMetricsEnabled n) s) {a : Action m n}
    (ht : (system wakeupFds latencyMetricsEnabled n).step s a = some t) {i : Fin m}
    {id requestId : Nat} (hawaits : (t.servers i).Awaits id requestId)
    (hbefore : (s.servers i).Awaits id requestId → InFlight unanswered s i id requestId)
    (hkeeps : ∀ w task, s.pool.workers w = .running task → task.key = ((i, id), requestId) →
      unanswered w = true → (unanswered' w = true ∧ ∀ outcome, a ≠ .worker w (.finish outcome)) ∨
        (t.servers i).Holds id requestId)
    (htakes : ∀ w, a = .worker w .takeTask → (s.pool.workers w).atLock = true →
      unanswered' w = true) :
    InFlight unanswered' t i id requestId := by
  rcases awaits_of_step h ht hawaits with hholds | ⟨hawaits, hsubmits⟩
  · exact .inLoop hholds
  have hturn := step_turn ht
  cases hbefore hawaits with
  | inLoop hholds =>
    obtain ⟨task, htask, hkey⟩ := hsubmits hholds
    exact .queued htask hkey
  | @queued task htask hkey =>
    rcases hturn.pool with heq | ⟨b, hb, -, htaken⟩
    · exact .queued (heq ▸ htask) hkey
    · rcases WorkerPool.queued_of_step hb htask with htask | ⟨w, rfl, hlock, hrunning⟩
      · exact .queued htask hkey
      · exact .running hrunning hkey (htakes w (htaken w rfl) hlock)
  | @running w task hrunning hkey hunanswered =>
    rcases hkeeps w task hrunning hkey hunanswered with ⟨hstill, hends⟩ | hholds
    · exact .running (hturn.running hrunning hends) hkey hstill
    · exact .inLoop hholds

theorem completed_of_complete {w : Fin n} {task : Submission m} {result : ResponseResult}
    (ht : (system wakeupFds latencyMetricsEnabled n).step s (.worker w (.complete result)) = some t)
    (hrunning : s.pool.workers w = .running task) (hfault : t.fault = none) :
    (t.servers task.loop).Completed task.id task.requestId := by
  obtain ⟨-, ht⟩ := Option.ite_none_right_eq_some.mp ht
  simp only [workerStep, hrunning] at ht
  split at ht
  · rename_i task' _ heq _
    cases heq
    obtain ⟨u, hu, rfl⟩ := Option.map_eq_some_iff.mp ht
    obtain ⟨server, hserver, rfl⟩ := serve_cases hu
    by_cases halive : s.threads task.loop = .exited
    · rw [useLoop, if_pos halive] at hfault
      cases hfault
    · obtain ⟨-, hserver⟩ := Option.ite_none_right_eq_some.mp hserver
      obtain ⟨-, hserver⟩ := Option.ite_none_right_eq_some.mp hserver
      cases hserver
      rw [useLoop_alive halive]
      exact ⟨task.timing, result, by simp⟩
  · cases ht

/-- The loop of the sample run has just pushed its first task. -/
theorem requestRead_queueBounded : ∃ s : ServeWithEventLoop 1 1,
    s.pool.tasks.length = 1 ∧ QueueBounded s := by
  have hqueued : ((run (system (fun _ => 3) false 1) sampleStart
      (requestRead ++ [.loop 0 .submit])).map fun s => s.pool.tasks.length) = some 1 := by
    decide +kernel
  obtain ⟨s, hrun, hlength⟩ := Option.map_eq_some_iff.mp hqueued
  exact ⟨s, hlength, pool_queueBounded (.run (.start sampleStart_initial) hrun)⟩

end ServeWithEventLoop

def TaskState.unanswered : TaskState → Bool
  | .completed | .escaping => false
  | _ => true

namespace SearchServer

variable {R : Type*} [Field R] [LinearOrder R] {app : SearchApplication R} {cache : SearchCache}
  {m n : Nat} {wakeupFds : Fin m → Int} {latencyMetricsEnabled : Bool} {s t : SearchServer m n}
  {w : Fin n} {a : Action m n}

/-- The call of `complete` in a handler of the task returns. -/
def CompletesOnce (s : SearchServer m n) (a : Action m n) : Prop :=
  ∀ w queued, a = .complete w queued true → s.tasks w ≠ .caught

inductive Moved (wakeupFds : Fin m → Int) (latencyMetricsEnabled : Bool) (s : SearchServer m n)
    (a : Action m n) (t : SearchServer m n) : Prop where
  | clock : t.serving = s.serving → t.tasks = s.tasks → Moved wakeupFds latencyMetricsEnabled s a t
  | serve {b : ServeWithEventLoop.Action m n} : s.mayServe b = true →
      (ServeWithEventLoop.system wakeupFds latencyMetricsEnabled n).step s.serving b =
        some t.serving → t.tasks = s.tasksAfter b → Moved wakeupFds latencyMetricsEnabled s a t
  | goOn {w : Fin n} {task : Submission m} {next : TaskState} : t.serving = s.serving →
      s.serving.pool.workers w = .running task → t.tasks = Function.update s.tasks w next →
      (CompletesOnce s a → next.unanswered = true ∨ s.expired task = true) →
      Moved wakeupFds latencyMetricsEnabled s a t
  | complete {w : Fin n} {task : Submission m} {result : ResponseResult} {next : TaskState} :
      s.serving.pool.workers w = .running task →
      (ServeWithEventLoop.system wakeupFds latencyMetricsEnabled n).step s.serving
        (.worker w (.complete result)) = some t.serving →
      t.tasks = Function.update s.tasks w next → Moved wakeupFds latencyMetricsEnabled s a t

theorem call_moved {task : Submission m} {b : Serving.Action (Fin n) Unit}
    (hrunning : s.serving.pool.workers w = .running task)
    (ht : s.call app cache w b = some t) : Moved wakeupFds latencyMetricsEnabled s a t := by
  obtain ⟨application, -, rfl⟩ := Option.map_eq_some_iff.mp ht
  refine .goOn rfl hrunning rfl fun _ => .inl ?_
  unfold callState
  split <;> rfl

theorem pass_moved {task : Submission m} {result : ResponseResult} {queued : Bool}
    {next : TaskState} (hrunning : s.serving.pool.workers w = .running task)
    (hnext : queued = false → CompletesOnce s a → next.unanswered = true ∨ s.expired task = true)
    (ht : s.pass (ServeWithEventLoop.connectionSettings wakeupFds latencyMetricsEnabled) w result
      queued next = some t) : Moved wakeupFds latencyMetricsEnabled s a t := by
  unfold SearchServer.pass at ht
  split at ht
  · obtain ⟨serving, hstep, rfl⟩ := Option.map_eq_some_iff.mp ht
    exact .complete hrunning hstep rfl
  · rename_i hqueued
    obtain ⟨-, ht⟩ := Option.ite_none_right_eq_some.mp ht
    cases ht
    exact .goOn rfl hrunning rfl (hnext (by simpa using hqueued))

theorem step_moved (h : Sound app cache wakeupFds latencyMetricsEnabled s)
    (ht : (system app cache wakeupFds latencyMetricsEnabled n).step s a = some t) :
    Moved wakeupFds latencyMetricsEnabled s a t := by
  cases a with
  | serve b =>
    obtain ⟨hmay, ht⟩ := Option.ite_none_right_eq_some.mp ht
    obtain ⟨serving, hstep, rfl⟩ := Option.map_eq_some_iff.mp ht
    exact .serve hmay hstep rfl
  | elapse elapsed =>
    cases ht
    exact .clock rfl rfl
  | answerMetrics w loaded =>
    simp only [system, SearchServer.step] at ht
    split at ht
    · rename_i task hrunning _
      obtain ⟨-, ht⟩ := Option.ite_none_right_eq_some.mp ht
      obtain ⟨parsed, -, rfl⟩ := Option.map_eq_some_iff.mp ht
      exact .goOn rfl hrunning rfl fun _ => .inl rfl
    · cases ht
  | handleRequest w =>
    simp only [system, SearchServer.step] at ht
    split at ht
    · rename_i task hrunning _
      obtain ⟨-, ht⟩ := Option.ite_none_right_eq_some.mp ht
      exact call_moved hrunning ht
    · cases ht
  | redisGet w answer | compute w | redisSet w answer applied =>
    have ht : s.call app cache w _ = some t := ht
    obtain ⟨application, hstep, -⟩ := Option.map_eq_some_iff.mp ht
    obtain ⟨_, _, hcall⟩ := (Serving.exists_call hstep).resolve_left (by simp)
    obtain ⟨request, hrequest, -⟩ := Option.map_eq_some_iff.mp hcall
    obtain ⟨task, hrunning, -⟩ := h.handling hrequest
    exact call_moved hrunning ht
  | raise w =>
    simp only [system, SearchServer.step] at ht
    split at ht
    · rename_i task hrunning _
      cases ht
      exact .goOn rfl hrunning rfl fun _ => .inl rfl
    · rename_i task hrunning _
      cases ht
      exact .goOn rfl hrunning rfl fun _ => .inl rfl
    · cases ht
  | complete w queued thrown =>
    simp only [system, SearchServer.step] at ht
    split at ht
    · rename_i task result hrunning hstate
      obtain ⟨hreason, ht⟩ := Option.ite_none_right_eq_some.mp ht
      refine pass_moved hrunning (fun hqueued _ => ?_) ht
      cases thrown with
      | true => exact .inl rfl
      | false => exact .inr (by simpa [hqueued] using hreason)
    · rename_i task hrunning hstate
      obtain ⟨hreason, ht⟩ := Option.ite_none_right_eq_some.mp ht
      refine pass_moved hrunning (fun hqueued hreturns => ?_) ht
      cases thrown with
      | true => exact absurd hstate (hreturns w queued rfl)
      | false => exact .inr (by simpa [hqueued] using hreason)
    · cases ht

theorem raised_of_step
    (ht : (system app cache wakeupFds latencyMetricsEnabled n).step s a = some t)
    (hraised : t.raised = false) : s.raised = false := by
  have hset : ∀ {u : SearchServer m n} {w : Fin n} {state : TaskState},
      (u.setTask w state).raised = false → u.raised = false := by
    intro u w state hu
    simp only [setTask, Bool.or_eq_false_iff] at hu
    exact hu.1.1
  have hcall : ∀ {w : Fin n} {b : Serving.Action (Fin n) Unit},
      s.call app cache w b = some t → s.raised = false := by
    intro w b ht
    obtain ⟨application, -, rfl⟩ := Option.map_eq_some_iff.mp ht
    exact hset (u := { s with application := application }) hraised
  have hpass : ∀ {w : Fin n} {result : ResponseResult} {queued : Bool} {next : TaskState},
      s.pass (ServeWithEventLoop.connectionSettings wakeupFds latencyMetricsEnabled) w result queued
        next = some t → s.raised = false := by
    intro w result queued next ht
    unfold SearchServer.pass at ht
    split at ht
    · obtain ⟨serving, -, rfl⟩ := Option.map_eq_some_iff.mp ht
      exact hset (u := { s with serving := serving }) hraised
    · obtain ⟨-, ht⟩ := Option.ite_none_right_eq_some.mp ht
      cases ht
      exact hset hraised
  cases a with
  | serve b =>
    obtain ⟨-, ht⟩ := Option.ite_none_right_eq_some.mp ht
    obtain ⟨serving, -, rfl⟩ := Option.map_eq_some_iff.mp ht
    exact hraised
  | elapse elapsed =>
    cases ht
    exact hraised
  | answerMetrics w loaded =>
    simp only [system, SearchServer.step] at ht
    split at ht
    · obtain ⟨-, ht⟩ := Option.ite_none_right_eq_some.mp ht
      obtain ⟨parsed, -, rfl⟩ := Option.map_eq_some_iff.mp ht
      exact hset hraised
    · cases ht
  | handleRequest w =>
    simp only [system, SearchServer.step] at ht
    split at ht
    · exact hcall (Option.ite_none_right_eq_some.mp ht).2
    · cases ht
  | redisGet w answer | compute w | redisSet w answer applied => exact hcall ht
  | raise w =>
    simp only [system, SearchServer.step] at ht
    split at ht <;> cases ht
    all_goals simp [setTask] at hraised
  | complete w queued thrown =>
    simp only [system, SearchServer.step] at ht
    split at ht
    · exact hpass (Option.ite_none_right_eq_some.mp ht).2
    · exact hpass (Option.ite_none_right_eq_some.mp ht).2
    · cases ht

/-- Where nothing is thrown, no handler of a task is entered. -/
theorem reachableBy_of_unraised
    (h : Reachable (system app cache wakeupFds latencyMetricsEnabled n) s)
    (hraised : s.raised = false) :
    ReachableBy (system app cache wakeupFds latencyMetricsEnabled n) CompletesOnce s := by
  induction h with
  | start hs => exact .start hs
  | next hs ht ih =>
    have hbefore := raised_of_step ht hraised
    refine .next (ih hbefore) (fun w queued _ hcaught => ?_) ht
    have hworker := (reachable_sound hs).workers w
    simp [WorkerSound, hcaught, hbefore] at hworker

theorem reachable_entered (h : Reachable (system app cache wakeupFds latencyMetricsEnabled n) s) :
    ∀ w, (s.serving.pool.workers w).isRunning = false → s.tasks w = .entered := by
  refine h.invariant (P := fun s => ∀ w, (s.serving.pool.workers w).isRunning = false →
    s.tasks w = .entered) ?_ fun s a t hreach ih ht w hw => ?_
  · rintro s ⟨-, -, htasks, -⟩ w -
    exact htasks w
  have before : (∀ task, s.serving.pool.workers w = .running task →
      t.serving.pool.workers w = .running task) → s.tasks w = .entered := by
    intro hrunning
    refine ih w ?_
    cases hworker : s.serving.pool.workers w with
    | running task => simp [hrunning task hworker, WorkerState.isRunning] at hw
    | _ => rfl
  have other : ∀ {v : Fin n} {task : Submission m}, t.serving.pool.workers v = .running task →
      w ≠ v := by
    rintro v task hv rfl
    simp [hv, WorkerState.isRunning] at hw
  cases step_moved (reachable_sound hreach) ht with
  | clock hserving htasks =>
    rw [htasks]
    exact before fun _ => hserving ▸ id
  | @goOn v task next hserving hrunning htasks =>
    rw [htasks, Function.update_of_ne (other (hserving ▸ hrunning))]
    exact before fun _ => hserving ▸ id
  | @complete v task result next hrunning hstep htasks =>
    have hturn := ServeWithEventLoop.system_turn hstep
    rw [htasks, Function.update_of_ne (other (hturn.running hrunning (by simp)))]
    exact before fun _ hw => hturn.running hw (by simp)
  | @serve b hmay hstep htasks =>
    rw [htasks]
    rcases s.tasksAfter_cases b w with ⟨outcome, -, hentered⟩ | ⟨hends, hsame⟩
    · exact hentered
    · rw [hsame]
      exact before fun _ hw => (ServeWithEventLoop.system_turn hstep).running hw hends

def Located (s : SearchServer m n) : Prop :=
  s.serving.fault = none → ∀ i id requestId, (s.serving.servers i).Awaits id requestId →
    ServeWithEventLoop.InFlight (fun w => (s.tasks w).unanswered) s.serving i id requestId

/-- The task of a connection that waits is not one whose connection is gone. -/
theorem not_expired {task : Submission m} {i : Fin m} {id requestId : Nat}
    (hawaits : (s.serving.servers i).Awaits id requestId)
    (hkey : task.key = ((i, id), requestId)) : s.expired task = false := by
  obtain ⟨c, hc, hopen, -⟩ := hawaits
  obtain ⟨⟨rfl, rfl⟩, -⟩ := by simpa [Submission.key, Submission.connection] using hkey
  simpa [expired, hc] using hopen

theorem Located.step (hreach : Reachable (system app cache wakeupFds latencyMetricsEnabled n) s)
    (h : Located s) (honce : CompletesOnce s a)
    (ht : (system app cache wakeupFds latencyMetricsEnabled n).step s a = some t) : Located t := by
  intro hfault i id requestId hawaits
  have hserving := reachable_serving hreach
  cases step_moved (reachable_sound hreach) ht with
  | clock hsame htasks =>
    rw [hsame] at hfault hawaits ⊢
    rw [htasks]
    exact h hfault i id requestId hawaits
  | @goOn v task next hsame hrunning htasks hnext =>
    rw [hsame] at hfault hawaits ⊢
    cases h hfault i id requestId hawaits with
    | inLoop hholds => exact .inLoop hholds
    | queued htask hkey => exact .queued htask hkey
    | @running w task' hrunning' hkey hunanswered =>
      refine .running hrunning' hkey ?_
      rw [htasks]
      by_cases hw : w = v
      · subst hw
        obtain rfl : task = task' := by simpa [hrunning] using hrunning'
        rw [Function.update_self]
        exact (hnext honce).resolve_right (by simp [not_expired hawaits hkey])
      · rwa [Function.update_of_ne hw]
  | @complete v task result next hrunning hstep htasks =>
    have hbefore : s.serving.fault = none := (Option.ite_none_right_eq_some.mp hstep).1.1
    refine ServeWithEventLoop.InFlight.step hserving hstep hawaits (h hbefore i id requestId)
      (fun w task' hrunning' hkey hunanswered => ?_) nofun
    by_cases hw : w = v
    · subst hw
      obtain rfl : task = task' := by simpa [hrunning] using hrunning'
      obtain ⟨⟨rfl, rfl⟩, rfl⟩ := by simpa [Submission.key, Submission.connection] using hkey
      exact .inr (.inr (ServeWithEventLoop.completed_of_complete hstep hrunning hfault))
    · rw [htasks, Function.update_of_ne hw]
      exact .inl ⟨hunanswered, nofun⟩
  | @serve b hmay hstep htasks =>
    have hbefore : s.serving.fault = none := (Option.ite_none_right_eq_some.mp hstep).1.1
    refine ServeWithEventLoop.InFlight.step hserving hstep hawaits (h hbefore i id requestId)
      (fun w task hrunning hkey hunanswered => .inl ?_) fun w heq hlock => ?_
    · rw [htasks]
      rcases s.tasksAfter_cases b w with ⟨outcome, rfl, -⟩ | ⟨hends, hsame⟩
      · cases hstate : s.tasks w <;>
          simp [mayServe, hstate, TaskState.mayFinish, TaskState.unanswered] at hmay hunanswered
      · exact ⟨hsame ▸ hunanswered, hends⟩
    · subst heq
      have hentered := reachable_entered hreach w <| by
        cases hworker : s.serving.pool.workers w with
        | running task => simp [hworker, WorkerState.atLock] at hlock
        | _ => rfl
      rw [htasks]
      change (s.tasks w).unanswered = true
      rw [hentered]
      rfl

theorem reachable_located
    (h : ReachableBy (system app cache wakeupFds latencyMetricsEnabled n) CompletesOnce s) :
    Located s := by
  refine h.invariant ?_ fun s a t hreach ih honce ht => ih.step hreach honce ht
  rintro s ⟨⟨now, peers, files, hs⟩, -⟩ - i id requestId ⟨c, hc, -⟩
  rw [(ServeWithEventLoop.new_cases hs).2.1] at hc
  cases hc

/-- No request is lost: the one a connection waits for is with its loop, in the queue of the
pool, or with a worker that has still to complete it. -/
theorem request_inFlight
    (h : ReachableBy (system app cache wakeupFds latencyMetricsEnabled n) CompletesOnce s)
    (hfault : s.serving.fault = none) : ∀ i id c, (s.serving.servers i).connections id = some c →
      0 ≤ c.fd → c.processingRequest = true → ServeWithEventLoop.InFlight
        (fun w => (s.tasks w).unanswered) s.serving i id c.requestGeneration :=
  fun i id c hc hopen hprocessing =>
    reachable_located h hfault i id _ ⟨c, hc, hopen, hprocessing, rfl⟩

structure AtRest (s : SearchServer m n) : Prop where
  handlers : ∀ i, (s.serving.servers i).todo = []
  tasks : ∀ i, (s.serving.servers i).tasks = [] ∧ (s.serving.servers i).pendingTasks = []
  queue : s.serving.pool.tasks = []
  workers : ∀ w, (s.serving.pool.workers w).isRunning = false

theorem AtRest.idle (hrest : AtRest s)
    (h : ReachableBy (system app cache wakeupFds latencyMetricsEnabled n) CompletesOnce s)
    (hfault : s.serving.fault = none) (i : Fin m) (id requestId : Nat) :
    ¬(s.serving.servers i).Awaits id requestId := by
  intro hawaits
  cases reachable_located h hfault i id requestId hawaits with
  | inLoop hholds =>
    rcases hholds with ⟨timing, request, hmem⟩ | ⟨timing, result, hmem⟩
    · simp [Server.remaining, hrest.handlers i] at hmem
    · simp [hrest.tasks i] at hmem
  | queued htask => simp [hrest.queue] at htask
  | @running w task hrunning =>
    have hidle := hrest.workers w
    simp [hrunning, WorkerState.isRunning] at hidle

/-- A response waits for the socket, or every request that has come in is answered. -/
inductive Settled (s : SearchServer m n) (i : Fin m) (id : Nat) (c : TcpConnection)
    (responses : List ResponseResult) : Prop where
  | sending : c.outputBuffer.peek ≠ [] → (s.serving.servers i).epoll c.fd = some writeInterest →
      Settled s i id c responses
  | answered : responses.length = (frames headerEnd (received c.calls)).length →
      accepted ((s.serving.servers i).executed id) = responses.flatMap ResponseResult.response →
      Settled s i id c responses

theorem settled_of_idle
    (h : Reachable (system app cache wakeupFds latencyMetricsEnabled n) s) {i : Fin m} {id : Nat}
    {c : TcpConnection} (hc : (s.serving.servers i).connections id = some c) (hopen : 0 ≤ c.fd)
    (htodo : (s.serving.servers i).todo = []) (hidle : c.processingRequest = false) :
    ∃ responses,
      AnsweredBy app latencyMetricsEnabled s.raised ((s.serving.servers i).executed id) c
        responses ∧
      Settled s i id c responses := by
  obtain ⟨delivered, responses, hpipeline, hanswered⟩ := exists_answeredBy h hc
  refine ⟨responses, hanswered, ?_⟩
  have hserving := reachable_serving h
  have hsound := Server.reachable_sound (ServeWithEventLoop.reachable_server hserving i)
  obtain ⟨fd, hest⟩ := hsound.tables.established id c hc
  have hcalls := hest.calls_eq htodo
  have hsettled : c.Settled fd := hest.sound.resolve_right fun hclosed => hclosed.open_false hopen
  by_cases hready : c.responseReady = true
  · refine .sending (hsettled.pending.mp hready) ?_
    have hstage := hsettled.registered.stage
    rw [hcalls] at hstage
    rw [hsettled.registered.fd_eq, hsound.tables.epoll, hest.expected_eq hstage nofun]
    simp [Stage.entry, TcpConnection.interest, hready]
  · have hready : c.responseReady = false := by simpa using hready
    have hnone : Library.Framing.find headerEnd c.inputBuffer.peek = none := by
      simpa [TcpConnection.hasCompleteRequest] using (hsettled.quiet hidle hready).1
    have hempty : c.outputBuffer.peek = [] := by
      by_contra hne
      simp [hsettled.pending.mpr hne] at hready
    refine .answered ?_ ?_
    · have hbalance := hpipeline.balance
      rw [hidle] at hbalance
      have hframes : frames headerEnd (received c.calls) = handed c.calls := by
        rw [← hpipeline.framed.split, frames_flatten_append headerEnd_ne_nil _
          hpipeline.framed.frames, frames_of_find_none hnone, List.append_nil]
      rw [hframes, hpipeline.framed.count, ← hbalance]
      simp
    · have houtgoing := hanswered.outgoing
      rwa [hempty, List.append_nil, hcalls] at houtgoing

theorem AtRest.settled (hrest : AtRest s)
    (h : ReachableBy (system app cache wakeupFds latencyMetricsEnabled n) CompletesOnce s)
    (hfault : s.serving.fault = none) {i : Fin m} {id : Nat} {c : TcpConnection}
    (hc : (s.serving.servers i).connections id = some c) (hopen : 0 ≤ c.fd) : ∃ responses,
      AnsweredBy app latencyMetricsEnabled s.raised ((s.serving.servers i).executed id) c
        responses ∧
        Settled s i id c responses := by
  refine settled_of_idle h.reachable hc hopen (hrest.handlers i) ?_
  by_contra hprocessing
  exact hrest.idle h hfault i id c.requestGeneration
    ⟨c, hc, hopen, by simpa using hprocessing, rfl⟩

/-- When nothing is left to do, nobody waits for an answer: every request was answered, as far
as the client takes the bytes. -/
theorem rest_answered
    (h : ReachableBy (system app cache wakeupFds latencyMetricsEnabled n) CompletesOnce s)
    (hfault : s.serving.fault = none) (hrest : AtRest s) :
    ∀ i id c, (s.serving.servers i).connections id = some c → 0 ≤ c.fd → ∃ responses,
      AnsweredBy app latencyMetricsEnabled s.raised ((s.serving.servers i).executed id) c
        responses ∧
        Settled s i id c responses :=
  fun _ _ _ hc hopen => hrest.settled h hfault hc hopen

instance (s : SearchServer m n) : Decidable (AtRest s) :=
  decidable_of_iff
    ((∀ i, (s.serving.servers i).todo = [] ∧ (s.serving.servers i).tasks = [] ∧
        (s.serving.servers i).pendingTasks = []) ∧
      s.serving.pool.tasks = [] ∧ ∀ w, (s.serving.pool.workers w).isRunning = false)
    ⟨fun ⟨hloops, hqueue, hworkers⟩ =>
        ⟨fun i => (hloops i).1, fun i => (hloops i).2, hqueue, hworkers⟩,
      fun ⟨hhandlers, htasks, hqueue, hworkers⟩ =>
        ⟨fun i => ⟨hhandlers i, htasks i⟩, hqueue, hworkers⟩⟩

theorem sampleActions_once : ∀ a ∈ searchRead ++ searchAnswered, ∀ s : SearchServer 1 1,
    CompletesOnce s a := by
  rintro a hmem s w queued rfl
  simp [searchRead, searchAnswered] at hmem

theorem searching_inFlight : ∃ (s : SearchServer 1 1) (c : TcpConnection),
    (s.serving.servers 0).connections 0 = some c ∧ ServeWithEventLoop.InFlight
      (fun w => (s.tasks w).unanswered) s.serving 0 0 c.requestGeneration := by
  have hsearching : ((run (system Serving.sampleApp (Serving.sampleCaches ()) (fun _ => 3) false 1)
      sampleStart ((searchRead ++ searchAnswered).take 24)).map fun s =>
        (s.serving.fault, ((s.serving.servers 0).connections 0).map fun c =>
          (c.fd, c.processingRequest))) = some (none, some (5, true)) := by
    decide +kernel
  obtain ⟨s, hrun, hobserved⟩ := Option.map_eq_some_iff.mp hsearching
  simp only [Prod.mk.injEq, Option.map_eq_some_iff] at hobserved
  obtain ⟨hfault, c, hc, hfd, hprocessing⟩ := hobserved
  have hreachable := ReachableBy.run (.start sampleStart_initial)
    (fun a hmem => sampleActions_once a (List.mem_of_mem_take hmem)) hrun
  exact ⟨s, c, hc, request_inFlight hreachable hfault 0 0 c hc (by omega) hprocessing⟩

theorem searched_answered : ∃ (s : SearchServer 1 1) (c : TcpConnection)
    (responses : List ResponseResult), (s.serving.servers 0).connections 0 = some c ∧
      handed c.calls = [searchRequest] ∧
      AnsweredBy Serving.sampleApp false s.raised ((s.serving.servers 0).executed 0) c responses ∧
      Settled s 0 0 c responses := by
  have hsearched : ((run (system Serving.sampleApp (Serving.sampleCaches ()) (fun _ => 3) false 1)
      sampleStart (searchRead ++ searchAnswered)).map fun s =>
        (decide (s.serving.fault = none ∧ AtRest s),
          ((s.serving.servers 0).connections 0).map fun c => (c.fd, handed c.calls))) =
      some (true, some (5, [searchRequest])) := by
    decide +kernel
  obtain ⟨s, hrun, hobserved⟩ := Option.map_eq_some_iff.mp hsearched
  simp only [Prod.mk.injEq, Option.map_eq_some_iff, decide_eq_true_eq] at hobserved
  obtain ⟨⟨hfault, hrest⟩, c, hc, hfd, hhanded⟩ := hobserved
  have hreachable := ReachableBy.run (.start sampleStart_initial) sampleActions_once hrun
  obtain ⟨responses, hanswered, hsettled⟩ :=
    rest_answered hreachable hfault hrest 0 0 c hc (by omega)
  exact ⟨s, c, responses, hc, hhanded, hanswered, hsettled⟩

end SearchServer

end CppSearchServer.Main
