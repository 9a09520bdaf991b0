import CppSearchServer.Main.RequestFlow
import Mathlib.Data.Finset.Max

/-! No deadlock.
A thread can go on by itself, or there is nothing to do but to wait for what the program does
not decide: every loop is in `epoll_wait` and can be woken up, every worker waits for a task
and there is none, and the main thread is at `accept` or behind its last step. No request is
left with anybody then. -/

namespace CppSearchServer.Concurrency.WorkerPool

variable {n : Nat} {Caller Task : Type*} [DecidableEq Caller] {s t : WorkerPool n Caller Task}

theorem exists_notifyOne {thread : Thread n Caller} (hnotifying : s.notifying thread = true) :
    ∃ waiter t, s.step (.notifyOne thread waiter) = some t := by
  by_cases hwaits : ∃ w, (s.workers w).isWaiting = true
  · obtain ⟨w, hw⟩ := hwaits
    exact ⟨some w, _, (if_pos hnotifying).trans (if_pos hw)⟩
  · have hnone : ∀ w, (s.workers w).isWaiting = false := fun w => by
      simpa using not_exists.mp hwaits w
    exact ⟨none, _, (if_pos hnotifying).trans (if_pos hnone)⟩

/-- The workers do not call `submit`, and so have nobody to notify. -/
theorem notifying_of_step {a : Action n Caller Task} (ht : s.step a = some t)
    {thread : Thread n Caller} (hquiet : s.notifying thread = false)
    (hother : ∀ task, a ≠ .submit thread task) : t.notifying thread = false := by
  have hcleared : ∀ other, Function.update s.notifying other false thread = false := by
    intro other
    rw [Function.update_apply]
    split_ifs
    · rfl
    · exact hquiet
  cases step_move ht with
  | submit caller task =>
    have hne : thread ≠ caller := by
      rintro rfl
      exact hother task rfl
    unfold submit
    split
    · exact hquiet
    · exact (Function.update_of_ne hne ..).trans hquiet
  | notified other | unnoticed other => exact hcleared other
  | takeTask =>
    unfold takeTask
    split <;> exact hquiet
  | _ => exact hquiet

theorem destructor_of_step {a : Action n Caller Task} (ht : s.step a = some t)
    (hstop : a ≠ .stop) (hnotify : a ≠ .notifyAll) : t.destructor = s.destructor := by
  cases step_move ht with
  | submit =>
    unfold submit
    split <;> rfl
  | takeTask =>
    unfold takeTask
    split <;> rfl
  | stop => exact absurd rfl hstop
  | notifyAll => exact absurd rfl hnotify
  | _ => rfl

end CppSearchServer.Concurrency.WorkerPool

namespace CppSearchServer.Net.Server

variable {settings : Settings} {s t : Server}

theorem exists_execute (settings : Settings) (hprocess : s.process = .running)
    (htodo : s.todo ≠ []) :
    ∃ t, s.step settings .execute = some t := by
  obtain ⟨made, todo, htodo⟩ := List.exists_cons_of_ne_nil htodo
  refine ⟨(s.startCall made todo).perform made, ?_⟩
  simp [step, hprocess, execute, htodo]

theorem exists_first {now : Nat} {timer : Timer} (hmem : timer ∈ s.timers)
    (hdue : timer.expiresAt ≤ now) : ∃ first ∈ s.timers, first.expiresAt ≤ now ∧
      ∀ other ∈ s.timers, first.expiresAt ≤ other.expiresAt := by
  obtain ⟨first, hfirst, hleast⟩ := s.timers.toFinset.exists_min_image Timer.expiresAt
    ⟨timer, List.mem_toFinset.mpr hmem⟩
  have hleast : ∀ other ∈ s.timers, first.expiresAt ≤ other.expiresAt :=
    fun other hother => hleast other (List.mem_toFinset.mpr hother)
  exact ⟨first, List.mem_toFinset.mp hfirst, (hleast timer hmem).trans hdue, hleast⟩

theorem exists_dispatch (hbatch : s.batch ≠ []) : ∃ t, s.dispatch [] [] false = some t := by
  obtain ⟨event, batch, hbatch⟩ := List.exists_cons_of_ne_nil hbatch
  unfold dispatch
  rw [hbatch]
  dsimp only
  split <;> exact ⟨_, rfl⟩

theorem outsideStep_round {a : Action} (ht : s.outsideStep a = some t) :
    t.todo = s.todo ∧ t.phase = s.phase := by
  cases a with
  | tick | peer id action =>
    cases ht
    exact ⟨rfl, rfl⟩
  | openOther fd | closeOther fd | accept fd | complete id requestId timing result =>
    obtain ⟨-, ht⟩ := Option.ite_none_right_eq_some.mp ht
    cases ht
    exact ⟨rfl, rfl⟩
  | discard | otherLoop | queueEstablish =>
    simp only [Server.outsideStep] at ht
    split at ht <;> cases ht
    exact ⟨rfl, rfl⟩
  | _ => cases ht

theorem loopMove_acceptor {a : Action} (hmove : LoopMove settings s a t) :
    t.acceptor = s.acceptor := by
  have hhandler : ∀ (u : Server) (id : Nat) (handler : TcpConnection → TcpConnection),
      (u.runHandler id handler).acceptor = u.acceptor := by
    intro u id handler
    unfold runHandler
    split <;> rfl
  cases hmove with
  | deliver | finishRequest | runTimer => exact hhandler ..
  | _ => rfl

end CppSearchServer.Net.Server

namespace CppSearchServer.Search

open Library.TransitionSystem

/-- The instance whose thread state the next access to Redis goes through. -/
def WorkerPosition.cached {Instance : Type*} : WorkerPosition Instance → Option Instance
  | .redisGet pending | .redisSet pending _ => some pending.target
  | .idle | .computing _ => none

namespace Serving

variable {R Worker Instance : Type*} [Field R] [LinearOrder R] [DecidableEq Worker]
  [DecidableEq Instance] {apps : Instance → SearchApplication R}
  {caches : Instance → SearchCache}
  {s t : Serving Worker Instance} {worker : Worker}

def Opened (s : Serving Worker Instance) : Prop :=
  ∀ worker target, (s.position worker).cached = some target →
    (s.threadStates worker target).isSome

omit [DecidableEq Instance] in
theorem Opened.goTo (h : Opened s) {position : WorkerPosition Instance}
    (hposition : ∀ target, position.cached = some target →
      (s.threadStates worker target).isSome) : Opened (s.goTo worker position) := by
  intro other target hcached
  simp only [Serving.goTo, Function.update_apply] at hcached
  split at hcached
  · rename_i heq
    subst heq
    exact hposition target hcached
  · exact h other target hcached

omit [DecidableEq Instance] in
theorem Opened.finish (h : Opened s) (target : Instance) (request : Bytes)
    (result : Except String ApplicationResponse) : Opened (s.finish worker target request result) :=
  h.goTo nofun

theorem Opened.setState (h : Opened s) (target : Instance) (state : SearchCache.ThreadState) :
    Opened (s.setState worker target state) := by
  intro other target' hcached
  simp only [Serving.setState, Function.update_apply]
  have hbefore := h other target' hcached
  split
  · rename_i heq
    subst heq
    rw [Function.update_apply]
    split
    · rfl
    · exact hbefore
  · exact hbefore

theorem setState_isSome (target : Instance) (state : SearchCache.ThreadState) :
    ((s.setState worker target state).threadStates worker target).isSome := by
  simp [Serving.setState]

theorem Opened.lookUp (h : Opened s) (pending : PendingSearch Instance) :
    Opened (s.lookUp caches worker pending) := by
  unfold Serving.lookUp
  dsimp only
  split
  · exact h.goTo nofun
  · split
    · exact h.finish _ _ _
    · split
      · exact (h.setState _ _).finish _ _ _
      · split
        · exact (h.setState _ _).goTo nofun
        · refine (h.setState _ _).goTo fun target htarget => ?_
          cases htarget
          exact setState_isSome _ _

omit [Field R] in
theorem Opened.handleRequest (h : Opened s) (target : Instance) (request : Bytes) :
    Opened (s.handleRequest apps caches worker target request) := by
  unfold Serving.handleRequest
  split
  · exact h.finish _ _ _
  · exact h.lookUp _

theorem Opened.redisGet (h : Opened s) (pending : PendingSearch Instance)
    (state : SearchCache.ThreadState) (answer : RedisAnswer) :
    Opened (s.redisGet worker pending state answer) := by
  unfold Serving.redisGet
  dsimp only
  split
  · exact (h.setState _ _).finish _ _ _
  · exact (h.setState _ _).goTo nofun

theorem Opened.compute (h : Opened s) (pending : PendingSearch Instance) :
    Opened (s.compute apps caches worker pending) := by
  unfold Serving.compute
  dsimp only
  split
  · exact h.finish _ _ _
  · split
    · exact h.finish _ _ _
    · split
      · refine (h.setState _ _).goTo fun target htarget => ?_
        cases htarget
        exact setState_isSome _ _
      · exact (h.setState _ _).finish _ _ _

theorem Opened.redisSet (h : Opened s) (pending : PendingSearch Instance) (json : Bytes)
    (state : SearchCache.ThreadState) (answer : RedisAnswer) (applied : Bool) :
    Opened (s.redisSet caches worker pending json state answer applied) := by
  have hset : Opened (s.setState worker pending.target
      ⟨state.localCache, (state.redis.setEx (caches pending.target).config.redisTtl answer).2⟩) :=
    h.setState _ _
  unfold Serving.redisSet
  dsimp only
  refine Opened.finish ?_ _ _ _
  split <;> exact hset

theorem Opened.step (h : Opened s) {a : Action Worker Instance}
    (ht : s.step apps caches a = some t) : Opened t := by
  cases a with
  | tick elapsed =>
    cases ht
    exact h
  | handleRequest worker target request =>
    simp only [Serving.step] at ht
    split at ht <;> cases ht
    exact h.handleRequest _ _
  | redisGet worker answer =>
    simp only [Serving.step] at ht
    split at ht
    · split at ht
      · obtain ⟨-, ht⟩ := Option.ite_none_right_eq_some.mp ht
        cases ht
        exact h.redisGet _ _ _
      · cases ht
    · cases ht
  | compute worker =>
    simp only [Serving.step] at ht
    split at ht <;> cases ht
    exact h.compute _
  | redisSet worker answer applied =>
    simp only [Serving.step] at ht
    split at ht
    · obtain ⟨state, -, rfl⟩ := Option.map_eq_some_iff.mp ht
      exact h.redisSet _ _ _ _ _
    · cases ht

def unreachable : RedisAnswer := ⟨false, false, none⟩

variable (apps caches) in
theorem exists_step (h : Opened s) (hbusy : s.position worker ≠ .idle) :
    ∃ a t, (a = .compute worker ∨ (∃ answer, a = .redisGet worker answer) ∨
      ∃ answer applied, a = .redisSet worker answer applied) ∧ s.step apps caches a = some t := by
  have hopened := h worker
  cases hposition : s.position worker with
  | idle => exact absurd hposition hbusy
  | redisGet pending =>
    rw [hposition] at hopened
    obtain ⟨state, hstate⟩ := Option.isSome_iff_exists.mp (hopened pending.target rfl)
    refine ⟨_, s.redisGet worker pending state unreachable, .inr (.inl ⟨unreachable, rfl⟩), ?_⟩
    simp [Serving.step, hposition, hstate, honest, unreachable]
  | computing pending =>
    refine ⟨_, s.compute apps caches worker pending, .inl rfl, ?_⟩
    simp [Serving.step, hposition]
  | redisSet pending json =>
    rw [hposition] at hopened
    obtain ⟨state, hstate⟩ := Option.isSome_iff_exists.mp (hopened pending.target rfl)
    refine ⟨_, s.redisSet caches worker pending json state unreachable false,
      .inr (.inr ⟨unreachable, false, rfl⟩), ?_⟩
    simp [Serving.step, hposition, hstate]

end Serving

end CppSearchServer.Search

namespace CppSearchServer.Main

open Net Concurrency Search Http Library.TransitionSystem

def MainState.destructor {m : Nat} : MainState m → Destructor
  | .accepting | .accepted _ | .waking _ | .stopping => .notCalled
  | .notifying => .notifying
  | _ => .joining

namespace ServeWithEventLoop

variable {m n : Nat} {settings : Fin m → Settings} {s t u : ServeWithEventLoop m n}
  {i : Fin m} {w : Fin n}

structure Placed (s : ServeWithEventLoop m n) : Prop where
  destructor : s.pool.destructor = s.main.destructor
  acceptor : ∀ i, s.main = .accepted i → (s.servers i).acceptor ≠ none
  joined : ∀ k, s.main = .joiningWorkers k → k ≤ n
  told : ∀ i, s.main = .quitting i ∨ s.main = .joiningThread i →
    (s.threads i).published = true → s.quit i = true
  between : ∀ i, s.threads i ≠ .iterating →
    (s.servers i).todo = [] ∧ (s.servers i).phase = .waiting
  silent : ∀ w, s.pool.notifying (.worker w) = false

theorem Placed.useLoop (h : Placed s) (hnext : Placed u) : Placed (useLoop i s u) := by
  unfold ServeWithEventLoop.useLoop
  split
  · exact ⟨h.destructor, h.acceptor, h.joined, h.told, h.between, h.silent⟩
  · exact hnext

theorem Placed.round (h : Placed s) {server : Server}
    (hround : s.threads i = .iterating ∨
      server.todo = (s.servers i).todo ∧ server.phase = (s.servers i).phase) :
    ∀ j, s.threads j ≠ .iterating → (Function.update s.servers i server j).todo = [] ∧
      (Function.update s.servers i server j).phase = .waiting := by
  intro j hj
  rw [Function.update_apply]
  split_ifs with heq
  · subst heq
    obtain ⟨htodo, hphase⟩ := hround.resolve_left hj
    rw [htodo, hphase]
    exact h.between j hj
  · exact h.between j hj

theorem Placed.update (h : Placed s) {server : Server}
    (hacceptor : server.acceptor = (s.servers i).acceptor)
    (hround : s.threads i = .iterating ∨
      server.todo = (s.servers i).todo ∧ server.phase = (s.servers i).phase) :
    Placed { s with servers := Function.update s.servers i server } where
  destructor := h.destructor
  acceptor j hj := by
    dsimp only
    rw [Function.update_apply]
    split_ifs with heq
    · rw [hacceptor, ← heq]
      exact h.acceptor j hj
    · exact h.acceptor j hj
  joined := h.joined
  told := h.told
  between := h.round hround
  silent := h.silent

theorem Placed.goTo (h : Placed s) {main : MainState m}
    (hdestructor : main.destructor = s.main.destructor) (hacceptor : ∀ i, main ≠ .accepted i)
    (hjoined : ∀ k, main = .joiningWorkers k → k ≤ n)
    (htold : ∀ i, main = .quitting i ∨ main = .joiningThread i →
      (s.threads i).published = true → s.quit i = true) : Placed { s with main := main } where
  destructor := h.destructor.trans hdestructor.symm
  acceptor i hi := absurd hi (hacceptor i)
  joined := hjoined
  told := htold
  between := h.between
  silent := h.silent

theorem Placed.setThread (h : Placed s) {state : ThreadState}
    (hpublished : state.published = true → (s.threads i).published = true)
    (hround : state ≠ .iterating → (s.servers i).todo = [] ∧ (s.servers i).phase = .waiting) :
    Placed (s.setThread i state) where
  destructor := h.destructor
  acceptor := h.acceptor
  joined := h.joined
  told j hj hin := by
    refine h.told j hj ?_
    simp only [ServeWithEventLoop.setThread, Function.update_apply] at hin
    split_ifs at hin with heq
    · exact heq ▸ hpublished hin
    · exact hin
  between j hj := by
    simp only [ServeWithEventLoop.setThread, Function.update_apply] at hj
    split_ifs at hj with heq
    · exact heq ▸ hround hj
    · exact h.between j hj
  silent := h.silent

theorem Placed.pool (h : Placed s) {pool : WorkerPool n (Fin m) (Submission m)}
    {b : Concurrency.Action n (Fin m) (Submission m)} (hpool : s.pool.step b = some pool)
    (hstop : b ≠ .stop) (hnotify : b ≠ .notifyAll)
    (hsubmit : ∀ w task, b ≠ .submit (.worker w) task) : Placed { s with pool := pool } where
  destructor := (WorkerPool.destructor_of_step hpool hstop hnotify).trans h.destructor
  acceptor := h.acceptor
  joined := h.joined
  told := h.told
  between := h.between
  silent w := WorkerPool.notifying_of_step hpool (h.silent w) (hsubmit w)

theorem Placed.usePool (h : Placed s) {b : Concurrency.Action n (Fin m) (Submission m)}
    (ht : s.usePool b = some t) (hstop : b ≠ .stop) (hnotify : b ≠ .notifyAll)
    (hsubmit : ∀ w task, b ≠ .submit (.worker w) task) : Placed t := by
  obtain ⟨pool, hpool, rfl⟩ := Option.map_eq_some_iff.mp ht
  split
  · exact ⟨h.destructor, h.acceptor, h.joined, h.told, h.between, h.silent⟩
  · exact h.pool hpool hstop hnotify hsubmit

theorem Placed.outside (h : Placed s) {b : Server.Action} (ht : s.serve settings i b = some t)
    (houtside : ∀ server : Server, server.step (settings i) b =
      if server.process = .running then server.outsideStep b else none)
    (hacceptor : ∀ server server' : Server, server.outsideStep b = some server' →
      server'.acceptor = server.acceptor) : Placed t := by
  obtain ⟨server, hserver, rfl⟩ := serve_cases ht
  rw [houtside] at hserver
  obtain ⟨-, hserver⟩ := Option.ite_none_right_eq_some.mp hserver
  exact h.update (hacceptor _ _ hserver) (.inr (Server.outsideStep_round hserver))

theorem Placed.execute (h : Placed s) (hthread : s.threads i = .iterating)
    (ht : s.serve settings i .execute = some t) : Placed t := by
  obtain ⟨server, hserver, rfl⟩ := serve_cases ht
  obtain ⟨-, hserver⟩ := Option.ite_none_right_eq_some.mp hserver
  refine h.update ?_ (.inl hthread)
  have hserver : (s.servers i).execute = some server := hserver
  unfold Server.execute at hserver
  split at hserver
  · cases hserver
  · cases hserver
    exact (Server.perform_frame ..).acceptor

theorem handling_iterating (hhandling : s.handling i = true) : s.threads i = .iterating := by
  rw [handling, Bool.and_eq_true] at hhandling
  simpa using hhandling.1

theorem Placed.move (h : Placed s) (hthread : s.threads i = .iterating) {b : Server.Action}
    {state : ThreadState} (hafter : threadAfter b = some state)
    (hu : s.serve settings i b = some u) : Placed (u.setThread i state) := by
  obtain ⟨server, hserver, rfl⟩ := serve_cases hu
  obtain ⟨-, ⟨rfl, -⟩ | ⟨htodo, hmove⟩ | hserver⟩ := Server.step_cases hserver
  · cases hafter
  · have hupdated := h.update (Server.loopMove_acceptor hmove) (.inl hthread)
    refine hupdated.setThread (fun _ => by simp [hthread, ThreadState.published]) fun hstate => ?_
    cases hmove with
    | endTimers => exact ⟨by simp [htodo], by simp⟩
    | _ =>
      cases hafter
      exact absurd rfl hstate
  · cases b <;> cases hafter <;> cases hserver

theorem Placed.submit (h : Placed s) (hthread : s.threads i = .iterating)
    (ht : s.submit settings i = some t) : Placed t := by
  have hfail : ∀ fault, Placed (s.fail fault) := fun fault =>
    ⟨h.destructor, h.acceptor, h.joined, h.told, h.between, h.silent⟩
  unfold ServeWithEventLoop.submit at ht
  split at ht
  · split_ifs at ht
    · cases ht
      exact hfail _
    · cases ht
      exact hfail _
    · obtain ⟨pool, hpool, ht⟩ := Option.bind_eq_some_iff.mp ht
      have hpooled : Placed { s with pool := pool } := h.pool hpool nofun nofun nofun
      exact hpooled.execute hthread ht
  · cases ht

theorem Placed.loopStep (h : Placed s) {b : LoopAction n} (ht : s.loopStep settings i b = some t) :
    Placed t := by
  cases loopStep_move ht with
  | check hchecking =>
    refine h.setThread (fun _ => by simp [hchecking, ThreadState.published]) fun _ => ?_
    exact h.between i (by simp [hchecking])
  | execute _ hhandling ht => exact h.execute (handling_iterating hhandling) ht
  | move hafter hhandling hu => exact h.move (handling_iterating hhandling) hafter hu
  | submit hhandling ht => exact h.submit (handling_iterating hhandling) ht
  | notifyOne ht => exact h.usePool ht nofun nofun nofun
  | clear hleaving => exact h.setThread nofun fun _ => h.between i (by simp [hleaving])
  | destroy hcleared => exact h.setThread nofun fun _ => h.between i (by simp [hcleared])

theorem Placed.workerStep (h : Placed s) {b : WorkerAction}
    (ht : s.workerStep settings w b = some t) : Placed t := by
  cases workerStep_move ht with
  | wakeUp ht | takeTask ht | finish _ ht => exact h.usePool ht nofun nofun nofun
  | @complete task result u _ _ hu =>
    have hqueued : Placed u := h.outside hu (fun _ => rfl) fun server server' hserver => by
      obtain ⟨-, hserver⟩ := Option.ite_none_right_eq_some.mp hserver
      cases hserver
      rfl
    exact h.useLoop ⟨hqueued.destructor, hqueued.acceptor, hqueued.joined, hqueued.told,
      hqueued.between, hqueued.silent⟩
  | wakeup =>
    exact h.useLoop ⟨h.destructor, h.acceptor, h.joined, h.told, h.between, h.silent⟩

theorem Placed.passOn (h : Placed s) {main : MainState m} {target : Fin m} {b : Server.Action}
    (hmain : s.main = .accepted target) (ht : s.serve settings target b = some t)
    (houtside : ∀ server : Server, server.step (settings target) b =
      if server.process = .running then server.outsideStep b else none)
    (hnext : main = .accepting ∨ main = .waking target) : Placed { t with main := main } := by
  obtain ⟨server, hserver, rfl⟩ := serve_cases ht
  rw [houtside] at hserver
  obtain ⟨-, hserver⟩ := Option.ite_none_right_eq_some.mp hserver
  have hdestructor : s.pool.destructor = .notCalled := by
    rw [h.destructor, hmain]
    rfl
  have hround := h.round (.inr (Server.outsideStep_round hserver))
  rcases hnext with rfl | rfl <;> exact ⟨hdestructor, nofun, nofun, by simp, hround, h.silent⟩

theorem Placed.mainStep (h : Placed s) {b : MainAction m} (ht : s.mainStep settings b = some t) :
    Placed t := by
  cases mainStep_move ht with
  | @accept target fd u hmain hu =>
    obtain ⟨server, hserver, rfl⟩ := serve_cases hu
    obtain ⟨-, hserver⟩ := Option.ite_none_right_eq_some.mp hserver
    have hserver : (s.servers target).outsideStep (.accept fd) = some server := hserver
    have hdestructor : s.pool.destructor = .notCalled := by
      rw [h.destructor, hmain]
      rfl
    refine ⟨hdestructor, fun i hi => ?_, nofun, by simp,
      h.round (.inr (Server.outsideStep_round hserver)), h.silent⟩
    obtain rfl : target = i := by simpa using hi
    obtain ⟨-, hserver⟩ := Option.ite_none_right_eq_some.mp hserver
    cases hserver
    simp
  | discard hmain hu => exact h.passOn hmain hu (fun _ => rfl) (.inl rfl)
  | queueInLoop hmain hu => exact h.useLoop (h.passOn hmain hu (fun _ => rfl) (.inr rfl))
  | wakeup hmain => exact h.useLoop (h.goTo (by rw [hmain]; rfl) nofun nofun (by simp))
  | @wakeupQuit i hmain =>
    refine h.useLoop (h.goTo (by rw [hmain]; rfl) nofun nofun fun j hj => ?_)
    obtain rfl : i = j := by simpa using hj
    exact h.told i (.inl hmain)
  | acceptLoopReturns hmain => exact h.goTo (by rw [hmain]; rfl) nofun nofun (by simp)
  | stop hmain hpool =>
    have hsilent := fun w => WorkerPool.notifying_of_step hpool (h.silent w) nofun
    obtain ⟨-, hpool⟩ := Option.ite_none_right_eq_some.mp hpool
    cases hpool
    exact ⟨rfl, nofun, nofun, by simp, h.between, hsilent⟩
  | notifyAll hmain hpool =>
    have hsilent := fun w => WorkerPool.notifying_of_step hpool (h.silent w) nofun
    obtain ⟨-, hpool⟩ := Option.ite_none_right_eq_some.mp hpool
    cases hpool
    exact ⟨rfl, nofun, fun k hk => by cases hk; exact Nat.zero_le n, by simp, h.between, hsilent⟩
  | joinWorker hn hmain =>
    exact h.goTo (by rw [hmain]; rfl) nofun (fun k hk => by cases hk; exact hn) (by simp)
  | destroyPool hmain | lock hmain | destroyAcceptLoop hmain =>
    exact h.goTo (by simp [hmain, MainState.destructor]) nofun nofun (by simp)
  | @quit i hmain hpublished =>
    have hdestructor : s.pool.destructor = .joining := by
      rw [h.destructor, hmain]
      rfl
    refine h.useLoop ⟨hdestructor, nofun, nofun, fun j hj _ => ?_, h.between, h.silent⟩
    obtain rfl : i = j := by simpa using hj
    exact Function.update_self ..
  | @notPublished i hmain hpublished =>
    refine h.goTo (by rw [hmain]; rfl) nofun nofun fun j hj hin => ?_
    obtain rfl : i = j := by simpa using hj
    simp [hpublished] at hin
  | joinThread hmain =>
    have hdestructor : s.pool.destructor = .joining := by
      rw [h.destructor, hmain]
      rfl
    exact ⟨hdestructor, nofun, nofun, by simp, h.between, h.silent⟩

theorem Placed.step (h : Placed s) {a : Action m n} (ht : s.step settings a = some t) :
    Placed t := by
  obtain ⟨-, ht⟩ := Option.ite_none_right_eq_some.mp ht
  cases a with
  | main b => exact h.mainStep ht
  | worker w b => exact h.workerStep ht
  | loop i b => exact h.loopStep ht
  | outside i b =>
    unfold outsideStep at ht
    dsimp only at ht
    split at ht
    · refine h.outside ht (fun _ => rfl) fun server server' hserver => ?_
      cases hserver
      rfl
    · refine h.outside ht (fun _ => rfl) fun server server' hserver => ?_
      cases hserver
      rfl
    · refine h.outside ht (fun _ => rfl) fun server server' hserver => ?_
      obtain ⟨-, hserver⟩ := Option.ite_none_right_eq_some.mp hserver
      cases hserver
      rfl
    · refine h.outside ht (fun _ => rfl) fun server server' hserver => ?_
      obtain ⟨-, hserver⟩ := Option.ite_none_right_eq_some.mp hserver
      cases hserver
      rfl
    · cases ht

theorem reachable_placed {wakeupFds : Fin m → Int} {latencyMetricsEnabled : Bool}
    (h : Reachable (system wakeupFds latencyMetricsEnabled n) s) : Placed s := by
  refine h.invariant ?_ fun s a t _ ih ht => ih.step ht
  rintro s ⟨now, peers, files, hs⟩
  obtain ⟨hpool, hservers, -, hmain, -⟩ := new_cases hs
  obtain ⟨-, hpool⟩ := Option.ite_none_left_eq_some.mp hpool
  have hpool := Option.some.inj hpool
  refine ⟨?_, by simp [hmain], by simp [hmain], by simp [hmain], fun i _ => ?_, fun w => ?_⟩
  · rw [← hpool, hmain]
    rfl
  · rw [hservers i]
    exact ⟨rfl, rfl⟩
  · rw [← hpool]

/-- What a step waits for is a client, an event, or a wake-up for no reason. -/
def Action.awaited : Action m n → Bool
  | .main (.accept _ _) | .main .acceptLoopReturns => true
  | .worker _ .wakeUp => true
  | .loop _ (.move (.wait _)) => true
  | .outside _ _ => true
  | _ => false

inductive MainRests (s : ServeWithEventLoop m n) : Prop where
  | accepting : s.main = .accepting → MainRests s
  | joiningWorker {k : Nat} (hk : k < n) : s.main = .joiningWorkers k →
      s.pool.workers ⟨k, hk⟩ ≠ .exited → MainRests s
  | joiningThread {i : Fin m} : s.main = .joiningThread i → s.threads i ≠ .exited → MainRests s
  | returned : s.main = .returned → MainRests s

variable (settings) in
theorem main_rests (h : Placed s) (hprocess : ∀ i, (s.servers i).process = .running)
    (hstuck : ∀ b, (Action.main b : Action m n).awaited = false → s.mainStep settings b = none) :
    MainRests s := by
  have hdestructor := h.destructor
  cases hmain : s.main with
  | accepting => exact .accepting hmain
  | accepted target =>
    obtain ⟨⟨fd, id⟩, hacceptor⟩ := Option.ne_none_iff_exists'.mp (h.acceptor target hmain)
    have hnone := hstuck .queueInLoop rfl
    simp [mainStep, hmain, serve, Server.step, hprocess, Server.outsideStep, hacceptor] at hnone
  | waking target =>
    have hnone := hstuck .wakeup rfl
    simp [mainStep, hmain] at hnone
  | stopping =>
    have hnone := hstuck .stop rfl
    simp [mainStep, hmain, WorkerPool.step, hdestructor, MainState.destructor] at hnone
  | notifying =>
    have hnone := hstuck .notifyAll rfl
    simp [mainStep, hmain, WorkerPool.step, hdestructor, MainState.destructor] at hnone
  | joiningWorkers k =>
    rcases (h.joined k hmain).lt_or_eq with hk | rfl
    · refine .joiningWorker hk hmain fun hexit => ?_
      have hnone := hstuck .joinWorker rfl
      simp [mainStep, hmain, hk, hexit, WorkerState.hasExited] at hnone
    · have hnone := hstuck .destroyPool rfl
      simp [mainStep, hmain] at hnone
  | destroyingThreads =>
    by_cases hall : ∀ i, s.destroyed i = true
    · have hnone := hstuck .destroyAcceptLoop rfl
      simp [mainStep, hmain, hall] at hnone
    · obtain ⟨i, hi⟩ := not_forall.mp hall
      have hnone := hstuck (.lock i) rfl
      simp [mainStep, hmain, hi] at hnone
  | locked i =>
    have hnone := hstuck .quit rfl
    simp only [mainStep, hmain] at hnone
    split at hnone <;> cases hnone
  | quitting i =>
    have hnone := hstuck .wakeup rfl
    simp [mainStep, hmain] at hnone
  | joiningThread i =>
    refine .joiningThread hmain fun hexit => ?_
    have hnone := hstuck .joinThread rfl
    simp [mainStep, hmain, hexit] at hnone
  | returned => exact .returned hmain

theorem exists_move (settings : Settings) {server : Server} (hprocess : server.process = .running)
    (htodo : server.todo = []) (hphase : server.phase ≠ .waiting) :
    ∃ b state server', threadAfter b = some state ∧
      (Action.loop i (.move b) : Action m n).awaited = false ∧
      server.step settings b = some server' := by
  cases hcase : server.phase with
  | waiting => exact absurd hcase hphase
  | dispatching =>
    by_cases hbatch : server.batch = []
    · exact ⟨.endBatch, _, { server with phase := .timers server.now }, rfl, rfl,
        by simp [Server.step, hprocess, htodo, Server.loopStep, hcase, hbatch]⟩
    · obtain ⟨server', hserver⟩ := Server.exists_dispatch hbatch
      exact ⟨.dispatch [] [] false, _, server', rfl, rfl,
        by simp [Server.step, hprocess, htodo, Server.loopStep, hcase, hserver]⟩
  | runningTasks =>
    cases htasks : server.tasks with
    | nil =>
      exact ⟨.endTasks, _, { server with phase := .dispatching }, rfl, rfl,
        by simp [Server.step, hprocess, htodo, Server.loopStep, hcase, htasks]⟩
    | cons task tasks =>
      exact ⟨.runTask [], _, { server with tasks := tasks }.runTask settings [] task, rfl, rfl,
        by simp [Server.step, hprocess, htodo, Server.loopStep, hcase, htasks]⟩
  | timers now =>
    by_cases hdue : ∃ timer ∈ server.timers, timer.expiresAt ≤ now
    · obtain ⟨timer, hmem, hdue⟩ := hdue
      obtain ⟨first, hfirst, hexpired, hleast⟩ := Server.exists_first hmem hdue
      refine ⟨.runTimer first, _, { server with timers := server.timers.erase first }.runHandler
        first.id (TcpConnection.closeIfIdle server.now first.expectedGeneration), rfl, rfl, ?_⟩
      simp only [Server.step, hprocess, htodo, Server.loopStep, hcase, hfirst, hexpired, true_and,
        if_true, if_pos hleast]
    · have hlater : ∀ timer ∈ server.timers, now < timer.expiresAt := fun timer hmem =>
        Nat.lt_of_not_le fun hle => hdue ⟨timer, hmem, hle⟩
      refine ⟨.endTimers, _, { server with phase := .waiting }, rfl, rfl, ?_⟩
      simp only [Server.step, hprocess, htodo, Server.loopStep, hcase, if_true, if_pos hlater]

structure LoopRests (s : ServeWithEventLoop m n) (i : Fin m) : Prop where
  thread : s.threads i = .iterating ∨ s.threads i = .exited
  todo : (s.servers i).todo = []
  phase : (s.servers i).phase = .waiting

variable (settings) in
theorem exists_call (hprocess : (s.servers i).process = .running) (hhandling : s.handling i = true)
    (hquiet : s.pool.notifying (.caller i) = false) (htodo : (s.servers i).todo ≠ []) :
    ∃ b t, (b = .execute ∨ b = .submit) ∧ s.loopStep settings i b = some t := by
  obtain ⟨server, hserver⟩ := Server.exists_execute (settings i) hprocess htodo
  by_cases hcall : ∃ requestId timing request todo,
      (s.servers i).todo = .requestHandler requestId timing request :: todo
  · obtain ⟨requestId, timing, request, todo, htodo⟩ := hcall
    have hsubmits : ∃ t, s.submit settings i = some t := by
      simp only [submit, htodo]
      split_ifs
      · exact ⟨_, rfl⟩
      · exact ⟨_, rfl⟩
      · simp only [WorkerPool.step, hquiet, WorkerPool.mayCall, and_self, if_true,
          Option.bind_some, serve, hserver, Option.map_some]
        exact ⟨_, rfl⟩
    obtain ⟨t, ht⟩ := hsubmits
    exact ⟨.submit, t, .inr rfl, (if_pos hhandling).trans ht⟩
  · refine ⟨.execute, { s with servers := Function.update s.servers i server }, .inl rfl, ?_⟩
    simp only [loopStep]
    split
    · rename_i requestId timing request todo htodo
      exact absurd ⟨requestId, timing, request, todo, htodo⟩ hcall
    · simp [hhandling, serve, hserver]

variable (settings) in
theorem loop_rests (h : Placed s) (hprocess : ∀ i, (s.servers i).process = .running)
    (hfree : s.main.holds i = false) (hquiet : s.pool.notifying (.caller i) = false)
    (hstuck : ∀ b, (Action.loop i b : Action m n).awaited = false →
      s.loopStep settings i b = none) : LoopRests s i := by
  cases hthread : s.threads i with
  | checking =>
    have hnone := hstuck .check rfl
    simp [loopStep, hthread] at hnone
  | leaving =>
    have hnone := hstuck .clear rfl
    simp [loopStep, hthread, hfree] at hnone
  | cleared =>
    have hnone := hstuck .destroy rfl
    simp [loopStep, hthread] at hnone
  | exited =>
    obtain ⟨htodo, hphase⟩ := h.between i (by simp [hthread])
    exact ⟨.inr hthread, htodo, hphase⟩
  | iterating =>
    have hhandling : s.handling i = true := by simp [handling, hthread, hquiet]
    have htodo : (s.servers i).todo = [] := by
      by_contra hne
      obtain ⟨b, t, hb, hstep⟩ :=
        exists_call settings (hprocess i) hhandling hquiet hne
      rcases hb with rfl | rfl
      · simp [hstuck .execute rfl] at hstep
      · simp [hstuck .submit rfl] at hstep
    refine ⟨.inl hthread, htodo, ?_⟩
    by_contra hphase
    obtain ⟨b, state, server', hafter, hawaited, hstep⟩ :=
      exists_move (settings i) (hprocess i) htodo hphase
    have hnone := hstuck (.move b) hawaited
    simp [loopStep, hafter, hhandling, serve, hstep] at hnone

end ServeWithEventLoop

namespace SearchServer

variable {R : Type*} [Field R] [LinearOrder R] {app : SearchApplication R} {cache : SearchCache}
  {m n : Nat} {wakeupFds : Fin m → Int} {latencyMetricsEnabled : Bool} {s t : SearchServer m n}

/-- The clock and the exceptions come from outside as well. -/
def Action.awaited : Action m n → Bool
  | .serve a => a.awaited
  | .elapse _ | .raise _ => true
  | _ => false

theorem application_of_step {a : Action m n}
    (ht : (system app cache wakeupFds latencyMetricsEnabled n).step s a = some t) :
    t.application = s.application ∨
      (∃ b, s.application.step (fun _ => app) (fun _ => cache) b = some t.application) ∨
        ∃ w, t.application = s.application.goTo w .idle := by
  have hcall : ∀ {w b}, s.call app cache w b = some t →
      ∃ b, s.application.step (fun _ => app) (fun _ => cache) b = some t.application := by
    intro w b ht
    obtain ⟨application, hstep, rfl⟩ := Option.map_eq_some_iff.mp ht
    exact ⟨b, hstep⟩
  have hpass : ∀ {w result queued next}, s.pass
      (ServeWithEventLoop.connectionSettings wakeupFds latencyMetricsEnabled) w result queued next =
        some t → t.application = s.application := by
    intro w result queued next ht
    unfold pass at ht
    split at ht
    · obtain ⟨serving, -, rfl⟩ := Option.map_eq_some_iff.mp ht
      rfl
    · obtain ⟨-, ht⟩ := Option.ite_none_right_eq_some.mp ht
      cases ht
      rfl
  cases a with
  | serve a =>
    obtain ⟨-, ht⟩ := Option.ite_none_right_eq_some.mp ht
    obtain ⟨serving, -, rfl⟩ := Option.map_eq_some_iff.mp ht
    exact .inl rfl
  | elapse elapsed =>
    cases ht
    exact .inr (.inl ⟨.tick elapsed, rfl⟩)
  | answerMetrics w loaded =>
    simp only [system, step] at ht
    split at ht
    · obtain ⟨-, ht⟩ := Option.ite_none_right_eq_some.mp ht
      obtain ⟨parsed, -, rfl⟩ := Option.map_eq_some_iff.mp ht
      exact .inl rfl
    · cases ht
  | handleRequest w =>
    simp only [system, step] at ht
    split at ht
    · obtain ⟨-, ht⟩ := Option.ite_none_right_eq_some.mp ht
      exact .inr (.inl (hcall ht))
    · cases ht
  | redisGet w answer | compute w | redisSet w answer applied => exact .inr (.inl (hcall ht))
  | raise w =>
    simp only [system, step] at ht
    split at ht <;> cases ht <;> exact .inr (.inr ⟨w, rfl⟩)
  | complete w queued thrown =>
    simp only [system, step] at ht
    split at ht
    · obtain ⟨-, ht⟩ := Option.ite_none_right_eq_some.mp ht
      exact .inl (hpass ht)
    · obtain ⟨-, ht⟩ := Option.ite_none_right_eq_some.mp ht
      exact .inl (hpass ht)
    · cases ht

theorem reachable_opened (h : Reachable (system app cache wakeupFds latencyMetricsEnabled n) s) :
    s.application.Opened := by
  refine h.invariant (P := fun s => s.application.Opened) ?_ fun s a t _ ih ht => ?_
  · rintro s ⟨-, ⟨hidle, -⟩, -⟩ w target hcached
    rw [hidle w] at hcached
    cases hcached
  · rcases application_of_step ht with heq | ⟨b, hb⟩ | ⟨w, heq⟩
    · rwa [heq]
    · exact ih.step hb
    · rw [heq]
      exact ih.goTo nofun

/-- No thread goes on by itself. -/
def Stuck (app : SearchApplication R) (cache : SearchCache) (wakeupFds : Fin m → Int)
    (latencyMetricsEnabled : Bool) (s : SearchServer m n) : Prop :=
  ∀ a : Action m n, a.awaited = false →
    (system app cache wakeupFds latencyMetricsEnabled n).step s a = none

theorem Stuck.serve (h : Stuck app cache wakeupFds latencyMetricsEnabled s)
    {a : ServeWithEventLoop.Action m n} (hmay : s.mayServe a = true)
    (hawaited : a.awaited = false) :
    (ServeWithEventLoop.system wakeupFds latencyMetricsEnabled n).step s.serving a = none := by
  have hnone := h (.serve a) hawaited
  simp only [system, step, hmay, if_true, Option.map_eq_none_iff] at hnone
  exact hnone

theorem Stuck.mainStep (h : Stuck app cache wakeupFds latencyMetricsEnabled s)
    (hfault : s.serving.fault = none)
    (hprocess : ∀ i, (s.serving.servers i).process = .running)
    {b : ServeWithEventLoop.MainAction m}
    (hawaited : (ServeWithEventLoop.Action.main b : ServeWithEventLoop.Action m n).awaited =
      false) :
    s.serving.mainStep (ServeWithEventLoop.connectionSettings wakeupFds latencyMetricsEnabled) b =
      none :=
  (if_pos ⟨hfault, hprocess⟩).symm.trans (h.serve (a := .main b) rfl hawaited)

theorem Stuck.workerStep (h : Stuck app cache wakeupFds latencyMetricsEnabled s)
    (hfault : s.serving.fault = none)
    (hprocess : ∀ i, (s.serving.servers i).process = .running) {w : Fin n}
    {b : ServeWithEventLoop.WorkerAction} (hmay : s.mayServe (.worker w b) = true)
    (hawaited : (ServeWithEventLoop.Action.worker w b : ServeWithEventLoop.Action m n).awaited =
      false) :
    s.serving.workerStep (ServeWithEventLoop.connectionSettings wakeupFds latencyMetricsEnabled)
      w b = none :=
  (if_pos ⟨hfault, hprocess⟩).symm.trans (h.serve hmay hawaited)

theorem Stuck.loopStep (h : Stuck app cache wakeupFds latencyMetricsEnabled s)
    (hfault : s.serving.fault = none)
    (hprocess : ∀ i, (s.serving.servers i).process = .running) {i : Fin m}
    {b : ServeWithEventLoop.LoopAction n}
    (hawaited : (ServeWithEventLoop.Action.loop i b : ServeWithEventLoop.Action m n).awaited =
      false) :
    s.serving.loopStep (ServeWithEventLoop.connectionSettings wakeupFds latencyMetricsEnabled)
      i b = none :=
  (if_pos ⟨hfault, hprocess⟩).symm.trans (h.serve (a := .loop i b) rfl hawaited)

theorem Stuck.not_completing (h : Stuck app cache wakeupFds latencyMetricsEnabled s)
    (hfault : s.serving.fault = none)
    (hprocess : ∀ i, (s.serving.servers i).process = .running) (w : Fin n) :
    s.serving.completing w = none := by
  by_contra hne
  obtain ⟨i, hi⟩ := Option.ne_none_iff_exists'.mp hne
  have hnone := h.workerStep hfault hprocess (w := w) (b := .wakeup) rfl rfl
  simp [ServeWithEventLoop.workerStep, hi] at hnone

theorem Stuck.not_finishing (h : Stuck app cache wakeupFds latencyMetricsEnabled s)
    (hreach : Reachable (system app cache wakeupFds latencyMetricsEnabled n) s)
    (hfault : s.serving.fault = none)
    (hprocess : ∀ i, (s.serving.servers i).process = .running) {w : Fin n} {task : Submission m}
    (hrunning : s.serving.pool.workers w = .running task) (outcome : Outcome) :
    (s.tasks w).mayFinish outcome = false := by
  by_contra hmay
  have hsilent := (ServeWithEventLoop.reachable_placed (reachable_serving hreach)).silent w
  have hnone := h.workerStep hfault hprocess (w := w) (b := .finish outcome)
    (by simpa [mayServe] using hmay) rfl
  simp [ServeWithEventLoop.workerStep, h.not_completing hfault hprocess w,
    ServeWithEventLoop.usePool, WorkerPool.step, hrunning, WorkerState.isRunning, hsilent] at hnone

/-- No worker is on its way through `handleRequest`: even where Redis does not answer, the
client of it returns. -/
theorem Stuck.application_idle (h : Stuck app cache wakeupFds latencyMetricsEnabled s)
    (hreach : Reachable (system app cache wakeupFds latencyMetricsEnabled n) s) (w : Fin n) :
    s.application.position w = .idle := by
  by_contra hbusy
  obtain ⟨b, application, hb, hstep⟩ :=
    Serving.exists_step (fun _ => app) (fun _ => cache) (reachable_opened hreach) hbusy
  rcases hb with rfl | ⟨answer, rfl⟩ | ⟨answer, applied, rfl⟩
  · have hnone := h (.compute w) rfl
    simp [system, step, call, hstep] at hnone
  · have hnone := h (.redisGet w answer) rfl
    simp [system, step, call, hstep] at hnone
  · have hnone := h (.redisSet w answer applied) rfl
    simp [system, step, call, hstep] at hnone

theorem Stuck.not_running (h : Stuck app cache wakeupFds latencyMetricsEnabled s)
    (hreach : Reachable (system app cache wakeupFds latencyMetricsEnabled n) s)
    (hfault : s.serving.fault = none)
    (hprocess : ∀ i, (s.serving.servers i).process = .running) {w : Fin n} {task : Submission m} :
    s.serving.pool.workers w ≠ .running task := by
  intro hrunning
  have hserving := reachable_serving hreach
  have hcompleting := h.not_completing hfault hprocess w
  have hcompletes : ∀ result next, ∃ t, s.pass
      (ServeWithEventLoop.connectionSettings wakeupFds latencyMetricsEnabled) w result true next =
        some t := by
    intro result next
    obtain ⟨serving, hstep⟩ := ServeWithEventLoop.complete_enabled hserving hfault hprocess
      hrunning hcompleting result
    exact ⟨_, Option.map_eq_some_iff.mpr ⟨serving, hstep, rfl⟩⟩
  have hfinish := h.not_finishing hreach hfault hprocess hrunning
  have hw := (reachable_sound hreach).workers w
  cases hstate : s.tasks w with
  | entered =>
    simp only [WorkerSound, hstate] at hw
    cases hmetrics : metricsRequest task.request with
    | some parsed =>
      have hnone := h (.answerMetrics w (.new latencyMetricsEnabled)) rfl
      simp [system, step, hrunning, hstate, hmetrics, Observability.RequestLatency.new] at hnone
    | none =>
      have hnone := h (.handleRequest w) rfl
      simp [system, step, hrunning, hstate, hmetrics, call, Serving.step, hw] at hnone
  | handling =>
    simp only [WorkerSound, hstate] at hw
    obtain ⟨_, -, hrequest, -⟩ := hw
    simp [h.application_idle hreach w, WorkerPosition.request] at hrequest
  | answering result =>
    obtain ⟨t, ht⟩ := hcompletes result .completed
    have hnone := h (.complete w true false) rfl
    simp [system, step, hrunning, hstate, ht] at hnone
  | caught =>
    obtain ⟨t, ht⟩ := hcompletes ⟨internalServerError true, true⟩ .completed
    have hnone := h (.complete w true false) rfl
    simp [system, step, hrunning, hstate, ht] at hnone
  | completed => simpa [hstate, TaskState.mayFinish] using hfinish .returned
  | escaping => simpa [hstate, TaskState.mayFinish] using hfinish (.exception "")

theorem Stuck.quiet (h : Stuck app cache wakeupFds latencyMetricsEnabled s)
    (hreach : Reachable (system app cache wakeupFds latencyMetricsEnabled n) s)
    (hfault : s.serving.fault = none)
    (hprocess : ∀ i, (s.serving.servers i).process = .running)
    (thread : Thread n (Fin m)) : s.serving.pool.notifying thread = false := by
  have hserving := reachable_serving hreach
  cases thread with
  | worker w => exact (ServeWithEventLoop.reachable_placed hserving).silent w
  | caller i =>
    by_contra hnotifying
    have hnotifying : s.serving.pool.notifying (.caller i) = true := by simpa using hnotifying
    obtain ⟨waiter, pool, hpool⟩ := WorkerPool.exists_notifyOne hnotifying
    have hnone := h.loopStep hfault hprocess (i := i) (b := .notifyOne waiter) rfl
    simp [ServeWithEventLoop.loopStep, ServeWithEventLoop.usePool, hpool] at hnone

theorem Stuck.worker_rests (h : Stuck app cache wakeupFds latencyMetricsEnabled s)
    (hreach : Reachable (system app cache wakeupFds latencyMetricsEnabled n) s)
    (hfault : s.serving.fault = none)
    (hprocess : ∀ i, (s.serving.servers i).process = .running) (w : Fin n) :
    s.serving.pool.workers w = .waiting ∨ s.serving.pool.workers w = .exited := by
  have hlock : (s.serving.pool.workers w).atLock = false := by
    by_contra hlock
    have hnone := h.workerStep hfault hprocess (w := w) (b := .takeTask) rfl rfl
    simp [ServeWithEventLoop.workerStep, ServeWithEventLoop.usePool, WorkerPool.step, hlock]
      at hnone
  cases hworker : s.serving.pool.workers w with
  | ready | woken => simp [hworker, WorkerState.atLock] at hlock
  | waiting => exact .inl rfl
  | running task => exact absurd hworker (h.not_running hreach hfault hprocess)
  | exited => exact .inr rfl

/-- All that is left is to wait. The main thread is at `accept`, joins a thread that has been
told to quit, or is through; a loop in `epoll_wait` comes out of it once its eventfd is
written; the workers sleep, or have left, with nothing in the queue; and an open connection
either has its completion in the queue of its loop or is settled. -/
structure Waiting (app : SearchApplication R) (cache : SearchCache) (wakeupFds : Fin m → Int)
    (latencyMetricsEnabled : Bool) (s : SearchServer m n) : Prop where
  main : s.serving.main = .accepting ∨ s.serving.main = .returned ∨
    ∃ i, s.serving.main = .joiningThread i ∧ s.serving.threads i = .iterating ∧
      s.serving.quit i = true
  loops : ∀ i, ServeWithEventLoop.LoopRests s.serving i ∧ (s.serving.servers i).tasks = []
  wakes : ∀ i, s.serving.threads i = .iterating →
    ∃ t, (system app cache wakeupFds latencyMetricsEnabled n).step s
      (.serve (.loop i (.move (.wait [(wakeupFds i, EPOLLIN)])))) = some t
  workers : ∀ w, s.serving.pool.workers w = .waiting ∨ s.serving.pool.workers w = .exited
  queue : s.serving.pool.tasks = []
  connections : ∀ i id c, (s.serving.servers i).connections id = some c → 0 ≤ c.fd →
    (∃ timing result, .finishRequest id c.requestGeneration timing result ∈
      (s.serving.servers i).pendingTasks) ∨
    ∃ responses,
      AnsweredBy app latencyMetricsEnabled s.raised ((s.serving.servers i).executed id) c
        responses ∧
      Settled s i id c responses

theorem Stuck.main_rests (h : Stuck app cache wakeupFds latencyMetricsEnabled s)
    (hreach : Reachable (system app cache wakeupFds latencyMetricsEnabled n) s)
    (hfault : s.serving.fault = none)
    (hprocess : ∀ i, (s.serving.servers i).process = .running) :
    ServeWithEventLoop.MainRests s.serving := by
  have hserving := reachable_serving hreach
  exact ServeWithEventLoop.main_rests
    (ServeWithEventLoop.connectionSettings wakeupFds latencyMetricsEnabled)
    (ServeWithEventLoop.reachable_placed hserving) hprocess
    fun _ hawaited => h.mainStep hfault hprocess hawaited

theorem Stuck.loop_rests (h : Stuck app cache wakeupFds latencyMetricsEnabled s)
    (hreach : Reachable (system app cache wakeupFds latencyMetricsEnabled n) s)
    (hfault : s.serving.fault = none)
    (hprocess : ∀ i, (s.serving.servers i).process = .running) (i : Fin m) :
    ServeWithEventLoop.LoopRests s.serving i := by
  have hserving := reachable_serving hreach
  have hfree : s.serving.main.holds i = false := by
    cases h.main_rests hreach hfault hprocess with
    | accepting hmain | joiningWorker _ hmain | joiningThread hmain | returned hmain =>
      rw [hmain]
      rfl
  exact ServeWithEventLoop.loop_rests
    (ServeWithEventLoop.connectionSettings wakeupFds latencyMetricsEnabled)
    (ServeWithEventLoop.reachable_placed hserving) hprocess hfree
    (h.quiet hreach hfault hprocess _) fun _ hawaited => h.loopStep hfault hprocess hawaited

/-- Where everybody waits, the queue is empty: no notification has been lost. -/
theorem Stuck.queue (h : Stuck app cache wakeupFds latencyMetricsEnabled s)
    (hreach : Reachable (system app cache wakeupFds latencyMetricsEnabled n) s)
    (hfault : s.serving.fault = none)
    (hprocess : ∀ i, (s.serving.servers i).process = .running) : s.serving.pool.tasks = [] := by
  have hserving := reachable_serving hreach
  have hpool := WorkerPool.reachable_sound (ServeWithEventLoop.reachable_pool hserving)
  by_contra hne
  rcases hpool.attended hne with ⟨w, hwaiting, hexited⟩ | ⟨thread, hnotifying⟩ | hdestructor
  · rcases h.worker_rests hreach hfault hprocess w with hw | hw
    · exact hwaiting hw
    · exact hexited hw
  · simp [h.quiet hreach hfault hprocess thread] at hnotifying
  · rw [(ServeWithEventLoop.reachable_placed hserving).destructor] at hdestructor
    cases h.main_rests hreach hfault hprocess with
    | accepting hmain | joiningWorker _ hmain | joiningThread hmain | returned hmain =>
      rw [hmain] at hdestructor
      cases hdestructor

/-- The request of a connection that waits for an answer is nowhere but in its loop. -/
theorem Stuck.connection (h : Stuck app cache wakeupFds latencyMetricsEnabled s)
    (hreach : ReachableBy (system app cache wakeupFds latencyMetricsEnabled n) CompletesOnce s)
    (hfault : s.serving.fault = none)
    (hprocess : ∀ i, (s.serving.servers i).process = .running) {i : Fin m} {id : Nat}
    {c : TcpConnection} (hc : (s.serving.servers i).connections id = some c) (hopen : 0 ≤ c.fd) :
    (∃ timing result, .finishRequest id c.requestGeneration timing result ∈
      (s.serving.servers i).pendingTasks) ∨
    ∃ responses,
      AnsweredBy app latencyMetricsEnabled s.raised ((s.serving.servers i).executed id) c
        responses ∧
      Settled s i id c responses := by
  have hserving := reachable_serving hreach.reachable
  have hrests := h.loop_rests hreach.reachable hfault hprocess i
  have hbatch := (Server.reachable_sound (ServeWithEventLoop.reachable_server hserving i)).batch
  have htasks := hbatch.tasks (by simp [hrests.phase])
  by_cases hprocessing : c.processingRequest = true
  · left
    cases reachable_located hreach hfault i id _ ⟨c, hc, hopen, hprocessing, rfl⟩ with
    | inLoop hholds =>
      rcases hholds with ⟨timing, request, hmem⟩ | ⟨timing, result, hmem⟩
      · simp [Server.remaining, hrests.todo] at hmem
      · exact ⟨timing, result, by simpa [htasks] using hmem⟩
    | queued htask => simp [h.queue hreach.reachable hfault hprocess] at htask
    | running hrunning =>
      exact absurd hrunning (h.not_running hreach.reachable hfault hprocess)
  · exact .inr (settled_of_idle hreach.reachable hc hopen hrests.todo (by simpa using hprocessing))

structure Resting (s : SearchServer m n) : Prop where
  main : s.serving.main = .accepting
  threads : ∀ i, s.serving.threads i = .iterating
  loops : ∀ i, (s.serving.servers i).todo = [] ∧ (s.serving.servers i).phase = .waiting
  workers : ∀ w, (s.serving.pool.workers w).isWaiting = true
  notifying : ∀ thread, s.serving.pool.notifying thread = false
  completing : ∀ w, s.serving.completing w = none
  application : ∀ w, (s.application.position w).request = none

theorem Resting.waiting (h : Resting s) (w : Fin n) : s.serving.pool.workers w = .waiting := by
  have hw := h.workers w
  cases hstate : s.serving.pool.workers w with
  | waiting => rfl
  | _ => simp [hstate, WorkerState.isWaiting] at hw

theorem Resting.idle (h : Resting s) (w : Fin n) : s.application.position w = .idle := by
  have hw := h.application w
  cases hposition : s.application.position w with
  | idle => rfl
  | _ => simp [hposition, WorkerPosition.request] at hw

end SearchServer

end CppSearchServer.Main
