import CppSearchServer.Main.ServeWithEventLoop
import CppSearchServer.Net.FdReuse

/-! The end of `serveWithEventLoop`. The workers are joined before any I/O loop is told to
quit, so whatever a worker still completes finds its loop. Nothing keeps the I/O loops
from the pool while it goes: they hand over requests until they quit, after the workers. -/

namespace CppSearchServer.Main

open Net Concurrency Library.TransitionSystem

namespace ThreadState

def inLoop : ThreadState → Bool
  | .checking | .iterating => true
  | _ => false

theorem published_of_inLoop {state : ThreadState} (h : state.inLoop = true) :
    state.published = true := by
  cases state with
  | checking | iterating => rfl
  | _ => cases h

end ThreadState

namespace ServeWithEventLoop

variable {m n : Nat} {settings : Fin m → Settings} {s t next : ServeWithEventLoop m n}
variable {i : Fin m} {w : Fin n} {a : Action m n}

/-- Whoever has been joined is gone, a completion is under way only in a task, and the
loops are told to quit once the pool is destroyed. `left` and `held` are the life of an
`EventLoop`: it ends only behind `quit_`, and not while the mutex is held. -/
structure Ordered (s : ServeWithEventLoop m n) : Prop where
  joined : ∀ w : Fin n, w < s.main.joinedWorkers n → s.pool.workers w = .exited
  completing : ∀ w i, s.completing w = some i → (s.pool.workers w).isRunning = true
  quit : ∀ i, s.quit i = true → s.main.poolDestroyed = true
  left : ∀ i, (s.threads i).inLoop = false → s.quit i = true
  held : ∀ i, s.main = .quitting i → (s.threads i).published = true

/-- An I/O loop comes to `submit` with the pool stopping, or to `notify_one` with the pool
destroyed. -/
def Blamed (s : ServeWithEventLoop m n) : Action m n → Prop
  | .loop _ .submit => s.pool.stopping = true ∨ s.main.poolDestroyed = true
  | .loop _ (.notifyOne _) => s.main.poolDestroyed = true
  | _ => False

def HandedOver (servers : Fin m → Server) (task : Submission m) : Prop :=
  (task.id, task.requestId, task.timing) ∈ (servers task.loop).handedOver

/-- What one step does: every part takes one of its own steps or none, the pool is left
alone once it is destroyed, and no `EventLoop` is used that is. -/
structure Advance (settings : Fin m → Settings) (s : ServeWithEventLoop m n) (a : Action m n)
    (t : ServeWithEventLoop m n) : Prop where
  servers : ∀ i, t.servers i = s.servers i ∨
    ∃ a, (s.servers i).step (settings i) a = some (t.servers i)
  pool : t.pool = s.pool ∨ ∃ a, s.pool.step a = some t.pool ∧
    ∀ thread task, a = .submit thread task → HandedOver t.servers task
  frozen : t.main.poolDestroyed = true →
    t.pool = s.pool ∧ (s.main.poolDestroyed = true ∨ a = .main .destroyPool)
  fault : t.fault = s.fault ∨ s.Blamed a ∧ ∀ i, t.fault ≠ some (.usedLoop i)
  ordered : Ordered t

section Ordered

theorem Ordered.all_exited (h : Ordered s) (hdestroyed : s.main.poolDestroyed = true) (w : Fin n) :
    s.pool.workers w = .exited := by
  refine h.joined w ?_
  have hall : s.main.joinedWorkers n = n := by
    cases hmain : s.main <;> simp_all [MainState.poolDestroyed, MainState.joinedWorkers]
  rw [hall]
  exact w.isLt

theorem Ordered.alive (h : Ordered s) (hdestroyed : s.main.poolDestroyed = false) (i : Fin m) :
    s.threads i ≠ .exited := by
  intro hexit
  have hquit := h.quit i (h.left i (by rw [hexit]; rfl))
  simp [hdestroyed] at hquit

theorem Ordered.not_destroyed (h : Ordered s) (hw : s.pool.workers w ≠ .exited) :
    s.main.poolDestroyed = false := by
  by_contra hdestroyed
  exact hw (h.all_exited (by simpa using hdestroyed) w)

theorem Ordered.advance (h : Ordered s) : Advance settings s a s where
  servers _ := .inl rfl
  pool := .inl rfl
  frozen hdestroyed := ⟨rfl, .inl hdestroyed⟩
  fault := .inl rfl
  ordered := h

end Ordered

theorem useLoop_alive (halive : s.threads i ≠ .exited) : useLoop i s next = next :=
  if_neg halive

theorem serve_cases {a : Server.Action} (ht : s.serve settings i a = some t) :
    ∃ server, (s.servers i).step (settings i) a = some server ∧
      t = { s with servers := Function.update s.servers i server } := by
  obtain ⟨server, hserver, rfl⟩ := Option.map_eq_some_iff.mp ht
  exact ⟨server, hserver, rfl⟩

theorem execute_handedOver {settings : Settings} {server server' : Server} {requestId : Nat}
    {timing : RequestTimingPtr} {request : Bytes} {todo : List Call}
    (htodo : server.todo = .requestHandler requestId timing request :: todo)
    (hstep : server.step settings .execute = some server') :
    server'.handedOver = server.handedOver ++ [(server.active, requestId, timing)] := by
  obtain ⟨-, hstep⟩ := Option.ite_none_right_eq_some.mp hstep
  rw [Server.execute, htodo] at hstep
  cases hstep
  rfl

section Advance

theorem Ordered.fail (h : Ordered s) {fault : Fault m} (hblamed : s.Blamed a)
    (hfault : ∀ i, fault ≠ .usedLoop i) : Advance settings s a (s.fail fault) where
  servers _ := .inl rfl
  pool := .inl rfl
  frozen hdestroyed := ⟨rfl, .inl hdestroyed⟩
  fault := .inr ⟨hblamed, fun i heq => hfault i (Option.some.inj heq)⟩
  ordered := ⟨h.joined, h.completing, h.quit, h.left, h.held⟩

theorem Ordered.pool (h : Ordered s) {pool : WorkerPool n (Fin m) (Submission m)}
    {b : Concurrency.Action n (Fin m) (Submission m)} (hpool : s.pool.step b = some pool)
    (hfinish : ∀ w outcome, b = .finish w outcome → s.completing w = none) :
    Ordered { s with pool := pool } where
  joined w hw := WorkerPool.exited_of_step hpool (h.joined w hw)
  completing w i hcompleting := by
    have hrunning := h.completing w i hcompleting
    cases hw : s.pool.workers w with
    | running task =>
      have hne : ∀ outcome, b ≠ .finish w outcome := fun outcome heq => by
        simp [hfinish w outcome heq] at hcompleting
      change (pool.workers w).isRunning = true
      rw [WorkerPool.running_of_step hpool hw hne]
      rfl
    | _ => simp [hw, WorkerState.isRunning] at hrunning
  quit := h.quit
  left := h.left
  held := h.held

theorem Ordered.poolStep (h : Ordered s) {pool : WorkerPool n (Fin m) (Submission m)}
    {b : Concurrency.Action n (Fin m) (Submission m)} (hpool : s.pool.step b = some pool)
    (hsubmit : ∀ thread task, b ≠ .submit thread task)
    (hfinish : ∀ w outcome, b = .finish w outcome → s.completing w = none)
    (hdestroyed : s.main.poolDestroyed = false) :
    Advance settings s a { s with pool := pool } where
  servers _ := .inl rfl
  pool := .inr ⟨b, hpool, fun thread task heq => absurd heq (hsubmit thread task)⟩
  frozen hdestroyed' := absurd hdestroyed' (by simp [hdestroyed])
  fault := .inl rfl
  ordered := h.pool hpool hfinish

theorem Ordered.serve (h : Ordered s) {b : Server.Action} (ht : s.serve settings i b = some t) :
    Advance settings s a t := by
  obtain ⟨server, hserver, rfl⟩ := serve_cases ht
  refine ⟨fun j => ?_, .inl rfl, fun hdestroyed => ⟨rfl, .inl hdestroyed⟩, .inl rfl,
    ⟨h.joined, h.completing, h.quit, h.left, h.held⟩⟩
  by_cases hj : j = i
  · subst hj
    exact .inr ⟨b, by simpa using hserver⟩
  · exact .inl (Function.update_of_ne hj ..)

theorem Advance.serving (h : Advance settings s a t) {main : MainState m}
    (hjoined : main.joinedWorkers n = 0) (hdestroyed : t.main.poolDestroyed = false)
    (hmain : main.poolDestroyed = false) : Advance settings s a { t with main := main } where
  servers := h.servers
  pool := h.pool
  frozen hdestroyed' := absurd hdestroyed' (by simp [hmain])
  fault := h.fault
  ordered :=
    { joined := fun w hw => absurd hw (by simp [hjoined])
      completing := h.ordered.completing
      quit := fun i hi => absurd (h.ordered.quit i hi) (by simp [hdestroyed])
      left := h.ordered.left
      held := fun i (hi : main = .quitting i) => by rw [hi] at hmain; cases hmain }

theorem Ordered.passOn (h : Ordered s) {b : Server.Action} (ht : s.serve settings i b = some t)
    {main : MainState m} (hjoined : main.joinedWorkers n = 0)
    (hdestroyed : s.main.poolDestroyed = false) (hmain : main.poolDestroyed = false) :
    Advance settings s a { t with main := main } := by
  have hserved : Advance settings s a t := h.serve ht
  obtain ⟨server, -, rfl⟩ := serve_cases ht
  exact hserved.serving hjoined hdestroyed hmain

theorem Advance.destroying (h : Advance settings s a t) {main : MainState m}
    (hdestroyed : t.main.poolDestroyed = true) (hmain : main.poolDestroyed = true)
    (hheld : ∀ i, main = .quitting i → (t.threads i).published = true) :
    Advance settings s a { t with main := main } where
  servers := h.servers
  pool := h.pool
  frozen _ := h.frozen hdestroyed
  fault := h.fault
  ordered :=
    { joined := fun w _ => h.ordered.all_exited hdestroyed w
      completing := h.ordered.completing
      quit := fun _ _ => hmain
      left := h.ordered.left
      held := hheld }

theorem Advance.thread (h : Advance settings s a t) {state : ThreadState}
    (hleft : state.inLoop = false → t.quit i = true)
    (hheld : t.main = .quitting i → state.published = true) :
    Advance settings s a (t.setThread i state) where
  servers := h.servers
  pool := h.pool
  frozen := h.frozen
  fault := h.fault
  ordered :=
    { joined := h.ordered.joined
      completing := h.ordered.completing
      quit := h.ordered.quit
      left := by
        intro j hj
        simp only [setThread, Function.update_apply] at hj ⊢
        split_ifs at hj with heq
        · exact heq ▸ hleft hj
        · exact h.ordered.left j hj
      held := by
        intro j hj
        simp only [setThread, Function.update_apply] at hj ⊢
        split_ifs with heq
        · exact hheld (heq ▸ hj)
        · exact h.ordered.held j hj }

theorem Advance.complete (h : Advance settings s a t) {completing : Fin n → Option (Fin m)}
    (hcompleting : ∀ w i, completing w = some i → (t.pool.workers w).isRunning = true) :
    Advance settings s a { t with completing := completing } :=
  ⟨h.servers, h.pool, h.frozen, h.fault,
    ⟨h.ordered.joined, hcompleting, h.ordered.quit, h.ordered.left, h.ordered.held⟩⟩

end Advance

section Steps

theorem Ordered.usePool (h : Ordered s) {b : Concurrency.Action n (Fin m) (Submission m)}
    (ht : s.usePool b = some t) (hw : s.pool.workers w ≠ .exited)
    (hsubmit : ∀ thread task, b ≠ .submit thread task)
    (hfinish : ∀ w outcome, b = .finish w outcome → s.completing w = none) :
    Advance settings s a t := by
  obtain ⟨pool, hpool, rfl⟩ := Option.map_eq_some_iff.mp ht
  have hdestroyed := h.not_destroyed hw
  rw [if_neg (by simp [hdestroyed])]
  exact h.poolStep hpool hsubmit hfinish hdestroyed

inductive WorkerMove (settings : Fin m → Settings) (s : ServeWithEventLoop m n) (w : Fin n) :
    WorkerAction → ServeWithEventLoop m n → Prop where
  | wakeUp {t : ServeWithEventLoop m n} : s.usePool (.wakeUp w) = some t →
      WorkerMove settings s w .wakeUp t
  | takeTask {t : ServeWithEventLoop m n} : s.usePool (.takeTask w) = some t →
      WorkerMove settings s w .takeTask t
  | complete {task : Submission m} {result : ResponseResult} {u : ServeWithEventLoop m n} :
      s.pool.workers w = .running task → s.completing w = none →
      s.serve settings task.loop (.complete task.id task.requestId task.timing result) = some u →
      WorkerMove settings s w (.complete result) (s.useLoop task.loop
        { u with completing := Function.update s.completing w (some task.loop) })
  | wakeup {i : Fin m} : s.completing w = some i →
      WorkerMove settings s w .wakeup
        (s.useLoop i { s with completing := Function.update s.completing w none })
  | finish {outcome : Outcome} {t : ServeWithEventLoop m n} : s.completing w = none →
      s.usePool (.finish w outcome) = some t → WorkerMove settings s w (.finish outcome) t

theorem workerStep_move {b : WorkerAction} (ht : s.workerStep settings w b = some t) :
    WorkerMove settings s w b t := by
  cases b with
  | wakeUp => exact .wakeUp ht
  | takeTask => exact .takeTask ht
  | complete result =>
    unfold workerStep at ht
    dsimp only at ht
    split at ht
    · obtain ⟨u, hu, rfl⟩ := Option.map_eq_some_iff.mp ht
      exact .complete ‹_› ‹_› hu
    · cases ht
  | wakeup =>
    unfold workerStep at ht
    dsimp only at ht
    split at ht
    · cases ht
      exact .wakeup ‹_›
    · cases ht
  | finish outcome =>
    obtain ⟨hcompleting, ht⟩ := Option.ite_none_right_eq_some.mp ht
    exact .finish hcompleting ht

theorem Ordered.workerStep (h : Ordered s) {b : WorkerAction}
    (ht : s.workerStep settings w b = some t) : Advance settings s (.worker w b) t := by
  cases workerStep_move ht with
  | wakeUp ht =>
    refine h.usePool (w := w) ht (fun hexit => ?_) (by simp) (by simp)
    simp [ServeWithEventLoop.usePool, (WorkerPool.step_of_exited hexit).1] at ht
  | takeTask ht =>
    refine h.usePool (w := w) ht (fun hexit => ?_) (by simp) (by simp)
    simp [ServeWithEventLoop.usePool, (WorkerPool.step_of_exited hexit).2.1] at ht
  | @complete task result u hrunning hcompleting hu =>
    have hdestroyed := h.not_destroyed (w := w) (by simp [hrunning])
    rw [useLoop_alive (h.alive hdestroyed _)]
    have hserved : Advance settings s (.worker w (.complete result)) u := h.serve hu
    obtain ⟨server, -, rfl⟩ := serve_cases hu
    refine hserved.complete fun v j hv => ?_
    rw [Function.update_apply] at hv
    split_ifs at hv with hvw
    · rw [hvw]
      simp [hrunning, WorkerState.isRunning]
    · exact h.completing v j hv
  | @wakeup i hcompleting =>
    have hrunning := h.completing w i hcompleting
    have hdestroyed := h.not_destroyed (w := w) fun hexit => by
      simp [hexit, WorkerState.isRunning] at hrunning
    rw [useLoop_alive (h.alive hdestroyed _)]
    refine h.advance.complete fun v j hv => ?_
    rw [Function.update_apply] at hv
    split_ifs at hv
    exact h.completing v j hv
  | @finish outcome _ hcompleting ht =>
    refine h.usePool (w := w) ht (fun hexit => ?_) (by simp) fun v _ heq => ?_
    · simp [ServeWithEventLoop.usePool, (WorkerPool.step_of_exited hexit).2.2 outcome] at ht
    · cases heq
      exact hcompleting

theorem Ordered.submit (h : Ordered s) (ht : s.submit settings i = some t) :
    Advance settings s (.loop i .submit) t := by
  unfold ServeWithEventLoop.submit at ht
  split at ht
  · rename_i requestId timing request todo htodo
    split_ifs at ht with hdestroyed hstopping
    · cases ht
      exact h.fail (.inr hdestroyed) nofun
    · cases ht
      exact h.fail (.inl hstopping) nofun
    · obtain ⟨pool, hpool, ht⟩ := Option.bind_eq_some_iff.mp ht
      have hserved : Advance settings { s with pool := pool } (.loop i .submit) t :=
        (h.pool hpool nofun).serve ht
      obtain ⟨server, hserver, rfl⟩ := serve_cases ht
      have hhanded : server.handedOver = (s.servers i).handedOver ++
          [((s.servers i).active, requestId, timing)] := execute_handedOver htodo hserver
      refine ⟨hserved.servers, .inr ⟨_, hpool, ?_⟩,
        fun hdestroyed' => absurd hdestroyed' hdestroyed, .inl rfl, hserved.ordered⟩
      rintro _ _ ⟨⟩
      simp [HandedOver, hhanded]
  · cases ht

inductive LoopMove (settings : Fin m → Settings) (s : ServeWithEventLoop m n) (i : Fin m) :
    LoopAction n → ServeWithEventLoop m n → Prop where
  | check : s.threads i = .checking →
      LoopMove settings s i .check (s.setThread i (if s.quit i then .leaving else .iterating))
  | execute {t : ServeWithEventLoop m n} :
      (∀ requestId timing request todo,
        (s.servers i).todo ≠ .requestHandler requestId timing request :: todo) →
      s.handling i = true → s.serve settings i .execute = some t →
      LoopMove settings s i .execute t
  | move {a : Server.Action} {state : ThreadState} {u : ServeWithEventLoop m n} :
      threadAfter a = some state → s.handling i = true → s.serve settings i a = some u →
      LoopMove settings s i (.move a) (u.setThread i state)
  | submit {t : ServeWithEventLoop m n} : s.handling i = true → s.submit settings i = some t →
      LoopMove settings s i .submit t
  | notifyOne {waiter : Option (Fin n)} {t : ServeWithEventLoop m n} :
      s.usePool (.notifyOne (.caller i) waiter) = some t →
      LoopMove settings s i (.notifyOne waiter) t
  | clear : s.threads i = .leaving → s.main.holds i = false →
      LoopMove settings s i .clear (s.setThread i .cleared)
  | destroy : s.threads i = .cleared → LoopMove settings s i .destroy (s.setThread i .exited)

theorem loopStep_move {b : LoopAction n} (ht : s.loopStep settings i b = some t) :
    LoopMove settings s i b t := by
  cases b with
  | check =>
    obtain ⟨hchecking, ht⟩ := Option.ite_none_right_eq_some.mp ht
    cases ht
    exact .check hchecking
  | execute =>
    unfold loopStep at ht
    dsimp only at ht
    split at ht
    · cases ht
    · rename_i hother
      obtain ⟨hhandling, ht⟩ := Option.ite_none_right_eq_some.mp ht
      exact .execute hother hhandling ht
  | move b =>
    unfold loopStep at ht
    dsimp only at ht
    split at ht
    · obtain ⟨hhandling, ht⟩ := Option.ite_none_right_eq_some.mp ht
      obtain ⟨u, hu, rfl⟩ := Option.map_eq_some_iff.mp ht
      exact .move ‹_› hhandling hu
    · cases ht
  | submit =>
    obtain ⟨hhandling, ht⟩ := Option.ite_none_right_eq_some.mp ht
    exact .submit hhandling ht
  | notifyOne waiter => exact .notifyOne ht
  | clear =>
    obtain ⟨⟨hleaving, hholds⟩, ht⟩ := Option.ite_none_right_eq_some.mp ht
    cases ht
    exact .clear hleaving hholds
  | destroy =>
    obtain ⟨hcleared, ht⟩ := Option.ite_none_right_eq_some.mp ht
    cases ht
    exact .destroy hcleared

theorem Ordered.loopStep (h : Ordered s) {b : LoopAction n}
    (ht : s.loopStep settings i b = some t) : Advance settings s (.loop i b) t := by
  cases loopStep_move ht with
  | check =>
    refine h.advance.thread (fun hleft => ?_) fun _ => ?_
    · split at hleft
      · assumption
      · cases hleft
    · split <;> rfl
  | execute _ _ ht => exact h.serve ht
  | @move b state u hafter _ hu =>
    have hstate : state.inLoop = true := by
      cases b <;> cases hafter <;> rfl
    refine (h.serve hu).thread (fun hleft => ?_) fun _ => ?_
    · rw [hstate] at hleft
      cases hleft
    · exact ThreadState.published_of_inLoop hstate
  | submit _ ht => exact h.submit ht
  | notifyOne ht =>
    obtain ⟨pool, hpool, rfl⟩ := Option.map_eq_some_iff.mp ht
    split
    · rename_i hdestroyed
      exact h.fail hdestroyed nofun
    · rename_i hdestroyed
      exact h.poolStep hpool nofun nofun (by simpa using hdestroyed)
  | clear hleaving hholds =>
    refine h.advance.thread (fun _ => h.left i (by rw [hleaving]; rfl)) fun hmain => ?_
    simp [hmain, MainState.holds] at hholds
  | destroy hcleared =>
    refine h.advance.thread (fun _ => h.left i (by rw [hcleared]; rfl)) fun hmain => ?_
    have hheld := h.held i hmain
    rw [hcleared] at hheld
    cases hheld

theorem Ordered.joinWorker (h : Ordered s) {joined : Nat} (hmain : s.main = .joiningWorkers joined)
    (hn : joined < n) (hexit : (s.pool.workers ⟨joined, hn⟩).hasExited = true) :
    Advance settings s (.main .joinWorker) { s with main := .joiningWorkers (joined + 1) } where
  servers _ := .inl rfl
  pool := .inl rfl
  frozen := nofun
  fault := .inl rfl
  ordered :=
    { joined := by
        intro w hw
        rcases Nat.lt_succ_iff_lt_or_eq.mp hw with hlt | heq
        · exact h.joined w (by rw [hmain]; exact hlt)
        · obtain rfl : w = ⟨joined, hn⟩ := Fin.ext heq
          cases hworker : s.pool.workers ⟨joined, hn⟩ with
          | exited => rfl
          | _ => simp [hworker, WorkerState.hasExited] at hexit
      completing := h.completing
      quit := fun i hi => absurd (h.quit i hi) (by simp [hmain, MainState.poolDestroyed])
      left := h.left
      held := nofun }

theorem Ordered.destroyPool (h : Ordered s) (hmain : s.main = .joiningWorkers n) :
    Advance settings s (.main .destroyPool) { s with main := .destroyingThreads } where
  servers _ := .inl rfl
  pool := .inl rfl
  frozen _ := ⟨rfl, .inr rfl⟩
  fault := .inl rfl
  ordered :=
    { joined := fun w _ => h.joined w (by rw [hmain]; exact w.isLt)
      completing := h.completing
      quit := fun _ _ => rfl
      left := h.left
      held := nofun }

theorem Ordered.quitLoop (h : Ordered s) (hdestroyed : s.main.poolDestroyed = true)
    (hpublished : (s.threads i).published = true) :
    Advance settings s a
      { s with quit := Function.update s.quit i true, main := .quitting i } where
  servers _ := .inl rfl
  pool := .inl rfl
  frozen _ := ⟨rfl, .inl hdestroyed⟩
  fault := .inl rfl
  ordered :=
    { joined := fun w _ => h.all_exited hdestroyed w
      completing := h.completing
      quit := fun _ _ => rfl
      left := by
        intro j hj
        simp only [Function.update_apply]
        split_ifs
        · rfl
        · exact h.left j hj
      held := by
        intro j hj
        cases hj
        exact hpublished }

/-- What a step of the main thread can do, by action. -/
inductive MainMove (settings : Fin m → Settings) (s : ServeWithEventLoop m n) :
    MainAction m → ServeWithEventLoop m n → Prop where
  | accept {target : Fin m} {fd : Int} {u : ServeWithEventLoop m n} : s.main = .accepting →
      s.serve settings target (.accept fd) = some u →
      MainMove settings s (.accept target fd) { u with main := .accepted target }
  | discard {target : Fin m} {u : ServeWithEventLoop m n} : s.main = .accepted target →
      s.serve settings target .discard = some u →
      MainMove settings s .discard { u with main := .accepting }
  | queueInLoop {target : Fin m} {u : ServeWithEventLoop m n} : s.main = .accepted target →
      s.serve settings target .queueEstablish = some u →
      MainMove settings s .queueInLoop (s.useLoop target { u with main := .waking target })
  | wakeup {target : Fin m} : s.main = .waking target →
      MainMove settings s .wakeup (s.useLoop target { s with main := .accepting })
  | wakeupQuit {i : Fin m} : s.main = .quitting i →
      MainMove settings s .wakeup (s.useLoop i { s with main := .joiningThread i })
  | acceptLoopReturns : s.main = .accepting →
      MainMove settings s .acceptLoopReturns { s with main := .stopping }
  | stop {pool : WorkerPool n (Fin m) (Submission m)} : s.main = .stopping →
      s.pool.step .stop = some pool →
      MainMove settings s .stop { s with pool := pool, main := .notifying }
  | notifyAll {pool : WorkerPool n (Fin m) (Submission m)} : s.main = .notifying →
      s.pool.step .notifyAll = some pool →
      MainMove settings s .notifyAll { s with pool := pool, main := .joiningWorkers 0 }
  | joinWorker {joined : Nat} (hn : joined < n) : s.main = .joiningWorkers joined →
      (s.pool.workers ⟨joined, hn⟩).hasExited = true →
      MainMove settings s .joinWorker { s with main := .joiningWorkers (joined + 1) }
  | destroyPool : s.main = .joiningWorkers n →
      MainMove settings s .destroyPool { s with main := .destroyingThreads }
  | lock {i : Fin m} : s.main = .destroyingThreads → s.destroyed i = false →
      MainMove settings s (.lock i) { s with main := .locked i }
  | quit {i : Fin m} : s.main = .locked i → (s.threads i).published = true →
      MainMove settings s .quit (s.useLoop i
        { s with quit := Function.update s.quit i true, main := .quitting i })
  | notPublished {i : Fin m} : s.main = .locked i → (s.threads i).published = false →
      MainMove settings s .quit { s with main := .joiningThread i }
  | joinThread {i : Fin m} : s.main = .joiningThread i → s.threads i = .exited →
      MainMove settings s .joinThread { s with
        main := .destroyingThreads
        destroyed := Function.update s.destroyed i true }
  | destroyAcceptLoop : s.main = .destroyingThreads → (∀ i, s.destroyed i = true) →
      MainMove settings s .destroyAcceptLoop { s with main := .returned }

theorem mainStep_move {b : MainAction m} (ht : s.mainStep settings b = some t) :
    MainMove settings s b t := by
  cases b with
  | accept target fd =>
    obtain ⟨hmain, ht⟩ := Option.ite_none_right_eq_some.mp ht
    obtain ⟨u, hu, rfl⟩ := Option.map_eq_some_iff.mp ht
    exact .accept hmain hu
  | discard =>
    unfold mainStep at ht
    dsimp only at ht
    split at ht
    · obtain ⟨u, hu, rfl⟩ := Option.map_eq_some_iff.mp ht
      exact .discard ‹_› hu
    · cases ht
  | queueInLoop =>
    unfold mainStep at ht
    dsimp only at ht
    split at ht
    · obtain ⟨u, hu, rfl⟩ := Option.map_eq_some_iff.mp ht
      exact .queueInLoop ‹_› hu
    · cases ht
  | wakeup =>
    unfold mainStep at ht
    dsimp only at ht
    split at ht <;> cases ht
    · exact .wakeup ‹_›
    · exact .wakeupQuit ‹_›
  | acceptLoopReturns =>
    obtain ⟨hmain, ht⟩ := Option.ite_none_right_eq_some.mp ht
    cases ht
    exact .acceptLoopReturns hmain
  | stop =>
    obtain ⟨hmain, ht⟩ := Option.ite_none_right_eq_some.mp ht
    obtain ⟨pool, hpool, rfl⟩ := Option.map_eq_some_iff.mp ht
    exact .stop hmain hpool
  | notifyAll =>
    obtain ⟨hmain, ht⟩ := Option.ite_none_right_eq_some.mp ht
    obtain ⟨pool, hpool, rfl⟩ := Option.map_eq_some_iff.mp ht
    exact .notifyAll hmain hpool
  | joinWorker =>
    unfold mainStep at ht
    dsimp only at ht
    split at ht
    · split_ifs at ht with hn hexit
      cases ht
      exact .joinWorker hn ‹_› hexit
    · cases ht
  | destroyPool =>
    obtain ⟨hmain, ht⟩ := Option.ite_none_right_eq_some.mp ht
    cases ht
    exact .destroyPool hmain
  | lock i =>
    obtain ⟨⟨hmain, hleft⟩, ht⟩ := Option.ite_none_right_eq_some.mp ht
    cases ht
    exact .lock hmain hleft
  | quit =>
    unfold mainStep at ht
    dsimp only at ht
    split at ht
    · split at ht
      · cases ht
        exact .quit ‹_› ‹_›
      · rename_i hpublished
        cases ht
        exact .notPublished ‹_› (by simpa using hpublished)
    · cases ht
  | joinThread =>
    unfold mainStep at ht
    dsimp only at ht
    split at ht
    · obtain ⟨hexit, ht⟩ := Option.ite_none_right_eq_some.mp ht
      cases ht
      exact .joinThread ‹_› hexit
    · cases ht
  | destroyAcceptLoop =>
    obtain ⟨⟨hmain, hall⟩, ht⟩ := Option.ite_none_right_eq_some.mp ht
    cases ht
    exact .destroyAcceptLoop hmain hall

theorem Ordered.mainStep (h : Ordered s) {b : MainAction m}
    (ht : s.mainStep settings b = some t) : Advance settings s (.main b) t := by
  cases mainStep_move ht with
  | accept hmain hu | discard hmain hu => exact h.passOn hu rfl (by rw [hmain]; rfl) rfl
  | queueInLoop hmain hu =>
    have hdestroyed : s.main.poolDestroyed = false := by rw [hmain]; rfl
    rw [useLoop_alive (h.alive hdestroyed _)]
    exact h.passOn hu rfl hdestroyed rfl
  | wakeup hmain =>
    have hdestroyed : s.main.poolDestroyed = false := by rw [hmain]; rfl
    rw [useLoop_alive (h.alive hdestroyed _)]
    exact h.advance.serving rfl hdestroyed rfl
  | wakeupQuit hmain =>
    have hheld := h.held _ hmain
    rw [useLoop_alive fun hexit => by rw [hexit] at hheld; cases hheld]
    exact h.advance.destroying (by rw [hmain]; rfl) rfl nofun
  | acceptLoopReturns hmain => exact h.advance.serving rfl (by rw [hmain]; rfl) rfl
  | stop hmain hpool | notifyAll hmain hpool =>
    have hdestroyed : s.main.poolDestroyed = false := by rw [hmain]; rfl
    exact (h.poolStep hpool nofun nofun hdestroyed).serving rfl hdestroyed rfl
  | joinWorker hn hmain hexit => exact h.joinWorker hmain hn hexit
  | destroyPool hmain => exact h.destroyPool hmain
  | quit hmain hpublished =>
    rw [useLoop_alive fun hexit => by rw [hexit] at hpublished; cases hpublished]
    exact h.quitLoop (by rw [hmain]; rfl) hpublished
  | lock hmain | notPublished hmain | destroyAcceptLoop hmain =>
    exact h.advance.destroying (by rw [hmain]; rfl) rfl nofun
  | @joinThread i hmain =>
    have hdestroyed : s.main.poolDestroyed = true := by rw [hmain]; rfl
    have hnext : Advance settings s (.main .joinThread)
        { s with destroyed := Function.update s.destroyed i true } :=
      ⟨fun _ => .inl rfl, .inl rfl, fun _ => ⟨rfl, .inl hdestroyed⟩, .inl rfl,
        ⟨h.joined, h.completing, h.quit, h.left, h.held⟩⟩
    exact hnext.destroying hdestroyed rfl nofun

theorem Ordered.step (h : Ordered s) (ht : s.step settings a = some t) :
    Advance settings s a t := by
  obtain ⟨-, ht⟩ := Option.ite_none_right_eq_some.mp ht
  cases a with
  | main b => exact h.mainStep ht
  | worker w b => exact h.workerStep ht
  | loop i b => exact h.loopStep ht
  | outside i b =>
    unfold outsideStep at ht
    dsimp only at ht
    split at ht
    · exact h.serve ht
    · exact h.serve ht
    · exact h.serve ht
    · exact h.serve ht
    · cases ht

end Steps

section Runs
variable {wakeupFds : Fin m → Int} {latencyMetricsEnabled : Bool}

theorem new_cases {now : Nat} {peers : Fin m → Nat → Peer} {files : Fin m → Int → Bool}
    (hs : new m n settings now peers files = some s) :
    WorkerPool.new n (Fin m) (Submission m) = some s.pool ∧
      (∀ i, s.servers i = Server.new (settings i) now (peers i) (files i)) ∧ s.fault = none ∧
        s.main = .accepting ∧ Ordered s := by
  obtain ⟨-, hs⟩ := Option.ite_none_left_eq_some.mp hs
  obtain ⟨pool, hpool, rfl⟩ := Option.map_eq_some_iff.mp hs
  exact ⟨hpool, fun _ => rfl, rfl, rfl, ⟨fun w hw => absurd hw (Nat.not_lt_zero _), nofun, nofun,
    nofun, nofun⟩⟩

theorem reachable_ordered (h : Reachable (system wakeupFds latencyMetricsEnabled n) s) :
    Ordered s := by
  refine h.invariant ?_ ?_
  · rintro s ⟨now, peers, files, hs⟩
    exact (new_cases hs).2.2.2.2
  · exact fun s a t _ ih ht => (ih.step ht).ordered

theorem reachable_server (h : Reachable (system wakeupFds latencyMetricsEnabled n) s) (i : Fin m) :
    Reachable (Server.system (connectionSettings wakeupFds latencyMetricsEnabled i))
      (s.servers i) := by
  refine h.invariant (P := fun s => Reachable (Server.system _) (s.servers i)) ?_ ?_
  · rintro s ⟨now, peers, files, hs⟩
    exact .start ⟨now, peers i, files i, (new_cases hs).2.1 i⟩
  · intro s a t hreach ih ht
    rcases ((reachable_ordered hreach).step ht).servers i with heq | ⟨b, hb⟩
    · rw [heq]
      exact ih
    · exact .next ih hb

theorem reachable_pool (h : Reachable (system wakeupFds latencyMetricsEnabled n) s) :
    Reachable (WorkerPool.system n (Fin m) (Submission m)) s.pool := by
  refine h.invariant (P := fun s => Reachable (WorkerPool.system _ _ _) s.pool) ?_ ?_
  · rintro s ⟨now, peers, files, hs⟩
    exact .start (new_cases hs).1
  · intro s a t hreach ih ht
    rcases ((reachable_ordered hreach).step ht).pool with heq | ⟨b, hb, -⟩
    · rw [heq]
      exact ih
    · exact .next ih hb

theorem accepted_handedOver (h : Reachable (system wakeupFds latencyMetricsEnabled n) s) :
    ∀ task ∈ s.pool.accepted, HandedOver s.servers task := by
  refine h.invariant (P := fun s => ∀ task ∈ s.pool.accepted, HandedOver s.servers task) ?_ ?_
  · rintro s ⟨now, peers, files, hs⟩ task hmem
    have hpool := (new_cases hs).1
    obtain ⟨-, hpool⟩ := Option.ite_none_left_eq_some.mp hpool
    rw [← Option.some.inj hpool] at hmem
    cases hmem
  · intro s a t hreach ih ht task hmem
    have hstep := (reachable_ordered hreach).step ht
    have hkept : HandedOver s.servers task → HandedOver t.servers task := by
      intro hbefore
      rcases hstep.servers task.loop with heq | ⟨b, hb⟩
      · rwa [HandedOver, heq]
      · have hsound := Server.reachable_sound (reachable_server hreach task.loop)
        exact Server.handedOver_subset_of_step hsound hb hbefore
    rcases hstep.pool with heq | ⟨b, hb, hsubmit⟩
    · exact hkept (ih task (heq ▸ hmem))
    rcases WorkerPool.accepted_of_step hb with heq | ⟨thread, added, rfl, heq⟩
    · exact hkept (ih task (heq ▸ hmem))
    · rw [heq] at hmem
      rcases List.mem_append.mp hmem with hmem | hmem
      · exact hkept (ih task hmem)
      · obtain rfl := List.mem_singleton.mp hmem
        exact hsubmit thread task rfl

theorem complete_enabled (h : Reachable (system wakeupFds latencyMetricsEnabled n) s)
    (hfault : s.fault = none) (hprocess : ∀ i, (s.servers i).process = .running)
    {task : Submission m} (hrunning : s.pool.workers w = .running task)
    (hcompleting : s.completing w = none) (result : ResponseResult) :
    ∃ t, (system wakeupFds latencyMetricsEnabled n).step s (.worker w (.complete result)) =
      some t := by
  have hhanded : HandedOver s.servers task :=
    accepted_handedOver h task (WorkerPool.running_accepted (reachable_pool h) hrunning)
  have hmade : (task.id, task.requestId, task.timing) ∈ (s.servers task.loop).handedOver := hhanded
  simp only [system, step, hfault, hprocess, implies_true, and_self, if_true, workerStep, hrunning,
    hcompleting, serve, Server.step, Server.outsideStep, hmade]
  exact ⟨_, rfl⟩

theorem pool_drained (h : Reachable (system wakeupFds latencyMetricsEnabled n) s)
    (hdestroyed : s.main.poolDestroyed = true) : s.pool.stopping = true ∧ s.pool.tasks = [] := by
  have hsound := WorkerPool.reachable_sound (reachable_pool h)
  exact hsound.exits ⟨0, hsound.some_worker⟩ ((reachable_ordered h).all_exited hdestroyed _)

/-- No completion and no `quit` ever reaches a destroyed `EventLoop`. -/
theorem loops_outlive_uses (h : Reachable (system wakeupFds latencyMetricsEnabled n) s)
    (i : Fin m) : s.fault ≠ some (.usedLoop i) := by
  refine h.invariant (P := fun s => s.fault ≠ some (.usedLoop i)) ?_ ?_
  · rintro s ⟨now, peers, files, hs⟩
    rw [(new_cases hs).2.2.1]
    nofun
  · intro s a t hreach ih ht
    rcases ((reachable_ordered hreach).step ht).fault with heq | ⟨-, hfault⟩
    · rwa [heq]
    · exact hfault i

/-- No request is handed over once the pool stops, and its members are not destroyed while
an I/O loop is between the two halves of `submit`. -/
def handsOverInTime (s : ServeWithEventLoop m n) : Action m n → Bool
  | .loop _ .submit => !s.pool.stopping
  | .main .destroyPool => ∀ i, s.pool.notifying (.caller i) = false
  | _ => true

def timelySystem (wakeupFds : Fin m → Int) (latencyMetricsEnabled : Bool) (n : Nat) :
    System (ServeWithEventLoop m n) (Action m n) :=
  restrict (system wakeupFds latencyMetricsEnabled n) handsOverInTime

theorem timely_quiet (h : Reachable (timelySystem wakeupFds latencyMetricsEnabled n) s)
    (hdestroyed : s.main.poolDestroyed = true) (i : Fin m) :
    s.pool.notifying (.caller i) = false := by
  refine h.invariant (P := fun s => s.main.poolDestroyed = true →
    s.pool.notifying (.caller i) = false) ?_ ?_ hdestroyed
  · rintro s ⟨now, peers, files, hs⟩ hdestroyed
    rw [(new_cases hs).2.2.2.1] at hdestroyed
    cases hdestroyed
  · intro s a t hreach ih ht hdestroyed
    obtain ⟨htimely, ht⟩ := restrict_step.mp ht
    have hstep := (reachable_ordered hreach.of_restrict).step ht
    obtain ⟨hpool, hbefore | rfl⟩ := hstep.frozen hdestroyed
    · rw [hpool]
      exact ih hbefore
    · rw [hpool]
      simp only [handsOverInTime, decide_eq_true_eq] at htimely
      exact htimely i

theorem notifying_of_step {waiter : Option (Fin n)}
    (ht : s.step settings (.loop i (.notifyOne waiter)) = some t) :
    s.pool.notifying (.caller i) = true := by
  obtain ⟨-, ht⟩ := Option.ite_none_right_eq_some.mp ht
  obtain ⟨pool, hpool, -⟩ := Option.map_eq_some_iff.mp ht
  exact (Option.ite_none_right_eq_some.mp hpool).1

/-- Where the requests are handed over in time, the whole shutdown is safe. -/
theorem shutdown_safe (h : Reachable (timelySystem wakeupFds latencyMetricsEnabled n) s) :
    s.fault = none := by
  refine h.invariant (P := fun s => s.fault = none) ?_ ?_
  · rintro s ⟨now, peers, files, hs⟩
    exact (new_cases hs).2.2.1
  · intro s a t hreach ih ht
    obtain ⟨htimely, ht⟩ := restrict_step.mp ht
    rcases ((reachable_ordered hreach.of_restrict).step ht).fault with heq | ⟨hblamed, -⟩
    · rw [heq, ih]
    exfalso
    cases a with
    | loop i b =>
      cases b with
      | submit =>
        have hrunning : s.pool.stopping = false := by simpa [handsOverInTime] using htimely
        rcases hblamed with hstopping | hdestroyed
        · simp [hrunning] at hstopping
        · have hstopping := (pool_drained hreach.of_restrict hdestroyed).1
          simp [hrunning] at hstopping
      | notifyOne waiter =>
        have hnotifying := notifying_of_step ht
        rw [timely_quiet hreach hblamed i] at hnotifying
        cases hnotifying
      | _ => exact hblamed
    | _ => exact hblamed

end Runs

/-! One I/O loop, one worker, and a client whose request has just been read. -/

def sampleStart : ServeWithEventLoop 1 1 :=
  (new 1 1 (connectionSettings (fun _ => 3) false) 0 (fun _ _ => .connected)
    fun _ _ => false).get (by decide +kernel)

def requestRead : List (Action 1 1) :=
  [.main (.accept 0 5), .main .queueInLoop, .main .wakeup, .loop 0 .check,
   .loop 0 (.move (.wait [(3, EPOLLIN)])), .loop 0 (.move (.dispatch [] [] true)),
   .loop 0 (.move (.runTask [])), .loop 0 .execute, .loop 0 .execute, .loop 0 (.move .endTasks),
   .loop 0 (.move .endBatch), .loop 0 (.move .endTimers), .loop 0 .check,
   .loop 0 (.move (.wait [(5, EPOLLIN)])),
   .loop 0 (.move (.dispatch [.bytes (ascii "GET / HTTP/1.1" ++ headerEnd)] [] false)),
   .loop 0 .execute, .loop 0 .execute, .loop 0 .execute, .loop 0 .execute]

def poolGone : List (Action 1 1) :=
  [.main .acceptLoopReturns, .main .stop, .main .notifyAll, .worker 0 .takeTask,
   .main .joinWorker, .main .destroyPool]

def answered : List (Action 1 1) :=
  [.worker 0 .takeTask, .worker 0 (.complete ⟨ascii "ok", true⟩), .worker 0 .wakeup,
   .worker 0 (.finish .returned)]

/-- The loop finishes its round, is told to quit in the next one, and sends the response. -/
def loopQuits : List (Action 1 1) :=
  [.loop 0 (.move .endBatch), .loop 0 (.move .endTimers), .loop 0 .check,
   .loop 0 (.move (.wait [(3, EPOLLIN)])), .main (.lock 0), .main .quit, .main .wakeup,
   .loop 0 (.move (.dispatch [] [] true)), .loop 0 (.move (.runTask [.bytes 2])),
   .loop 0 .execute, .loop 0 .execute, .loop 0 .execute, .loop 0 .execute, .loop 0 .execute,
   .loop 0 (.move .endTasks), .loop 0 (.move .endBatch), .loop 0 (.move .endTimers),
   .loop 0 .check, .loop 0 .clear, .loop 0 .destroy, .main .joinThread, .main .destroyAcceptLoop]

def answerAndQuit : List (Action 1 1) :=
  .loop 0 .submit :: .loop 0 (.notifyOne none) :: answered ++ poolGone ++ loopQuits

def returnedState : ServeWithEventLoop 1 1 :=
  (run (timelySystem (fun _ => 3) false 1) sampleStart (requestRead ++ answerAndQuit)).get
    (by decide +kernel)

theorem sampleStart_initial :
    (timelySystem (fun _ => 3) false 1).initial sampleStart :=
  ⟨0, fun _ _ => .connected, fun _ _ => false, (Option.some_get _).symm⟩

/-- The request is answered, and everybody is joined. -/
theorem returnedState_safe : returnedState.main = .returned ∧ returnedState.fault = none :=
  ⟨by decide +kernel,
    shutdown_safe (Reachable.run (.start sampleStart_initial) (Option.some_get _).symm)⟩

def faultAfter (actions : List (Action 1 1)) : Option (Fault 1) :=
  (run (system (fun _ => 3) false 1) sampleStart (requestRead ++ actions)).bind fun s => s.fault

/-- The loop hands the request over when the pool stops, or when it is gone, or it has
pushed the task and not yet notified anybody. -/
theorem shutdown_unsafe :
    faultAfter [.main .acceptLoopReturns, .main .stop, .loop 0 .submit] =
        some (.submitThrew 0) ∧
      faultAfter (poolGone ++ [.loop 0 .submit]) = some .usedPool ∧
      faultAfter (.loop 0 .submit :: answered ++ poolGone ++ [.loop 0 (.notifyOne none)]) =
        some .usedPool ∧
      ¬∀ s, Reachable (system (fun _ : Fin 1 => 3) false 1) s → s.fault = none := by
  have hthrew : faultAfter [.main .acceptLoopReturns, .main .stop, .loop 0 .submit] =
      some (.submitThrew 0) := by decide +kernel
  refine ⟨hthrew, by decide +kernel, by decide +kernel, fun h => ?_⟩
  obtain ⟨s, hrun, hfault⟩ := Option.bind_eq_some_iff.mp hthrew
  rw [h s (Reachable.run (.start sampleStart_initial) hrun)] at hfault
  cases hfault

end ServeWithEventLoop

end CppSearchServer.Main
