import CppSearchServer.Main.Completions
import CppSearchServer.Main.SearchServer

/-! What a client gets.
The call of `handleRequest` in a task returns the answer of an application without a cache,
the task passes that on, and its connection sends it in the place of the request. However
the threads interleave, the bytes on one connection depend on nothing but the bytes its
client has sent, the documents and, for the metrics, the counters. -/

namespace CppSearchServer.Search

open Library.TransitionSystem

def WorkerPosition.request {Instance : Type*} : WorkerPosition Instance → Option Bytes
  | .idle => none
  | .redisGet pending | .computing pending | .redisSet pending _ => some pending.request

namespace Serving

variable {R Worker Instance : Type*} [Field R] [LinearOrder R] [DecidableEq Worker]
  [DecidableEq Instance] {apps : Instance → SearchApplication R}
  {caches : Instance → SearchCache}
  {s t u : Serving Worker Instance} {worker : Worker} {request : Bytes}

/-- One step of a call: it goes on with the same request, or it returns. -/
structure Called (worker : Worker) (request : Bytes) (s t : Serving Worker Instance) : Prop where
  others : ∀ other ≠ worker, t.position other = s.position other
  progress : (t.position worker).request = some request ∧ t.returned = s.returned ∨
    t.position worker = .idle ∧
      ∃ target result, t.returned = s.returned ++ [(target, request, result)]

omit [DecidableEq Instance] in
theorem goTo_called {position : WorkerPosition Instance} (hposition : u.position = s.position)
    (hreturned : u.returned = s.returned) (hrequest : position.request = some request) :
    Called worker request s (u.goTo worker position) :=
  ⟨fun _ hne => (Function.update_of_ne hne ..).trans (congrFun hposition _),
    .inl ⟨by simpa [goTo] using hrequest, hreturned⟩⟩

omit [DecidableEq Instance] in
theorem finish_called (hposition : u.position = s.position) (hreturned : u.returned = s.returned)
    (target : Instance) (result : Except String ApplicationResponse) :
    Called worker request s (u.finish worker target request result) :=
  ⟨fun _ hne => (Function.update_of_ne hne ..).trans (congrFun hposition _),
    .inr ⟨Function.update_self .., target, result,
      congrArg (· ++ [(target, request, result)]) hreturned⟩⟩

theorem lookUp_called (pending : PendingSearch Instance) :
    Called worker pending.request s (s.lookUp caches worker pending) := by
  unfold lookUp
  dsimp only
  split
  · exact goTo_called rfl rfl rfl
  · split
    · exact finish_called rfl rfl _ _
    · split
      · refine finish_called ?_ ?_ _ _ <;> rfl
      · split
        · exact goTo_called rfl rfl rfl
        · exact goTo_called rfl rfl rfl

omit [Field R] in
theorem handleRequest_called (target : Instance) (request : Bytes) :
    Called worker request s (s.handleRequest apps caches worker target request) := by
  unfold handleRequest
  split
  · exact finish_called rfl rfl _ _
  · exact lookUp_called ⟨target, request, _, _⟩

theorem redisGet_called (pending : PendingSearch Instance) (state : SearchCache.ThreadState)
    (answer : RedisAnswer) :
    Called worker pending.request s (s.redisGet worker pending state answer) := by
  unfold redisGet
  dsimp only
  split
  · refine finish_called ?_ ?_ _ _ <;> rfl
  · exact goTo_called rfl rfl rfl

theorem compute_called (pending : PendingSearch Instance) :
    Called worker pending.request s (s.compute apps caches worker pending) := by
  unfold compute
  dsimp only
  split
  · exact finish_called rfl rfl _ _
  · split
    · exact finish_called rfl rfl _ _
    · split
      · exact goTo_called rfl rfl rfl
      · refine finish_called ?_ ?_ _ _ <;> rfl

theorem redisSet_called (pending : PendingSearch Instance) (json : Bytes)
    (state : SearchCache.ThreadState) (answer : RedisAnswer) (applied : Bool) :
    Called worker pending.request s
      (s.redisSet caches worker pending json state answer applied) := by
  unfold redisSet
  dsimp only
  split <;> refine finish_called ?_ ?_ _ _ <;> rfl

/-- The worker whose call a step belongs to, and the request of that call. -/
def Action.call (s : Serving Worker Instance) : Action Worker Instance → Option (Worker × Bytes)
  | .tick _ => none
  | .handleRequest worker _ request => some (worker, request)
  | .redisGet worker _ | .compute worker | .redisSet worker _ _ =>
    (s.position worker).request.map fun request => (worker, request)

theorem exists_call {a : Action Worker Instance} (ht : s.step apps caches a = some t) :
    (∃ elapsed, a = .tick elapsed) ∨
      ∃ worker request, a.call s = some (worker, request) := by
  cases a with
  | tick elapsed => exact .inl ⟨elapsed, rfl⟩
  | handleRequest worker target request => exact .inr ⟨worker, request, rfl⟩
  | redisGet worker _ | compute worker | redisSet worker _ _ =>
    simp only [step] at ht
    split at ht
    · rename_i hposition
      exact .inr ⟨worker, _, by rw [Action.call, hposition]; rfl⟩
    · cases ht

theorem step_called {a : Action Worker Instance} (ht : s.step apps caches a = some t)
    (hcall : a.call s = some (worker, request)) : Called worker request s t := by
  cases a with
  | tick elapsed => cases hcall
  | handleRequest worker' target request' =>
    cases hcall
    simp only [step] at ht
    split at ht <;> cases ht
    exact handleRequest_called target request
  | redisGet worker' answer =>
    simp only [step] at ht
    split at ht
    · rename_i pending hposition
      obtain ⟨rfl, rfl⟩ : worker' = worker ∧ pending.request = request := by
        simpa [Action.call, hposition, WorkerPosition.request] using hcall
      split at ht
      · obtain ⟨-, ht⟩ := Option.ite_none_right_eq_some.mp ht
        cases ht
        exact redisGet_called pending _ answer
      · cases ht
    · cases ht
  | compute worker' =>
    simp only [step] at ht
    split at ht
    · rename_i pending hposition
      obtain ⟨rfl, rfl⟩ : worker' = worker ∧ pending.request = request := by
        simpa [Action.call, hposition, WorkerPosition.request] using hcall
      cases ht
      exact compute_called pending
    · cases ht
  | redisSet worker' answer applied =>
    simp only [step] at ht
    split at ht
    · rename_i pending json hposition
      obtain ⟨rfl, rfl⟩ : worker' = worker ∧ pending.request = request := by
        simpa [Action.call, hposition, WorkerPosition.request] using hcall
      obtain ⟨state, -, rfl⟩ := Option.map_eq_some_iff.mp ht
      exact redisSet_called pending json state answer applied
    · cases ht

end Serving

end CppSearchServer.Search

namespace CppSearchServer.Main

open Net Concurrency Search Http Observability Library.TransitionSystem Library.Framing

section
variable {R : Type*} [Field R] [LinearOrder R] (app : SearchApplication R)
  (latencyMetricsEnabled : Bool)

/-- What may be sent for a request: the answer of an application without a cache, a
snapshot of the metrics, or the news of an exception, if there has been one. -/
inductive Answer (raised : Bool) (request : Bytes) : ResponseResult → Prop where
  | application : metricsRequest request = none →
      Answer raised request
        ⟨(app.uncached request).response, (app.uncached request).closeAfterResponse⟩
  | metrics {parsed : HttpRequest} {loaded : RequestLatency} :
      metricsRequest request = some parsed → loaded.enabled = latencyMetricsEnabled →
      Answer raised request
        ⟨okJson loaded.snapshotJson (shouldCloseConnection app.headerOrder parsed),
          shouldCloseConnection app.headerOrder parsed⟩
  | failed : raised = true → Answer raised request ⟨internalServerError true, true⟩

variable {app latencyMetricsEnabled}

theorem Answer.mono {raised raised' : Bool} {request : Bytes} {result : ResponseResult}
    (h : Answer app latencyMetricsEnabled raised request result)
    (hraised : raised = true → raised' = true) :
    Answer app latencyMetricsEnabled raised' request result := by
  cases h with
  | application hnone => exact .application hnone
  | metrics hparsed henabled => exact .metrics hparsed henabled
  | failed h => exact .failed (hraised h)

end

namespace SearchServer

variable {R : Type*} [Field R] [LinearOrder R] {app : SearchApplication R} {cache : SearchCache}
  {m n : Nat} {wakeupFds : Fin m → Int} {latencyMetricsEnabled : Bool} {s t : SearchServer m n}
  {w : Fin n}

/-- A worker inside `handleRequest` is there for the request of its task, and what it holds
when it comes out is an answer to that. -/
def WorkerSound (app : SearchApplication R) (latencyMetricsEnabled : Bool)
    (s : SearchServer m n) (w : Fin n) : Prop :=
  match s.tasks w with
  | .handling => ∃ task, s.serving.pool.workers w = .running task ∧
      (s.application.position w).request = some task.request ∧ metricsRequest task.request = none
  | .answering result => s.application.position w = .idle ∧
      ∃ task, s.serving.pool.workers w = .running task ∧
        Answer app latencyMetricsEnabled s.raised task.request result
  | .caught => s.application.position w = .idle ∧ s.raised = true
  | .entered | .completed | .escaping => s.application.position w = .idle

/-- The results passed on are answers to the requests of the tasks. -/
def AnswersTasks (app : SearchApplication R) (latencyMetricsEnabled raised : Bool)
    (task : Submission m) : ResponseResult → Prop :=
  Answer app latencyMetricsEnabled raised task.request

structure Sound (app : SearchApplication R) (cache : SearchCache) (wakeupFds : Fin m → Int)
    (latencyMetricsEnabled : Bool) (s : SearchServer m n) : Prop where
  serving : ∀ raised, (s.raised = true → raised = true) →
    ReachableBy (ServeWithEventLoop.system wakeupFds latencyMetricsEnabled n)
      (ServeWithEventLoop.Completes (AnswersTasks app latencyMetricsEnabled raised)) s.serving
  application : s.application.Sound (fun _ => app) fun _ => cache
  workers : ∀ w, WorkerSound app latencyMetricsEnabled s w

theorem WorkerSound.congr (h : WorkerSound app latencyMetricsEnabled s w)
    (htasks : t.tasks w = s.tasks w)
    (hposition : t.application.position w = s.application.position w)
    (hraised : s.raised = true → t.raised = true)
    (hrunning : s.tasks w = .handling ∨ (∃ result, s.tasks w = .answering result) →
      ∀ task, s.serving.pool.workers w = .running task →
        t.serving.pool.workers w = .running task) : WorkerSound app latencyMetricsEnabled t w := by
  unfold WorkerSound at h ⊢
  rw [htasks, hposition]
  cases hstate : s.tasks w with
  | handling =>
    simp only [hstate] at h ⊢
    obtain ⟨task, htask, hrest⟩ := h
    exact ⟨task, hrunning (.inl hstate) task htask, hrest⟩
  | answering result =>
    simp only [hstate] at h ⊢
    obtain ⟨hidle, task, htask, hanswer⟩ := h
    exact ⟨hidle, task, hrunning (.inr ⟨result, hstate⟩) task htask, hanswer.mono hraised⟩
  | caught =>
    simp only [hstate] at h ⊢
    exact ⟨h.1, hraised h.2⟩
  | entered | completed | escaping => simpa only [hstate] using h

theorem tasksAfter_cases (s : SearchServer m n) (a : ServeWithEventLoop.Action m n) (w : Fin n) :
    (∃ outcome, a = .worker w (.finish outcome) ∧ s.tasksAfter a w = .entered) ∨
      (∀ outcome, a ≠ .worker w (.finish outcome)) ∧ s.tasksAfter a w = s.tasks w := by
  unfold tasksAfter
  split
  · rename_i v outcome
    by_cases hv : w = v
    · subst hv
      exact .inl ⟨outcome, rfl, Function.update_self ..⟩
    · refine .inr ⟨fun outcome heq => hv ?_, Function.update_of_ne hv ..⟩
      cases heq
      rfl
  · rename_i hends
    exact .inr ⟨hends w, rfl⟩

theorem Sound.serve {a : ServeWithEventLoop.Action m n}
    (h : Sound app cache wakeupFds latencyMetricsEnabled s) (hmay : s.mayServe a = true)
    {serving : ServeWithEventLoop m n}
    (ht : (ServeWithEventLoop.system wakeupFds latencyMetricsEnabled n).step s.serving a =
      some serving) :
    Sound app cache wakeupFds latencyMetricsEnabled
      { s with serving := serving, tasks := s.tasksAfter a } where
  serving raised hraised := by
    refine .next (h.serving raised hraised) ?_ ht
    rintro w result task rfl
    cases hmay
  application := h.application
  workers w := by
    have hturn := ServeWithEventLoop.step_turn ht
    rcases s.tasksAfter_cases a w with ⟨outcome, rfl, hentered⟩ | ⟨hends, hsame⟩
    · have hidle : s.application.position w = .idle := by
        have hw := h.workers w
        unfold WorkerSound at hw
        cases hstate : s.tasks w with
        | completed | escaping => simpa only [hstate] using hw
        | _ =>
          simp [mayServe, hstate, TaskState.mayFinish] at hmay
      simpa only [WorkerSound, hentered] using hidle
    · exact (h.workers w).congr hsame rfl id fun _ task hrunning => hturn.running hrunning hends

theorem Sound.goOn (serving : ServeWithEventLoop m n) (application : Serving (Fin n) Unit)
    {next : TaskState} (h : Sound app cache wakeupFds latencyMetricsEnabled s)
    (ht : t = ({ s with serving := serving, application := application } : SearchServer m n).setTask
      w next)
    (hserving : ∀ raised, (t.raised = true → raised = true) →
      ReachableBy (ServeWithEventLoop.system wakeupFds latencyMetricsEnabled n)
        (ServeWithEventLoop.Completes (AnswersTasks app latencyMetricsEnabled raised)) serving)
    (happlication : application.Sound (fun _ => app) fun _ => cache)
    (hothers : ∀ v ≠ w, application.position v = s.application.position v)
    (hrunning : ∀ v task, s.serving.pool.workers v = .running task →
      serving.pool.workers v = .running task)
    (hw : WorkerSound app latencyMetricsEnabled t w) :
    Sound app cache wakeupFds latencyMetricsEnabled t := by
  subst ht
  refine ⟨hserving, happlication, fun v => ?_⟩
  by_cases hv : v = w
  · exact hv ▸ hw
  · refine (h.workers v).congr (Function.update_of_ne hv ..) (hothers v hv) (fun hraised => ?_)
      fun _ task => hrunning v task
    simp [setTask, hraised]

theorem Sound.sameServing (h : Sound app cache wakeupFds latencyMetricsEnabled s)
    (hraised : s.raised = true → t.raised = true) : ∀ raised, (t.raised = true → raised = true) →
      ReachableBy (ServeWithEventLoop.system wakeupFds latencyMetricsEnabled n)
        (ServeWithEventLoop.Completes (AnswersTasks app latencyMetricsEnabled raised)) s.serving :=
  fun raised hraised' => h.serving raised (hraised' ∘ hraised)

theorem Sound.call {a : Serving.Action (Fin n) Unit} {task : Submission m}
    (h : Sound app cache wakeupFds latencyMetricsEnabled s)
    (hrunning : s.serving.pool.workers w = .running task)
    (hother : metricsRequest task.request = none)
    (hcall : a.call s.application = some (w, task.request))
    (ht : s.call app cache w a = some t) : Sound app cache wakeupFds latencyMetricsEnabled t := by
  obtain ⟨application, hstep, rfl⟩ := Option.map_eq_some_iff.mp ht
  have happlication : application.Sound (fun _ => app) fun _ => cache :=
    h.application.step (Serving.agree_const app _) hstep
  obtain ⟨hothers, hprogress⟩ := Serving.step_called hstep hcall
  refine h.goOn s.serving application rfl
    (h.sameServing fun hraised => by simp [setTask, hraised]) happlication hothers
    (fun _ _ => id) ?_
  rcases hprogress with ⟨hrequest, -⟩ | ⟨hidle, target, result, hreturned⟩
  · have hstate : callState w application = .handling := by
      unfold callState
      cases hposition : application.position w with
      | idle => simp [hposition, WorkerPosition.request] at hrequest
      | _ => rfl
    simp only [WorkerSound, setTask, hstate, Function.update_self]
    exact ⟨task, hrunning, hrequest, hother⟩
  · have hresult := happlication.results (target, task.request, result) (by simp [hreturned])
    cases result with
    | ok response =>
      have hstate : callState w application =
          .answering ⟨response.response, response.closeAfterResponse⟩ := by
        simp [callState, hidle, hreturned]
      obtain rfl : response = app.uncached task.request := hresult
      simp only [WorkerSound, setTask, hstate, Function.update_self]
      exact ⟨hidle, task, hrunning, .application hother⟩
    | error message =>
      have hstate : callState w application = .caught := by
        simp [callState, hidle, hreturned]
      simp only [WorkerSound, setTask, hstate, Function.update_self]
      exact ⟨hidle, by simp⟩

theorem Sound.handling (h : Sound app cache wakeupFds latencyMetricsEnabled s) {request : Bytes}
    (hrequest : (s.application.position w).request = some request) :
    ∃ task, s.serving.pool.workers w = .running task ∧ request = task.request ∧
      metricsRequest task.request = none := by
  have hw := h.workers w
  have hbusy : s.application.position w ≠ .idle := by
    intro hidle
    simp [hidle, WorkerPosition.request] at hrequest
  unfold WorkerSound at hw
  cases hstate : s.tasks w with
  | handling =>
    simp only [hstate] at hw
    obtain ⟨task, hrunning, hsame, hother⟩ := hw
    exact ⟨task, hrunning, Option.some.inj (hrequest.symm.trans hsame), hother⟩
  | answering result | caught =>
    simp only [hstate] at hw
    exact absurd hw.1 hbusy
  | entered | completed | escaping =>
    simp only [hstate] at hw
    exact absurd hw hbusy

theorem Sound.pass {result : ResponseResult} {queued : Bool} {next : TaskState}
    (h : Sound app cache wakeupFds latencyMetricsEnabled s)
    (hidle : s.application.position w = .idle)
    (hresult : ∀ task, s.serving.pool.workers w = .running task →
      Answer app latencyMetricsEnabled s.raised task.request result)
    (hnext : next = .completed ∨ next = .caught ∨ next = .escaping)
    (ht : s.pass (ServeWithEventLoop.connectionSettings wakeupFds latencyMetricsEnabled) w result
      queued next = some t) : Sound app cache wakeupFds latencyMetricsEnabled t := by
  have hstays : ∀ serving : ServeWithEventLoop m n,
      WorkerSound app latencyMetricsEnabled ({ s with serving := serving }.setTask w next) w := by
    intro serving
    rcases hnext with rfl | rfl | rfl <;>
      simp [WorkerSound, setTask, hidle]
  unfold SearchServer.pass at ht
  split at ht
  · obtain ⟨serving, hstep, rfl⟩ := Option.map_eq_some_iff.mp ht
    have hturn := ServeWithEventLoop.step_turn hstep
    refine h.goOn serving s.application rfl (fun raised hraised => ?_) h.application
      (fun _ _ => rfl) (fun v task hrunning => ?_) (hstays serving)
    · have hmono : s.raised = true → raised = true := fun hs => hraised (by simp [setTask, hs])
      refine .next (a := .worker w (.complete result)) (h.serving raised hmono) ?_ hstep
      rintro w' result' task heq hrunning
      cases heq
      exact (hresult task hrunning).mono hmono
    · exact hturn.running hrunning nofun
  · obtain ⟨-, ht⟩ := Option.ite_none_right_eq_some.mp ht
    cases ht
    exact h.goOn s.serving s.application rfl
      (h.sameServing fun hraised => by simp [setTask, hraised]) h.application (fun _ _ => rfl)
      (fun _ _ => id) (hstays s.serving)

theorem Sound.step {a : Action m n} (h : Sound app cache wakeupFds latencyMetricsEnabled s)
    (ht : (system app cache wakeupFds latencyMetricsEnabled n).step s a = some t) :
    Sound app cache wakeupFds latencyMetricsEnabled t := by
  cases a with
  | serve a =>
    obtain ⟨hmay, ht⟩ := Option.ite_none_right_eq_some.mp ht
    obtain ⟨serving, hstep, rfl⟩ := Option.map_eq_some_iff.mp ht
    exact h.serve hmay hstep
  | elapse elapsed =>
    cases ht
    exact ⟨h.serving, h.application.step (Serving.agree_const app _)
      (a := .tick elapsed) rfl, fun w => h.workers w⟩
  | answerMetrics w loaded =>
    simp only [system, SearchServer.step] at ht
    split at ht
    · rename_i task hrunning hstate
      obtain ⟨henabled, ht⟩ := Option.ite_none_right_eq_some.mp ht
      obtain ⟨parsed, hparsed, rfl⟩ := Option.map_eq_some_iff.mp ht
      have hidle := h.workers w
      simp only [WorkerSound, hstate] at hidle
      refine h.goOn s.serving s.application rfl
        (h.sameServing fun hraised => by simp [setTask, hraised]) h.application (fun _ _ => rfl)
        (fun _ _ => id) ?_
      simp only [WorkerSound, setTask, Function.update_self]
      exact ⟨hidle, task, hrunning, .metrics hparsed henabled⟩
    · cases ht
  | handleRequest w =>
    simp only [system, SearchServer.step] at ht
    split at ht
    · rename_i task hrunning hstate
      obtain ⟨hother, ht⟩ := Option.ite_none_right_eq_some.mp ht
      exact h.call hrunning hother rfl ht
    · cases ht
  | redisGet w answer | compute w | redisSet w answer applied =>
    have ht : s.call app cache w _ = some t := ht
    obtain ⟨application, hstep, -⟩ := Option.map_eq_some_iff.mp ht
    obtain ⟨_, _, hcall⟩ := (Serving.exists_call hstep).resolve_left nofun
    obtain ⟨request, hrequest, -⟩ := Option.map_eq_some_iff.mp hcall
    obtain ⟨task, hrunning, rfl, hother⟩ := h.handling hrequest
    exact h.call hrunning hother (by simp [Serving.Action.call, hrequest]) ht
  | raise w =>
    have hraises : t = { s with application := s.application.goTo w .idle }.setTask w .caught := by
      simp only [system, SearchServer.step] at ht
      split at ht <;> cases ht <;> rfl
    subst hraises
    have hothers : ∀ v ≠ w, (s.application.goTo w .idle).position v = s.application.position v :=
      fun v hv => Function.update_of_ne hv ..
    refine h.goOn s.serving _ rfl (h.sameServing fun hraised => by simp [setTask, hraised])
      (h.application.goTo trivial) hothers (fun _ _ => id) ?_
    simp [WorkerSound, setTask, Serving.goTo]
  | complete w queued thrown =>
    have hw := h.workers w
    simp only [system, SearchServer.step] at ht
    split at ht
    · rename_i task result hrunning hstate
      obtain ⟨-, ht⟩ := Option.ite_none_right_eq_some.mp ht
      simp only [WorkerSound, hstate] at hw
      obtain ⟨hidle, task', hrunning', hanswer⟩ := hw
      refine h.pass hidle (fun task'' hrunning'' => ?_) ?_ ht
      · obtain rfl : task' = task'' := by simpa [hrunning'] using hrunning''
        exact hanswer
      · cases thrown <;> simp
    · rename_i task hrunning hstate
      obtain ⟨-, ht⟩ := Option.ite_none_right_eq_some.mp ht
      simp only [WorkerSound, hstate] at hw
      refine h.pass hw.1 (fun _ _ => .failed hw.2) ?_ ht
      cases thrown <;> simp
    · cases ht

theorem reachable_sound (h : Reachable (system app cache wakeupFds latencyMetricsEnabled n) s) :
    Sound app cache wakeupFds latencyMetricsEnabled s := by
  refine h.invariant ?_ fun s a t _ ih ht => ih.step ht
  rintro s ⟨hserving, happlication, htasks, hraised⟩
  refine ⟨fun _ _ => .start hserving, Serving.reachable_sound (Serving.agree_const app _)
    (.start happlication), fun w => ?_⟩
  simp only [WorkerSound, htasks]
  exact happlication.1 w

theorem reachable_serving (h : Reachable (system app cache wakeupFds latencyMetricsEnabled n) s) :
    Reachable (ServeWithEventLoop.system wakeupFds latencyMetricsEnabled n) s.serving :=
  ((reachable_sound h).serving true fun _ => rfl).reachable

/-- The responses of a connection are answers to the first frames it has received, in order;
they are what it has sent and what it still has to send. -/
structure AnsweredBy (app : SearchApplication R) (latencyMetricsEnabled raised : Bool)
    (made : List Call) (c : TcpConnection) (responses : List ResponseResult) : Prop where
  answers : List.Forall₂ (Answer app latencyMetricsEnabled raised)
    ((frames headerEnd (received c.calls)).take responses.length) responses
  outgoing : accepted c.calls ++ c.outputBuffer.peek = responses.flatMap ResponseResult.response
  sent : accepted made <+: responses.flatMap ResponseResult.response
  handed_le : (handed c.calls).length ≤ responses.length + 1
  closing : ∀ k (h : k + 1 < responses.length), responses[k].closeAfterResponse = false

theorem exists_answeredBy (h : Reachable (system app cache wakeupFds latencyMetricsEnabled n) s)
    {i : Fin m} {id : Nat} {c : TcpConnection}
    (hc : (s.serving.servers i).connections id = some c) :
    ∃ delivered responses, Session.Pipeline c delivered responses ∧
      AnsweredBy app latencyMetricsEnabled s.raised ((s.serving.servers i).executed id) c
        responses := by
  have hserving := (reachable_sound h).serving s.raised fun h => h
  have hattributed := ServeWithEventLoop.reachable_attributed hserving
  obtain ⟨delivered, responses, hpipeline, hanswers⟩ :=
    hattributed.responses hserving.reachable hc
  have hcount := hpipeline.framed.count
  have hbalance := hpipeline.balance
  have hframes : handed c.calls =
      (frames headerEnd (received c.calls)).take (handed c.calls).length := by
    rw [← hpipeline.framed.split,
      frames_flatten_append headerEnd_ne_nil _ hpipeline.framed.frames, List.take_left]
  have hle : responses.length ≤ (handed c.calls).length := by omega
  refine ⟨delivered, responses, hpipeline, ?_, hpipeline.outgoing, ?_, ?_, hpipeline.onlyLast⟩
  · have htake : (frames headerEnd (received c.calls)).take responses.length =
        (handed c.calls).take responses.length := by
      rw [hframes, List.take_take, Nat.min_eq_left hle]
    rw [htake, List.forall₂_iff_get]
    refine ⟨by simp [hle], fun k _ hk => ?_⟩
    obtain ⟨w, task, -, -, -, -, hrequest, hanswer⟩ := hanswers k hk
    obtain ⟨hlt, hget⟩ := List.getElem?_eq_some_iff.mp hrequest
    rw [AnswersTasks, ← hget] at hanswer
    simpa using hanswer
  · have hserver := ServeWithEventLoop.reachable_server hserving.reachable i
    obtain ⟨fd, hest⟩ := (Server.reachable_sound hserver).tables.established id c hc
    rw [← hpipeline.outgoing, TcpConnection.outgoing, hest.calls, accepted_append,
      List.append_assoc]
    exact List.prefix_append ..
  · split at hbalance <;> omega

/-- The bytes on the wire are the answers to the client's own requests, in order. -/
theorem wire_answersInOrder
    (h : Reachable (system app cache wakeupFds latencyMetricsEnabled n) s) :
    ∀ i id c, (s.serving.servers i).connections id = some c → ∃ responses,
      AnsweredBy app latencyMetricsEnabled s.raised ((s.serving.servers i).executed id) c
        responses := by
  intro i id c hc
  obtain ⟨delivered, responses, -, hanswered⟩ := exists_answeredBy h hc
  exact ⟨responses, hanswered⟩

def idealStream (app : SearchApplication R) (requests : List Bytes) : Bytes :=
  requests.flatMap fun request => (app.uncached request).response

/-- Where nothing was thrown and no metrics are asked for, the answers are those of the
application. -/
theorem flatMap_answers {requests : List Bytes} {responses : List ResponseResult}
    (hanswers : List.Forall₂ (Answer app latencyMetricsEnabled false) requests responses)
    (hplain : ∀ request ∈ requests, metricsRequest request = none) :
    responses.flatMap ResponseResult.response = idealStream app requests := by
  induction hanswers with
  | nil => rfl
  | @cons request response requests responses hanswer _ ih =>
    have hhead : response.response = (app.uncached request).response := by
      cases hanswer with
      | application => rfl
      | metrics hparsed => simp [hplain request (by simp)] at hparsed
      | failed hraised => cases hraised
    rw [idealStream, List.flatMap_cons, List.flatMap_cons, hhead,
      ih fun request hmem => hplain request (List.mem_cons_of_mem _ hmem), idealStream]

theorem sent_prefix_ideal
    (h : Reachable (system app cache wakeupFds latencyMetricsEnabled n) s)
    (hraised : s.raised = false) {i : Fin m} {id : Nat} {c : TcpConnection}
    (hc : (s.serving.servers i).connections id = some c) {stream : Bytes}
    (hstream : received c.calls <+: stream)
    (hplain : ∀ request ∈ frames headerEnd stream, metricsRequest request = none) :
    accepted ((s.serving.servers i).executed id) <+: idealStream app (frames headerEnd stream) := by
  obtain ⟨-, responses, -, hanswered⟩ := exists_answeredBy h hc
  have hframes := frames_prefix headerEnd_ne_nil hstream
  have htaken : (frames headerEnd (received c.calls)).take responses.length <+:
      frames headerEnd stream := (List.take_prefix ..).trans hframes
  have hanswers := hanswered.answers
  rw [hraised] at hanswers
  have hsent := hanswered.sent
  rw [flatMap_answers hanswers fun request hmem => hplain request (htaken.subset hmem)] at hsent
  refine hsent.trans ?_
  obtain ⟨rest, heq⟩ := htaken
  rw [← heq, idealStream, idealStream, List.flatMap_append]
  exact List.prefix_append ..

/-- What one client sees does not depend on any other: two connections on which the same
bytes came in, of programs over the same chunks with however many clients, loops and workers
and with whatever cache, have sent the same bytes as far as both have got. -/
theorem clients_isolated {m' n' : Nat} {app' : SearchApplication R} {cache' : SearchCache}
    {wakeupFds' : Fin m' → Int} {latencyMetricsEnabled' : Bool} {s' : SearchServer m' n'}
    {chunks : List DocumentChunk} (hchunks : app.Over chunks) (hchunks' : app'.Over chunks)
    (hplatform : app.SamePlatform app') (horder : app.headerOrder = app'.headerOrder)
    (h : Reachable (system app cache wakeupFds latencyMetricsEnabled n) s)
    (h' : Reachable (system app' cache' wakeupFds' latencyMetricsEnabled' n') s')
    (hraised : s.raised = false) (hraised' : s'.raised = false) {i : Fin m} {i' : Fin m'}
    {id id' : Nat} {c c' : TcpConnection} (hc : (s.serving.servers i).connections id = some c)
    (hc' : (s'.serving.servers i').connections id' = some c')
    (hstream : received c.calls <+: received c'.calls)
    (hplain : ∀ request ∈ frames headerEnd (received c'.calls), metricsRequest request = none) :
    accepted ((s.serving.servers i).executed id) <+:
        accepted ((s'.serving.servers i').executed id') ∨
      accepted ((s'.serving.servers i').executed id') <+:
        accepted ((s.serving.servers i).executed id) := by
  have hsent := sent_prefix_ideal h hraised hc hstream hplain
  have hsent' := sent_prefix_ideal h' hraised' hc' List.prefix_rfl hplain
  have hideal : idealStream app (frames headerEnd (received c'.calls)) =
      idealStream app' (frames headerEnd (received c'.calls)) := by
    refine List.flatMap_congr fun request _ => ?_
    rw [hchunks.uncached_eq hchunks' hplatform horder]
  rw [hideal] at hsent
  exact List.prefix_or_prefix_of_prefix hsent hsent'

/-! One I/O loop and one worker. The client sends a search; the answer is not in Redis, is
computed and stored, and goes out in two pieces. -/

def sampleStart : SearchServer 1 1 where
  serving := ServeWithEventLoop.sampleStart
  application := ⟨0, fun _ => .idle, fun _ _ => none, [], []⟩
  tasks := fun _ => .entered
  raised := false

def searchRequest : Bytes := ascii "GET /search?q=lru+epoll HTTP/1.1\r\n\r\n"

def single : Fin 1 := ⟨0, Nat.one_pos⟩

def searchRead : List (Action 1 1) :=
  [.serve (.main (.accept single 5)), .serve (.main .queueInLoop), .serve (.main .wakeup),
   .serve (.loop single .check), .serve (.loop single (.move (.wait [(3, EPOLLIN)]))),
   .serve (.loop single (.move (.dispatch [] [] true))),
   .serve (.loop single (.move (.runTask []))), .serve (.loop single .execute),
   .serve (.loop single .execute), .serve (.loop single (.move .endTasks)),
   .serve (.loop single (.move .endBatch)), .serve (.loop single (.move .endTimers)),
   .serve (.loop single .check), .serve (.loop single (.move (.wait [(5, EPOLLIN)]))),
   .serve (.loop single (.move (.dispatch [.bytes searchRequest] [] false))),
   .serve (.loop single .execute), .serve (.loop single .execute),
   .serve (.loop single .execute), .serve (.loop single .execute),
   .serve (.loop single .submit), .serve (.loop single (.notifyOne none))]

def searchAnswered : List (Action 1 1) :=
  [.serve (.worker single .takeTask), .handleRequest single,
   .redisGet single ⟨true, true, some .nil⟩, .compute single,
   .redisSet single ⟨true, true, none⟩ true, .complete single true false,
   .serve (.worker single .wakeup), .serve (.worker single (.finish .returned)),
   .serve (.loop single (.move .endBatch)), .serve (.loop single (.move .endTimers)),
   .serve (.loop single .check), .serve (.loop single (.move (.wait [(3, EPOLLIN)]))),
   .serve (.loop single (.move (.dispatch [] [] true))),
   .serve (.loop single (.move (.runTask [.bytes 100, .bytes 1000]))),
   .serve (.loop single .execute), .serve (.loop single .execute),
   .serve (.loop single .execute), .serve (.loop single .execute)]

def observed (s : SearchServer 1 1) : Bool × Option Bytes × Bytes :=
  (s.raised, ((s.serving.servers single).connections 0).map fun c => received c.calls,
    accepted ((s.serving.servers single).executed 0))

def observedAfter (actions : List (Action 1 1)) : Option (Bool × Option Bytes × Bytes) :=
  (run (system Serving.sampleApp (Serving.sampleCaches ()) (fun _ => 3) false 1) sampleStart
    actions).map observed

theorem sampleStart_initial :
    (system Serving.sampleApp (Serving.sampleCaches ()) (fun _ => 3) false 1).initial
      sampleStart := by
  have hserving : (ServeWithEventLoop.system (fun _ : Fin 1 => 3) false 1).initial
      ServeWithEventLoop.sampleStart :=
    ⟨0, fun _ _ => .connected, fun _ _ => false, (Option.some_get _).symm⟩
  exact ⟨hserving, ⟨fun _ => rfl, fun _ _ => rfl, rfl, nofun⟩, fun _ => rfl, rfl⟩

theorem exists_observed {actions : List (Action 1 1)} {request sent : Bytes}
    (h : observedAfter actions = some (false, some request, sent)) :
    ∃ (s : SearchServer 1 1) (c : TcpConnection),
      Reachable (system Serving.sampleApp (Serving.sampleCaches ()) (fun _ => 3) false 1) s ∧
      s.raised = false ∧ (s.serving.servers 0).connections 0 = some c ∧
      received c.calls = request ∧ accepted ((s.serving.servers 0).executed 0) = sent := by
  obtain ⟨s, hrun, hobserved⟩ := Option.map_eq_some_iff.mp h
  simp only [observed, Prod.mk.injEq, Option.map_eq_some_iff] at hobserved
  obtain ⟨hraised, ⟨c, hc, hreceived⟩, hsent⟩ := hobserved
  exact ⟨s, c, Reachable.run (.start sampleStart_initial) hrun, hraised, hc, hreceived, hsent⟩

theorem observed_answered : observedAfter (searchRead ++ searchAnswered) =
    some (false, some searchRequest,
      (Serving.sampleApp.uncached searchRequest).response) := by
  decide +kernel

theorem observed_half : observedAfter ((searchRead ++ searchAnswered).take 37) =
    some (false, some searchRequest,
      (Serving.sampleApp.uncached searchRequest).response.take 100) := by
  decide +kernel

theorem answered_wire :
    ∃ (s : SearchServer 1 1) (c : TcpConnection) (responses : List ResponseResult),
      accepted ((s.serving.servers 0).executed 0) =
          (Serving.sampleApp.uncached searchRequest).response ∧
        AnsweredBy Serving.sampleApp false s.raised ((s.serving.servers 0).executed 0) c
          responses := by
  obtain ⟨s, c, hreachable, -, hc, -, hsent⟩ := exists_observed observed_answered
  obtain ⟨responses, hanswered⟩ := wire_answersInOrder hreachable 0 0 c hc
  exact ⟨s, c, responses, hsent, hanswered⟩

theorem half_isolated : ∃ s s' : SearchServer 1 1,
    accepted ((s.serving.servers 0).executed 0) ≠ accepted ((s'.serving.servers 0).executed 0) ∧
      (accepted ((s.serving.servers 0).executed 0) <+:
          accepted ((s'.serving.servers 0).executed 0) ∨
        accepted ((s'.serving.servers 0).executed 0) <+:
          accepted ((s.serving.servers 0).executed 0)) := by
  obtain ⟨s, c, hreachable, hraised, hc, hreceived, hsent⟩ := exists_observed observed_half
  obtain ⟨s', c', hreachable', hraised', hc', hreceived', hsent'⟩ :=
    exists_observed observed_answered
  have hplain : ∀ request ∈ frames headerEnd searchRequest,
      (metricsRequest request).isNone = true := by decide +kernel
  have hshorter : (Serving.sampleApp.uncached searchRequest).response.take 100 ≠
      (Serving.sampleApp.uncached searchRequest).response := by decide +kernel
  have hchunks : Serving.sampleApp.Over SearchService.sampleChunks :=
    Serving.sampleInstances.loaded true
  refine ⟨s, s', by rwa [hsent, hsent'], clients_isolated hchunks hchunks ⟨rfl, rfl, rfl⟩ rfl
    hreachable hreachable' hraised hraised' hc hc' (by rw [hreceived, hreceived'])
    fun request hmem => ?_⟩
  rw [hreceived'] at hmem
  exact Option.isNone_iff_eq_none.mp (hplain request hmem)

end SearchServer

end CppSearchServer.Main
