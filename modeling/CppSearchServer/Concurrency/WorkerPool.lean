import CppSearchServer.Library.TransitionSystem
import Mathlib.Data.Fin.Basic
import Mathlib.Data.Fintype.Basic
import Mathlib.Data.List.Basic

/-! `concurrency::WorkerPool` with `n` workers and any number of callers.
Each block under the mutex is one step, and so are the notifications made after
the unlock. A waiter may also wake up by itself. -/

namespace CppSearchServer.Concurrency

open Library.TransitionSystem

/-- `ready` is before the lock of the next round; `waiting` is in the wait set of
`task_available_`, and `woken` has left it and is to check the predicate again. -/
inductive WorkerState (Task : Type*) where
  | ready
  | waiting
  | woken
  | running (task : Task)
  | exited

def WorkerState.isWaiting {Task : Type*} : WorkerState Task → Bool
  | .waiting => true
  | _ => false

def WorkerState.isRunning {Task : Type*} : WorkerState Task → Bool
  | .running _ => true
  | _ => false

def WorkerState.hasExited {Task : Type*} : WorkerState Task → Bool
  | .exited => true
  | _ => false

def WorkerState.atLock {Task : Type*} : WorkerState Task → Bool
  | .ready | .woken => true
  | _ => false

inductive Destructor where
  | notCalled
  | notifying
  | joining
deriving DecidableEq

/-- What calling a task does: it returns, throws a `std::exception`, or throws
something else. -/
inductive Outcome where
  | returned
  | exception (what : String)
  | unknownException
deriving DecidableEq

/-- A task may submit further tasks, so the workers are callers too. -/
inductive Thread (n : Nat) (Caller : Type*) where
  | worker (w : Fin n)
  | caller (c : Caller)
deriving DecidableEq

/-- `notifying` are the threads in `submit` between the unlock and `notify_one`.
`errors` is what was written to `std::cerr`. `accepted` and `started` are the
history: the tasks pushed, and the tasks popped by which worker. -/
structure WorkerPool (n : Nat) (Caller Task : Type*) where
  tasks : List Task
  stopping : Bool
  workers : Fin n → WorkerState Task
  notifying : Thread n Caller → Bool
  destructor : Destructor
  errors : List String
  accepted : List Task
  started : List (Fin n × Task)

inductive Action (n : Nat) (Caller Task : Type*) where
  | submit (thread : Thread n Caller) (task : Task)
  | notifyOne (thread : Thread n Caller) (waiter : Option (Fin n))
  | wakeUp (w : Fin n)
  | takeTask (w : Fin n)
  | finish (w : Fin n) (outcome : Outcome)
  | stop
  | notifyAll

namespace WorkerPool

variable {n : Nat} {Caller Task : Type*}

def new (n : Nat) (Caller Task : Type*) : Option (WorkerPool n Caller Task) :=
  if n = 0 then none
  else some ⟨[], false, fun _ => .ready, fun _ => false, .notCalled, [], [], []⟩

def setWorker (w : Fin n) (state : WorkerState Task) (s : WorkerPool n Caller Task) :
    WorkerPool n Caller Task :=
  { s with workers := Function.update s.workers w state }

/-- `stopping_ || !tasks_.empty()` fails: wait; it holds: leave, or take the front. -/
def takeTask (w : Fin n) (s : WorkerPool n Caller Task) : WorkerPool n Caller Task :=
  match s.tasks, s.stopping with
  | [], false => s.setWorker w .waiting
  | [], true => s.setWorker w .exited
  | task :: tasks, _ =>
    { s.setWorker w (.running task) with
      tasks := tasks
      started := s.started ++ [(w, task)] }

def report : Outcome → List String
  | .returned => []
  | .exception what => ["WorkerPool task failed: " ++ what ++ "\n"]
  | .unknownException => ["WorkerPool task failed with an unknown exception\n"]

def finishTask (w : Fin n) (outcome : Outcome) (s : WorkerPool n Caller Task) :
    WorkerPool n Caller Task :=
  { s.setWorker w .ready with errors := s.errors ++ report outcome }

def notifyAll (s : WorkerPool n Caller Task) : WorkerPool n Caller Task :=
  { s with
    workers := fun w => if (s.workers w).isWaiting then .woken else s.workers w
    destructor := .joining }

variable [DecidableEq Caller]

/-- `submit` up to its unlock; after `stopping_` it throws and pushes nothing. -/
def submit (thread : Thread n Caller) (task : Task) (s : WorkerPool n Caller Task) :
    WorkerPool n Caller Task :=
  if s.stopping then s
  else
    { s with
      tasks := s.tasks ++ [task]
      notifying := Function.update s.notifying thread true
      accepted := s.accepted ++ [task] }

def mayCall (s : WorkerPool n Caller Task) : Thread n Caller → Bool
  | .worker w => (s.workers w).isRunning
  | .caller _ => true

def step (s : WorkerPool n Caller Task) :
    Action n Caller Task → Option (WorkerPool n Caller Task)
  | .submit thread task =>
    if s.notifying thread = false ∧ s.mayCall thread = true then some (s.submit thread task)
    else none
  | .notifyOne thread waiter =>
    if s.notifying thread = true then
      let s := { s with notifying := Function.update s.notifying thread false }
      match waiter with
      | some w => if (s.workers w).isWaiting = true then some (s.setWorker w .woken) else none
      | none => if ∀ w, (s.workers w).isWaiting = false then some s else none
    else none
  | .wakeUp w => if (s.workers w).isWaiting = true then some (s.setWorker w .woken) else none
  | .takeTask w => if (s.workers w).atLock = true then some (s.takeTask w) else none
  | .finish w outcome =>
    if (s.workers w).isRunning = true ∧ s.notifying (.worker w) = false then
      some (s.finishTask w outcome)
    else none
  | .stop =>
    if s.destructor = .notCalled then
      some { s with stopping := true, destructor := .notifying }
    else none
  | .notifyAll => if s.destructor = .notifying then some s.notifyAll else none

def system (n : Nat) (Caller Task : Type*) [DecidableEq Caller] :
    System (WorkerPool n Caller Task) (Action n Caller Task) where
  initial s := new n Caller Task = some s
  step := step

/-- Before its next look at the queue, which it takes before it can sleep. -/
def Awake (s : WorkerPool n Caller Task) (w : Fin n) : Prop :=
  s.workers w ≠ .waiting ∧ s.workers w ≠ .exited

/-- Somebody awake will look at the queue, or a notification is still to come. -/
def Attended (s : WorkerPool n Caller Task) : Prop :=
  s.tasks ≠ [] → (∃ w, s.Awake w) ∨ (∃ thread, s.notifying thread = true) ∨
    s.destructor = .notifying

structure Sound (s : WorkerPool n Caller Task) : Prop where
  some_worker : 0 < n
  order : s.started.map Prod.snd ++ s.tasks = s.accepted
  exits : ∀ w, s.workers w = .exited → s.stopping = true ∧ s.tasks = []
  stops : s.destructor = .notCalled ↔ s.stopping = false
  attended : s.Attended
  none_waits : s.destructor = .joining → ∀ w, s.workers w ≠ .waiting

variable {s t : WorkerPool n Caller Task}

omit [DecidableEq Caller] in
theorem setWorker_workers (w v : Fin n) (state : WorkerState Task) :
    (s.setWorker w state).workers v = if v = w then state else s.workers v := by
  simp [setWorker, Function.update_apply]

omit [DecidableEq Caller] in
theorem isWaiting_iff (state : WorkerState Task) : state.isWaiting = true ↔ state = .waiting := by
  cases state <;> simp [WorkerState.isWaiting]

omit [DecidableEq Caller] in
theorem new_sound (hs : new n Caller Task = some s) : Sound s := by
  unfold new at hs
  split at hs
  · cases hs
  · cases hs
    exact ⟨by omega, rfl, by simp, by simp, fun h => absurd rfl h, by simp⟩

omit [DecidableEq Caller] in
theorem Sound.awake (h : Sound s) (hne : s.tasks ≠ []) {w : Fin n}
    (hw : s.workers w ≠ .waiting) : s.Awake w :=
  ⟨hw, fun hexit => hne (h.exits w hexit).2⟩

theorem Sound.submit (h : Sound s) (thread : Thread n Caller) (task : Task) :
    Sound (s.submit thread task) := by
  unfold WorkerPool.submit
  split
  · exact h
  · rename_i hrun
    refine ⟨h.some_worker, by simp [← h.order], ?_, h.stops, ?_, h.none_waits⟩
    · intro w hexit
      exact absurd (h.exits w hexit).1 hrun
    · exact fun _ => .inr (.inl ⟨thread, by simp⟩)

omit [DecidableEq Caller] in
theorem Sound.goes (h : Sound s) (w : Fin n) {state : WorkerState Task}
    (hstate : state.atLock = true) (notifying : Thread n Caller → Bool) (errors : List String) :
    Sound { s.setWorker w state with notifying := notifying, errors := errors } := by
  have hlock : state ≠ .waiting ∧ state ≠ .exited := by
    cases state <;> simp [WorkerState.atLock] at hstate ⊢
  refine ⟨h.some_worker, h.order, fun v hexit => ?_, h.stops,
    fun _ => .inl ⟨w, by simpa [Awake, setWorker] using hlock⟩, fun hjoin v => ?_⟩
  · change (s.setWorker w state).workers v = .exited at hexit
    rw [setWorker_workers] at hexit
    split at hexit
    · exact absurd hexit hlock.2
    · exact h.exits v hexit
  · change (s.setWorker w state).workers v ≠ .waiting
    rw [setWorker_workers]
    split
    · exact hlock.1
    · exact h.none_waits hjoin v

omit [DecidableEq Caller] in
theorem Sound.takeTask (h : Sound s) (w : Fin n) : Sound (s.takeTask w) := by
  have horder := h.order
  unfold WorkerPool.takeTask
  split
  case h_1 htasks hrun =>
    have hempty : (s.setWorker w .waiting).tasks = [] := htasks
    refine ⟨h.some_worker, h.order, fun v hexit => ?_, h.stops, fun hne => absurd hempty hne,
      fun hjoin => ?_⟩
    · rw [setWorker_workers] at hexit
      split at hexit
      · cases hexit
      · exact h.exits v hexit
    · have hcalled : s.destructor = .notCalled := h.stops.mpr hrun
      have hjoin : s.destructor = .joining := hjoin
      simp [hcalled] at hjoin
  case h_2 htasks hstop =>
    have hempty : (s.setWorker w .exited).tasks = [] := htasks
    refine ⟨h.some_worker, h.order, fun _ _ => ⟨hstop, htasks⟩, h.stops,
      fun hne => absurd hempty hne, fun hjoin v => ?_⟩
    rw [setWorker_workers]
    split
    · simp
    · exact h.none_waits hjoin v
  case h_3 _ task tasks htasks =>
    rw [htasks] at horder
    refine ⟨h.some_worker, by simpa [setWorker] using horder, fun v hexit => ?_, h.stops,
      fun _ => .inl ⟨w, by simp [Awake, setWorker_workers]⟩, fun hjoin v => ?_⟩
    · change (s.setWorker w (.running task)).workers v = .exited at hexit
      rw [setWorker_workers] at hexit
      split at hexit
      · cases hexit
      · exact absurd (h.exits v hexit).2 (by simp [htasks])
    · change (s.setWorker w (.running task)).workers v ≠ .waiting
      rw [setWorker_workers]
      split
      · simp
      · exact h.none_waits hjoin v

omit [DecidableEq Caller] in
/-- With nobody waiting, a notification may get lost. -/
theorem Sound.unnotified (h : Sound s) (hnone : ∀ w, (s.workers w).isWaiting = false)
    (notifying : Thread n Caller → Bool) : Sound { s with notifying := notifying } := by
  refine ⟨h.some_worker, h.order, h.exits, h.stops, fun hne => .inl ?_, h.none_waits⟩
  refine ⟨⟨0, h.some_worker⟩, h.awake hne fun hw => ?_⟩
  have hfalse := hnone ⟨0, h.some_worker⟩
  rw [(isWaiting_iff _).mpr hw] at hfalse
  cases hfalse

omit [DecidableEq Caller] in
theorem Sound.notifyAll (h : Sound s) (hstop : s.destructor = .notifying) :
    Sound s.notifyAll := by
  have hwaits : ∀ w, s.notifyAll.workers w ≠ .waiting := by
    intro w
    change (if (s.workers w).isWaiting then .woken else s.workers w) ≠ .waiting
    split
    · simp
    · rename_i hw
      exact fun heq => hw ((isWaiting_iff _).mpr heq)
  have hexits : ∀ w, s.notifyAll.workers w = .exited → s.stopping = true ∧ s.tasks = [] := by
    intro w hexit
    change (if (s.workers w).isWaiting then .woken else s.workers w) = .exited at hexit
    split at hexit
    · cases hexit
    · exact h.exits w hexit
  have hstopping : s.stopping ≠ false := fun hrun => by
    have hcalled := h.stops.mpr hrun
    simp [hstop] at hcalled
  refine ⟨h.some_worker, h.order, hexits, ?_, fun hne => .inl ?_, fun _ => hwaits⟩
  · exact ⟨fun hjoin => (by cases hjoin), fun hrun => absurd hrun hstopping⟩
  · exact ⟨⟨0, h.some_worker⟩, hwaits _, fun hexit => hne (hexits _ hexit).2⟩

inductive Move (s : WorkerPool n Caller Task) :
    Action n Caller Task → WorkerPool n Caller Task → Prop where
  | submit (thread : Thread n Caller) (task : Task) :
      Move s (.submit thread task) (s.submit thread task)
  | notified (thread : Thread n Caller) {w : Fin n} : (s.workers w).isWaiting = true →
      Move s (.notifyOne thread (some w)) { s.setWorker w .woken with
        notifying := Function.update s.notifying thread false }
  | unnoticed (thread : Thread n Caller) : (∀ w, (s.workers w).isWaiting = false) →
      Move s (.notifyOne thread none) { s with
        notifying := Function.update s.notifying thread false }
  | wakeUp {w : Fin n} : (s.workers w).isWaiting = true →
      Move s (.wakeUp w) (s.setWorker w .woken)
  | takeTask {w : Fin n} : (s.workers w).atLock = true → Move s (.takeTask w) (s.takeTask w)
  | finish {w : Fin n} (outcome : Outcome) : (s.workers w).isRunning = true →
      Move s (.finish w outcome) (s.finishTask w outcome)
  | stop : s.destructor = .notCalled →
      Move s .stop { s with stopping := true, destructor := .notifying }
  | notifyAll : s.destructor = .notifying → Move s .notifyAll s.notifyAll

theorem step_move {a : Action n Caller Task} (ht : s.step a = some t) : Move s a t := by
  cases a with
  | submit thread task =>
    obtain ⟨-, ht⟩ := Option.ite_none_right_eq_some.mp ht
    cases ht
    exact .submit thread task
  | notifyOne thread waiter =>
    obtain ⟨-, ht⟩ := Option.ite_none_right_eq_some.mp ht
    cases waiter with
    | some w =>
      obtain ⟨hwait, ht⟩ := Option.ite_none_right_eq_some.mp ht
      cases ht
      exact .notified thread hwait
    | none =>
      obtain ⟨hnone, ht⟩ := Option.ite_none_right_eq_some.mp ht
      cases ht
      exact .unnoticed thread hnone
  | wakeUp w =>
    obtain ⟨hwait, ht⟩ := Option.ite_none_right_eq_some.mp ht
    cases ht
    exact .wakeUp hwait
  | takeTask w =>
    obtain ⟨hlock, ht⟩ := Option.ite_none_right_eq_some.mp ht
    cases ht
    exact .takeTask hlock
  | finish w outcome =>
    obtain ⟨⟨hrunning, -⟩, ht⟩ := Option.ite_none_right_eq_some.mp ht
    cases ht
    exact .finish outcome hrunning
  | stop =>
    obtain ⟨hcalled, ht⟩ := Option.ite_none_right_eq_some.mp ht
    cases ht
    exact .stop hcalled
  | notifyAll =>
    obtain ⟨hstop, ht⟩ := Option.ite_none_right_eq_some.mp ht
    cases ht
    exact .notifyAll hstop

theorem Sound.step (h : Sound s) {a : Action n Caller Task} (ht : s.step a = some t) :
    Sound t := by
  cases step_move ht with
  | submit thread task => exact h.submit thread task
  | @notified _ w => exact h.goes w rfl _ s.errors
  | unnoticed _ hnone => exact h.unnotified hnone _
  | @wakeUp w => exact h.goes w rfl s.notifying s.errors
  | @takeTask w => exact h.takeTask w
  | @finish w => exact h.goes w rfl s.notifying _
  | stop =>
    exact ⟨h.some_worker, h.order, fun w hexit => ⟨rfl, (h.exits w hexit).2⟩, by simp,
      fun _ => .inr (.inr rfl), by simp⟩
  | notifyAll hstop => exact h.notifyAll hstop

theorem reachable_sound (h : Reachable (system n Caller Task) s) : Sound s := by
  refine h.invariant ?_ ?_
  · exact fun s hs => new_sound hs
  · exact fun s a t _ ih ht => ih.step ht

theorem finish_step {w : Fin n} {outcome : Outcome} (ht : s.step (.finish w outcome) = some t) :
    t.workers w = .ready ∧ (∀ v, v ≠ w → t.workers v = s.workers v) ∧ t.tasks = s.tasks ∧
      t.started = s.started ∧ t.accepted = s.accepted ∧ t.stopping = s.stopping ∧
      t.errors = s.errors ++ report outcome := by
  obtain ⟨-, ht⟩ := Option.ite_none_right_eq_some.mp ht
  cases ht
  refine ⟨by simp [finishTask, setWorker], fun v hv => ?_, rfl, rfl, rfl, rfl, rfl⟩
  simp [finishTask, setWorker, hv]

theorem workers_of_step {a : Action n Caller Task} (ht : s.step a = some t) (w : Fin n) :
    t.workers w = s.workers w ∨
      (s.workers w).isWaiting = true ∧ t.workers w = .woken ∨
      (s.workers w).atLock = true ∧ t = s.takeTask w ∨
      (s.workers w).isRunning = true ∧ t.workers w = .ready ∧ ∃ outcome, a = .finish w outcome := by
  have hother : ∀ v state, (s.setWorker v state).workers w = s.workers w ∨ w = v := by
    intro v state
    rw [setWorker_workers]
    split_ifs with hw
    · exact .inr hw
    · exact .inl rfl
  cases step_move ht with
  | submit thread task => exact .inl (by unfold submit; split <;> rfl)
  | @notified _ v hwait | @wakeUp v hwait =>
    rcases hother v .woken with heq | rfl
    · exact .inl heq
    · exact .inr (.inl ⟨hwait, by simp [setWorker]⟩)
  | unnoticed | stop => exact .inl rfl
  | @takeTask v hlock =>
    have htaken : ∃ state, (s.takeTask v).workers = (s.setWorker v state).workers := by
      unfold takeTask
      split <;> exact ⟨_, rfl⟩
    obtain ⟨state, htaken⟩ := htaken
    rcases hother v state with heq | rfl
    · exact .inl (by rw [htaken, heq])
    · exact .inr (.inr (.inl ⟨hlock, rfl⟩))
  | @finish v outcome hrunning =>
    rcases hother v .ready with heq | rfl
    · exact .inl heq
    · exact .inr (.inr (.inr ⟨hrunning, by simp [finishTask, setWorker], outcome, rfl⟩))
  | notifyAll =>
    by_cases hwait : (s.workers w).isWaiting = true
    · exact .inr (.inl ⟨hwait, if_pos hwait⟩)
    · exact .inl (if_neg hwait)

theorem exited_of_step {a : Action n Caller Task} (ht : s.step a = some t) {w : Fin n}
    (hexit : s.workers w = .exited) : t.workers w = .exited := by
  rcases workers_of_step ht w with heq | ⟨hwait, -⟩ | ⟨hlock, -⟩ | ⟨hrunning, -⟩
  · rw [heq, hexit]
  · simp [hexit, WorkerState.isWaiting] at hwait
  · simp [hexit, WorkerState.atLock] at hlock
  · simp [hexit, WorkerState.isRunning] at hrunning

theorem step_of_exited {w : Fin n} (hexit : s.workers w = .exited) :
    s.step (.wakeUp w) = none ∧ s.step (.takeTask w) = none ∧
      ∀ outcome, s.step (.finish w outcome) = none := by
  simp [step, hexit, WorkerState.isWaiting, WorkerState.atLock, WorkerState.isRunning]

theorem running_of_step {a : Action n Caller Task} (ht : s.step a = some t) {w : Fin n}
    {task : Task} (hrunning : s.workers w = .running task)
    (hne : ∀ outcome, a ≠ .finish w outcome) : t.workers w = .running task := by
  rcases workers_of_step ht w with heq | ⟨hwait, -⟩ | ⟨hlock, -⟩ | ⟨-, -, outcome, rfl⟩
  · rw [heq, hrunning]
  · simp [hrunning, WorkerState.isWaiting] at hwait
  · simp [hrunning, WorkerState.atLock] at hlock
  · exact absurd rfl (hne outcome)

theorem accepted_of_step {a : Action n Caller Task} (ht : s.step a = some t) :
    t.accepted = s.accepted ∨
      ∃ thread task, a = .submit thread task ∧ t.accepted = s.accepted ++ [task] := by
  cases step_move ht with
  | submit thread task =>
    unfold submit
    split
    · exact .inl rfl
    · exact .inr ⟨thread, task, rfl, rfl⟩
  | takeTask =>
    unfold takeTask
    split <;> exact .inl rfl
  | _ => exact .inl rfl

theorem running_accepted (h : Reachable (system n Caller Task) s) {w : Fin n} {task : Task}
    (hrunning : s.workers w = .running task) : task ∈ s.accepted := by
  refine h.invariant (P := fun s => s.workers w = .running task → task ∈ s.accepted) ?_ ?_ hrunning
  · intro s hs hrunning
    obtain ⟨-, hs⟩ := Option.ite_none_left_eq_some.mp hs
    cases hs
    cases hrunning
  · intro s a t hreach ih ht hrunning
    have hkept : ∀ task ∈ s.accepted, task ∈ t.accepted := by
      intro task hmem
      rcases accepted_of_step ht with heq | ⟨_, _, -, heq⟩
      · rwa [heq]
      · rw [heq]
        exact List.mem_append_left _ hmem
    rcases workers_of_step ht w with heq | ⟨-, hwoken⟩ | ⟨-, rfl⟩ | ⟨-, hready, -⟩
    · exact hkept task (ih (heq ▸ hrunning))
    · rw [hwoken] at hrunning
      cases hrunning
    · refine hkept task ?_
      have horder := (reachable_sound hreach).order
      unfold takeTask at hrunning
      split at hrunning
      · simp [setWorker] at hrunning
      · simp [setWorker] at hrunning
      · rename_i head rest htasks
        obtain rfl : head = task := by simpa [setWorker] using hrunning
        rw [← horder, htasks]
        simp
    · rw [hready] at hrunning
      cases hrunning

/-- After `stopping_`, `submit` changes nothing. -/
theorem submit_refused {thread : Thread n Caller} {task : Task} (hstop : s.stopping = true)
    (ht : s.step (.submit thread task) = some t) : t = s := by
  obtain ⟨-, ht⟩ := Option.ite_none_right_eq_some.mp ht
  cases ht
  simp [submit, hstop]

structure WorksOff (s : WorkerPool n Caller Task) : Prop where
  in_order : s.started.map Prod.snd ++ s.tasks = s.accepted
  survives : ∀ w, s.workers w = .exited → s.stopping = true ∧ s.tasks = []
  finishes : ∀ w outcome t, s.step (.finish w outcome) = some t →
    t.workers w = .ready ∧ (∀ v, v ≠ w → t.workers v = s.workers v) ∧ t.tasks = s.tasks ∧
      t.started = s.started ∧ t.accepted = s.accepted ∧ t.stopping = s.stopping ∧
      t.errors = s.errors ++ report outcome
  not_asleep : ¬(s.tasks ≠ [] ∧ (∀ w, s.workers w ≠ .exited → s.workers w = .waiting) ∧
    (∀ thread, s.notifying thread = false) ∧ s.destructor ≠ .notifying)
  drained : (∀ w, s.workers w = .exited) → s.tasks = [] ∧ s.started.map Prod.snd = s.accepted
  refuses : s.stopping = true → ∀ thread task t, s.step (.submit thread task) = some t → t = s

theorem workerPool_worksOff (h : Reachable (system n Caller Task) s) : WorksOff s := by
  have hs := reachable_sound h
  refine ⟨hs.order, hs.exits, fun _ _ _ => finish_step, ?_, fun hexits => ?_,
    fun hstop _ _ _ => submit_refused hstop⟩
  · rintro ⟨hne, hasleep, hnone, hstop⟩
    rcases hs.attended hne with ⟨w, hwait, hexit⟩ | ⟨thread, hn⟩ | hd
    · exact hwait (hasleep w hexit)
    · simp [hnone thread] at hn
    · exact hstop hd
  · have hempty := (hs.exits ⟨0, hs.some_worker⟩ (hexits _)).2
    exact ⟨hempty, by simpa [hempty] using hs.order⟩

/-- Worker 0 sleeps, is notified of a task that submits another one and throws;
the pool stops with the second task still queued. -/
def stopped : List (Action 2 Unit Nat) :=
  [.takeTask 0, .submit (.caller ()) 1, .notifyOne (.caller ()) (some 0), .takeTask 0,
   .submit (.worker 0) 2, .notifyOne (.worker 0) none, .finish 0 .unknownException, .stop]

def stoppedState : WorkerPool 2 Unit Nat :=
  (((new 2 Unit Nat).bind fun s => run (system 2 Unit Nat) s stopped)).get (by decide)

theorem stoppedState_worksOff :
    stoppedState.tasks = [2] ∧ stoppedState.started = [(0, 1)] ∧ WorksOff stoppedState :=
  ⟨by decide, by decide, workerPool_worksOff
    (Reachable.run (.start rfl) (Option.some_get _).symm)⟩

end WorkerPool

end CppSearchServer.Concurrency
