import CppSearchServer.Library.TransitionSystem
import Mathlib.Data.List.Basic

/-! `EventLoop::queueInLoop` against a running loop.
Any number of producer threads, and the callbacks of the loop thread itself, push
under the mutex and then write the eventfd; the loop waits, reads the counter,
swaps the pending tasks out and runs them. Each step here is one access to shared
state. Tasks return, and `quit` is not called. -/

namespace CppSearchServer.Net.EventLoop

open Library.TransitionSystem

/-- The largest value of an eventfd counter. -/
def counterMax : Nat := 0xfffffffffffffffe

inductive Thread (Producer : Type*) where
  | loop
  | producer (p : Producer)
deriving DecidableEq

/-- An entry of the batch `epoll_wait` returns: the eventfd, or anything else. -/
inductive Event where
  | wakeup
  | other
deriving DecidableEq

inductive WriteResult where
  | written
  | eintr
  | again
deriving DecidableEq

inductive ReadResult where
  | counter
  | eintr
  | again
deriving DecidableEq

/-- Where the loop thread is. `events` is the rest of the batch; `reading` and
`swapping` are inside `handleWakeup`, before its `read` and before its `swap`. -/
inductive Position (Task : Type*) where
  | waiting
  | dispatching (events : List Event)
  | reading (events : List Event)
  | swapping (events : List Event)
  | running (tasks : List Task) (events : List Event)
  | timers

/-- `callback` says that the loop thread is inside an event handler, a task or a
timer, and `notifying` which threads have pushed and not yet written. `pushed` and
`executed` are the history: the tasks in push order, and who ran which. -/
structure TaskQueue (Producer Task : Type*) where
  pendingTasks : List Task
  counter : Nat
  position : Position Task
  callback : Bool
  notifying : Thread Producer → Bool
  pushed : List Task
  executed : List (Thread Producer × Task)

inductive Action (Producer Task : Type*) where
  | push (thread : Thread Producer) (task : Task)
  | write (thread : Thread Producer) (result : WriteResult)
  | wait (events : List Event)
  | read (result : ReadResult)
  | advance
  | runTimer
  | return

namespace TaskQueue

variable {Producer Task : Type*} [DecidableEq Producer]

def new : TaskQueue Producer Task := ⟨[], 0, .waiting, false, fun _ => false, [], []⟩

def queueInLoop (thread : Thread Producer) (task : Task) (s : TaskQueue Producer Task) :
    TaskQueue Producer Task :=
  { s with
    pendingTasks := s.pendingTasks ++ [task]
    notifying := Function.update s.notifying thread true
    pushed := s.pushed ++ [task] }

def wakeup (thread : Thread Producer) (result : WriteResult) (s : TaskQueue Producer Task) :
    Option (TaskQueue Producer Task) :=
  match result with
  | .written =>
    if s.counter < counterMax then
      some { s with
        counter := s.counter + 1
        notifying := Function.update s.notifying thread false }
    else none
  | .eintr => some s
  | .again =>
    if s.counter = counterMax then
      some { s with notifying := Function.update s.notifying thread false }
    else none

/-- One `read` of `handleWakeup`; it takes the whole counter. -/
def readCounter (events : List Event) (result : ReadResult) (s : TaskQueue Producer Task) :
    Option (TaskQueue Producer Task) :=
  match result with
  | .counter => if 0 < s.counter then some { s with counter := 0, position := .swapping events }
    else none
  | .eintr => some s
  | .again => if s.counter = 0 then some { s with position := .dispatching events } else none

def advance (s : TaskQueue Producer Task) : Option (TaskQueue Producer Task) :=
  match s.position with
  | .dispatching (.wakeup :: events) => some { s with position := .reading events }
  | .dispatching (.other :: events) =>
    some { s with position := .dispatching events, callback := true }
  | .dispatching [] => some { s with position := .timers }
  | .swapping events =>
    some { s with position := .running s.pendingTasks events, pendingTasks := [] }
  | .running (task :: tasks) events =>
    some { s with
      position := .running tasks events
      callback := true
      executed := s.executed ++ [(.loop, task)] }
  | .running [] events => some { s with position := .dispatching events }
  | .timers => some { s with position := .waiting }
  | .waiting | .reading _ => none

/-- The loop thread queues only from a callback. `epoll_wait` reports the eventfd
only while its counter is not zero. -/
def step (s : TaskQueue Producer Task) : Action Producer Task → Option (TaskQueue Producer Task)
  | .push thread task =>
    if s.notifying thread = false ∧ (thread = .loop → s.callback = true) then
      some (s.queueInLoop thread task)
    else none
  | .write thread result => if s.notifying thread = true then s.wakeup thread result else none
  | .wait events =>
    match s.position with
    | .waiting =>
      if .wakeup ∈ events → 0 < s.counter then some { s with position := .dispatching events }
      else none
    | _ => none
  | .read result =>
    match s.position with
    | .reading events => s.readCounter events result
    | _ => none
  | .advance => if s.callback = false then s.advance else none
  | .runTimer =>
    match s.position with
    | .timers => if s.callback = false then some { s with callback := true } else none
    | _ => none
  | .return =>
    if s.callback = true ∧ s.notifying .loop = false then some { s with callback := false }
    else none

def system : System (TaskQueue Producer Task) (Action Producer Task) where
  initial s := s = new
  step := step

def swapped (s : TaskQueue Producer Task) : List Task :=
  match s.position with
  | .running tasks _ => tasks
  | _ => []

def isSwapping (s : TaskQueue Producer Task) : Bool :=
  match s.position with
  | .swapping _ => true
  | _ => false

def Noticed (s : TaskQueue Producer Task) : Prop :=
  s.pendingTasks ≠ [] →
    0 < s.counter ∨ (∃ thread, s.notifying thread = true) ∨ s.isSwapping = true

structure Sound (s : TaskQueue Producer Task) : Prop where
  order : s.executed.map Prod.snd ++ s.swapped ++ s.pendingTasks = s.pushed
  on_loop : ∀ entry ∈ s.executed, entry.1 = .loop
  noticed : s.Noticed

omit [DecidableEq Producer] in
theorem new_sound : Sound (new : TaskQueue Producer Task) :=
  ⟨rfl, by simp [new], fun h => absurd rfl h⟩

variable {s t : TaskQueue Producer Task}

theorem Sound.queueInLoop (h : Sound s) (thread : Thread Producer) (task : Task) :
    Sound (s.queueInLoop thread task) where
  order := by
    rw [TaskQueue.queueInLoop, ← h.order]
    simp [swapped]
  on_loop := h.on_loop
  noticed := fun _ => .inr (.inl ⟨thread, by simp [TaskQueue.queueInLoop]⟩)

/-- The write leaves the counter positive, also where it fails. -/
theorem Sound.wakeup (h : Sound s) {thread : Thread Producer} {result : WriteResult}
    (ht : s.wakeup thread result = some t) : Sound t := by
  cases result with
  | written =>
    obtain ⟨-, rfl⟩ := by simpa [TaskQueue.wakeup] using ht
    exact ⟨h.order, h.on_loop, fun _ => .inl (Nat.succ_pos _)⟩
  | eintr =>
    obtain rfl := by simpa [TaskQueue.wakeup] using ht
    exact h
  | again =>
    obtain ⟨hfull, rfl⟩ := by simpa [TaskQueue.wakeup] using ht
    refine ⟨h.order, h.on_loop, fun _ => .inl ?_⟩
    change 0 < s.counter
    rw [hfull]
    decide

omit [DecidableEq Producer] in
theorem Sound.readCounter (h : Sound s) {events : List Event} {result : ReadResult}
    (hpos : s.position = .reading events) (ht : s.readCounter events result = some t) :
    Sound t := by
  have horder := h.order
  simp only [swapped, hpos] at horder
  cases result with
  | counter =>
    obtain ⟨-, rfl⟩ := by simpa [TaskQueue.readCounter] using ht
    exact ⟨horder, h.on_loop, fun _ => .inr (.inr rfl)⟩
  | eintr =>
    obtain rfl := by simpa [TaskQueue.readCounter] using ht
    exact h
  | again =>
    obtain ⟨hzero, rfl⟩ := by simpa [TaskQueue.readCounter] using ht
    refine ⟨horder, h.on_loop, fun hne => ?_⟩
    have hnoticed := h.noticed hne
    simpa [isSwapping, hpos, hzero] using hnoticed

omit [DecidableEq Producer] in
theorem Sound.moved (h : Sound s) {position : Position Task} {callback : Bool}
    (hfrom : s.isSwapping = false)
    (hto : swapped { s with position := position, callback := callback } = s.swapped) :
    Sound { s with position := position, callback := callback } := by
  refine ⟨?_, h.on_loop, fun hne => ?_⟩
  · rw [hto]
    exact h.order
  · rcases h.noticed hne with hc | hn | hs
    · exact .inl hc
    · exact .inr (.inl hn)
    · simp [hfrom] at hs

omit [DecidableEq Producer] in
theorem Sound.advance (h : Sound s) (ht : s.advance = some t) : Sound t := by
  have horder := h.order
  unfold TaskQueue.advance at ht
  split at ht <;> rename_i hpos <;> simp only [swapped, hpos] at horder
  case h_4 events =>
    cases ht
    exact ⟨by simpa [swapped] using horder, h.on_loop, fun hne => absurd rfl hne⟩
  case h_5 task tasks events =>
    cases ht
    refine ⟨by simpa [swapped] using horder, ?_, ?_⟩
    · intro entry hmem
      rcases List.mem_append.mp hmem with hmem | hmem
      · exact h.on_loop entry hmem
      · rw [List.mem_singleton.mp hmem]
    · intro hne
      have hnoticed := h.noticed hne
      simpa [isSwapping, hpos] using hnoticed
  case h_8 => cases ht
  case h_9 => cases ht
  all_goals
    cases ht
    exact h.moved (by simp [isSwapping, hpos]) (by simp [swapped, hpos])

theorem Sound.step (h : Sound s) {a : Action Producer Task} (ht : s.step a = some t) :
    Sound t := by
  cases a with
  | push thread task =>
    obtain ⟨-, ht⟩ := Option.ite_none_right_eq_some.mp ht
    cases ht
    exact h.queueInLoop thread task
  | write thread result =>
    obtain ⟨-, ht⟩ := Option.ite_none_right_eq_some.mp ht
    exact h.wakeup ht
  | wait events =>
    simp only [TaskQueue.step] at ht
    split at ht
    · rename_i hpos
      obtain ⟨-, ht⟩ := Option.ite_none_right_eq_some.mp ht
      cases ht
      exact h.moved (by simp [isSwapping, hpos]) (by simp [swapped, hpos])
    · cases ht
  | read result =>
    simp only [TaskQueue.step] at ht
    split at ht
    · rename_i events hpos
      exact h.readCounter hpos ht
    · cases ht
  | advance =>
    obtain ⟨-, ht⟩ := Option.ite_none_right_eq_some.mp ht
    exact h.advance ht
  | runTimer =>
    simp only [TaskQueue.step] at ht
    split at ht
    · rename_i hpos
      obtain ⟨-, ht⟩ := Option.ite_none_right_eq_some.mp ht
      cases ht
      exact ⟨h.order, h.on_loop, h.noticed⟩
    · cases ht
  | «return» =>
    obtain ⟨-, ht⟩ := Option.ite_none_right_eq_some.mp ht
    cases ht
    exact ⟨h.order, h.on_loop, h.noticed⟩

theorem reachable_sound (h : Reachable system s) : Sound s :=
  h.invariant (fun _ hs => hs ▸ new_sound) fun _ _ _ _ ih ht => ih.step ht

/-- Every task pushed runs at most once, on the loop thread and in push order: the
tasks run, those swapped out and those pending make up the tasks pushed. The loop
never sleeps on pending tasks. -/
structure NothingStalls (s : TaskQueue Producer Task) : Prop where
  in_order : s.executed.map Prod.snd ++ (s.swapped ++ s.pendingTasks) = s.pushed
  on_loop : ∀ entry ∈ s.executed, entry.1 = .loop
  not_stuck : ¬(s.pendingTasks ≠ [] ∧ s.counter = 0 ∧ (∀ thread, s.notifying thread = false) ∧
    s.isSwapping = false)

theorem taskQueue_nothingStalls (h : Reachable system s) : NothingStalls s := by
  have hs := reachable_sound h
  refine ⟨by rw [← List.append_assoc]; exact hs.order, hs.on_loop, ?_⟩
  rintro ⟨hne, hzero, hnone, hswap⟩
  rcases hs.noticed hne with hc | ⟨thread, hn⟩ | hs
  · omega
  · simp [hnone thread] at hn
  · simp [hswap] at hs

/-- Two producers race with the loop, and the first task queues a third one after
the swap. -/
def raced : List (Action Bool Nat) :=
  [.push (.producer false) 1, .push (.producer true) 2, .write (.producer true) .written,
   .wait [.other, .wakeup], .advance, .return, .advance, .read .counter,
   .write (.producer false) .eintr, .advance, .advance, .push .loop 3]

def racedState : TaskQueue Bool Nat := (run system new raced).get (by decide)

theorem racedState_nothingStalls :
    racedState.executed = [(.loop, 1)] ∧ racedState.swapped = [2] ∧
      racedState.pendingTasks = [3] ∧ racedState.counter = 0 ∧ NothingStalls racedState :=
  ⟨rfl, rfl, rfl, rfl, taskQueue_nothingStalls
    (Reachable.run (.start rfl) (Option.some_get _).symm)⟩

end TaskQueue

end CppSearchServer.Net.EventLoop
