import CppSearchServer.Library.Composition
import CppSearchServer.Observability.RequestLatency
import Mathlib.Algebra.Order.Group.Multiset

/-! `RequestLatency::complete` on any number of threads, one access to an atomic per step:
six times `fetch_add`, then the loop of `updateMax` with its `load` and its
`compare_exchange_weak`, which may fail spuriously. Once every call has returned, the
counters are what the same calls leave one after the other. -/

namespace CppSearchServer.Observability

open Library Library.Composition Library.TransitionSystem

/-- A call that found every mark set, and what its clock read. -/
structure Completion where
  timing : RequestTiming
  completedAt : Int
  marked : timing.isComplete = true
deriving DecidableEq

/-- The atomics that are only added to. -/
inductive Counter where
  | workerQueueUs
  | workerComputeUs
  | resultReturnUs
  | responseWriteUs
  | totalUs
  | completedRequests
deriving DecidableEq, Repr

namespace RequestLatency

def load (m : RequestLatency) : Counter → Nat
  | .workerQueueUs => m.workerQueueUs
  | .workerComputeUs => m.workerComputeUs
  | .resultReturnUs => m.resultReturnUs
  | .responseWriteUs => m.responseWriteUs
  | .totalUs => m.totalUs
  | .completedRequests => m.completedRequests

/-- The sum wraps around at 64 bits. -/
def fetchAdd (counter : Counter) (value : Nat) (m : RequestLatency) : RequestLatency :=
  let stored := (m.load counter + value) % 2 ^ 64
  match counter with
  | .workerQueueUs => { m with workerQueueUs := stored }
  | .workerComputeUs => { m with workerComputeUs := stored }
  | .resultReturnUs => { m with resultReturnUs := stored }
  | .responseWriteUs => { m with responseWriteUs := stored }
  | .totalUs => { m with totalUs := stored }
  | .completedRequests => { m with completedRequests := stored }

variable (m : RequestLatency) (counter : Counter) (value : Nat)

theorem load_fetchAdd (other : Counter) :
    (m.fetchAdd counter value).load other =
      if other = counter then (m.load counter + value) % 2 ^ 64 else m.load other := by
  cases counter <;> cases other <;> rfl

@[simp] theorem fetchAdd_maxTotalUs : (m.fetchAdd counter value).maxTotalUs = m.maxTotalUs := by
  cases counter <;> rfl

@[simp] theorem fetchAdd_enabled : (m.fetchAdd counter value).enabled = m.enabled := by
  cases counter <;> rfl

theorem ext_load {m n : RequestLatency} (henabled : m.enabled = n.enabled)
    (hload : ∀ counter, m.load counter = n.load counter) (hmax : m.maxTotalUs = n.maxTotalUs) :
    m = n := by
  have hqueue := hload .workerQueueUs
  have hcompute := hload .workerComputeUs
  have hreturn := hload .resultReturnUs
  have hwrite := hload .responseWriteUs
  have htotal := hload .totalUs
  have hcompleted := hload .completedRequests
  cases m
  cases n
  simp_all [load]

end RequestLatency

namespace Completion

/-- What the call adds to each counter. -/
def value (call : Completion) : Counter → Nat
  | .workerQueueUs =>
    RequestLatency.elapsedMicros call.timing.queuedAt call.timing.workerStartedAt
  | .workerComputeUs =>
    RequestLatency.elapsedMicros call.timing.workerStartedAt call.timing.workerFinishedAt
  | .resultReturnUs =>
    RequestLatency.elapsedMicros call.timing.workerFinishedAt call.timing.returnedToIoAt
  | .responseWriteUs => RequestLatency.elapsedMicros call.timing.returnedToIoAt call.completedAt
  | .totalUs => RequestLatency.elapsedMicros call.timing.requestReadyAt call.completedAt
  | .completedRequests => 1

def additions (call : Completion) : List (Counter × Nat) :=
  [.workerQueueUs, .workerComputeUs, .resultReturnUs, .responseWriteUs, .totalUs,
    .completedRequests].map fun counter => (counter, call.value counter)

end Completion

/-- Where a thread stands inside `complete`. -/
inductive Position where
  | idle
  /-- The first `done` additions are made. -/
  | adding (call : Completion) (done : Nat)
  /-- In the loop of `updateMax`, in front of the compare-exchange. -/
  | comparing (call : Completion) (current : Nat) (below : current < call.value .totalUs)
deriving DecidableEq

structure LatencyThread where
  returned : List Completion
  position : Position
deriving DecidableEq

inductive LatencyOp where
  | call (timing : Option RequestTiming) (now : Int)
  | fetchAdd
  | load
  | compareExchange (spurious : Bool)
deriving DecidableEq

namespace LatencyThread

def finish (thread : LatencyThread) (call : Completion) : LatencyThread :=
  ⟨thread.returned ++ [call], .idle⟩

def check (thread : LatencyThread) (call : Completion) (current : Nat) : LatencyThread :=
  if below : current < call.value .totalUs then
    { thread with position := .comparing call current below }
  else thread.finish call

/-- A call on a null pointer, or with a mark missing, returns at once. -/
def begin (thread : LatencyThread) (timing : Option RequestTiming) (now : Int) : LatencyThread :=
  match timing with
  | none => thread
  | some t =>
    if marked : t.isComplete = true then { thread with position := .adding ⟨t, now, marked⟩ 0 }
    else thread

def step (m : RequestLatency) (thread : LatencyThread) :
    LatencyOp → Option (RequestLatency × LatencyThread)
  | .call timing now =>
    match thread.position with
    | .idle => some (m, thread.begin timing now)
    | _ => none
  | .fetchAdd =>
    match thread.position with
    | .adding call done =>
      call.additions[done]?.map fun addition =>
        (m.fetchAdd addition.1 addition.2, { thread with position := .adding call (done + 1) })
    | _ => none
  | .load =>
    match thread.position with
    | .adding call done =>
      if done = call.additions.length then some (m, thread.check call m.maxTotalUs) else none
    | _ => none
  | .compareExchange spurious =>
    match thread.position with
    | .comparing call current _ =>
      if spurious = false ∧ m.maxTotalUs = current then
        some ({ m with maxTotalUs := call.value .totalUs }, thread.finish call)
      else some (m, thread.check call m.maxTotalUs)
    | _ => none

end LatencyThread

/-- Any number of threads, each making its calls one after the other. -/
def completing (enabled : Bool) : Parts RequestLatency LatencyThread Unit LatencyOp where
  initial m := m = RequestLatency.new enabled
  join _ _ := some ⟨[], .idle⟩
  step := LatencyThread.step

def added (counter : Counter) (additions : List (Counter × Nat)) : Nat :=
  ((additions.filter fun addition => addition.1 = counter).map Prod.snd).sum

section Added

variable (counter : Counter)

theorem added_append (front back : List (Counter × Nat)) :
    added counter (front ++ back) = added counter front + added counter back := by
  simp [added]

theorem added_flatMap {α : Type*} (additions : α → List (Counter × Nat)) (xs : List α) :
    added counter (xs.flatMap additions) = (xs.map fun x => added counter (additions x)).sum := by
  induction xs with
  | nil => rfl
  | cons x xs ih => rw [List.flatMap_cons, added_append, ih, List.map_cons, List.sum_cons]

theorem added_additions (call : Completion) :
    added counter call.additions = call.value counter := by
  cases counter <;> simp [added, Completion.additions]

theorem load_fetchAdd_added {m : RequestLatency} {total : Nat}
    (h : m.load counter = total % 2 ^ 64) (addition : Counter × Nat) :
    (m.fetchAdd addition.1 addition.2).load counter =
      (total + added counter [addition]) % 2 ^ 64 := by
  rw [RequestLatency.load_fetchAdd]
  by_cases hsame : counter = addition.1
  · rw [if_pos hsame, ← hsame, h, Nat.mod_add_mod]
    simp [added, hsame]
  · have hother : ¬addition.1 = counter := fun heq => hsame heq.symm
    rw [if_neg hsame, h]
    simp [added, hother]

theorem added_calls (calls : List Completion) :
    added counter (calls.flatMap Completion.additions) =
      (calls.map fun call => call.value counter).sum := by
  rw [added_flatMap]
  simp only [added_additions]

end Added

namespace LatencyThread

def inProgress : Position → List (Counter × Nat)
  | .idle => []
  | .adding call done => call.additions.take done
  | .comparing call _ _ => call.additions

def performed (thread : LatencyThread) : List (Counter × Nat) :=
  thread.returned.flatMap Completion.additions ++ inProgress thread.position

inductive Effect (m : RequestLatency) (thread : LatencyThread) :
    RequestLatency → LatencyThread → Prop where
  | quiet {thread' : LatencyThread} (performed : thread'.performed = thread.performed)
      (returned : thread'.returned = thread.returned) : Effect m thread m thread'
  | add {thread' : LatencyThread} (addition : Counter × Nat)
      (performed : thread'.performed = thread.performed ++ [addition])
      (returned : thread'.returned = thread.returned) :
      Effect m thread (m.fetchAdd addition.1 addition.2) thread'
  | finish {thread' : LatencyThread} (call : Completion)
      (performed : thread'.performed = thread.performed)
      (returned : thread'.returned = thread.returned ++ [call]) :
      Effect m thread { m with maxTotalUs := max m.maxTotalUs (call.value .totalUs) } thread'

variable {m m' : RequestLatency} {thread thread' : LatencyThread} {call : Completion}

theorem finish_performed (h : inProgress thread.position = call.additions) :
    (thread.finish call).performed = thread.performed := by
  rw [performed, performed, h]
  simp [finish, inProgress]

theorem check_effect (h : inProgress thread.position = call.additions) :
    Effect m thread m (thread.check call m.maxTotalUs) := by
  unfold check
  split
  · refine .quiet ?_ rfl
    rw [performed, performed, h]
    rfl
  · rename_i hreached
    have hmax : max m.maxTotalUs (call.value .totalUs) = m.maxTotalUs :=
      max_eq_left (not_lt.mp hreached)
    have hfinish := Effect.finish (m := m) call (finish_performed h) rfl
    rwa [hmax] at hfinish

theorem begin_effect (h : thread.position = .idle) (timing : Option RequestTiming) (now : Int) :
    Effect m thread m (thread.begin timing now) := by
  unfold begin
  split
  · exact .quiet rfl rfl
  · split
    · exact .quiet (by simp [performed, inProgress, h]) rfl
    · exact .quiet rfl rfl

theorem step_effect {op : LatencyOp} (h : step m thread op = some (m', thread')) :
    Effect m thread m' thread' := by
  cases op with
  | call timing now =>
    simp only [step] at h
    split at h
    · rename_i hidle
      cases h
      exact begin_effect hidle timing now
    · cases h
  | fetchAdd =>
    simp only [step] at h
    split at h
    · rename_i call done hadding
      obtain ⟨addition, hget, heq⟩ := Option.map_eq_some_iff.mp h
      cases heq
      refine .add addition ?_ rfl
      rw [performed, performed, hadding, List.append_assoc]
      simp only [inProgress, List.take_add_one, hget, Option.toList_some]
    · cases h
  | load =>
    simp only [step] at h
    split at h
    · rename_i call done hadding
      obtain ⟨hdone, heq⟩ := Option.ite_none_right_eq_some.mp h
      cases heq
      exact check_effect (by rw [hadding, inProgress, hdone, List.take_length])
    · cases h
  | compareExchange spurious =>
    simp only [step] at h
    split at h
    · rename_i call current below hcomparing
      have hprogress : inProgress thread.position = call.additions := by rw [hcomparing, inProgress]
      split at h
      · rename_i hequal
        cases h
        have hmax : max m.maxTotalUs (call.value .totalUs) = call.value .totalUs :=
          max_eq_right (by omega)
        have hfinish := Effect.finish (m := m) call (finish_performed hprogress) rfl
        rwa [hmax] at hfinish
      · cases h
        exact check_effect hprogress
    · cases h

end LatencyThread

structure Largest (value : Nat) (values : Multiset Nat) : Prop where
  upper : ∀ v ∈ values, v ≤ value
  attained : value ∈ values ∨ values = 0 ∧ value = 0

namespace Largest

variable {value v : Nat} {values : Multiset Nat}

theorem zero : Largest 0 0 := ⟨by simp, .inr ⟨rfl, rfl⟩⟩

theorem add (h : Largest value values) (v : Nat) : Largest (max value v) ({v} + values) := by
  refine ⟨?_, .inl ?_⟩
  · intro w hw
    rcases Multiset.mem_add.mp hw with hw | hw
    · obtain rfl := Multiset.mem_singleton.mp hw
      exact le_max_right _ _
    · exact le_trans (h.upper w hw) (le_max_left _ _)
  · rcases h.attained with hmem | ⟨rfl, rfl⟩
    · rcases le_total value v with hle | hle
      · simp [max_eq_right hle]
      · simp [max_eq_left hle, hmem]
    · simp

theorem unique {other : Nat} (h : Largest value values) (hother : Largest other values) :
    value = other := by
  rcases h.attained with hmem | ⟨rfl, rfl⟩
  · rcases hother.attained with hmem' | ⟨rfl, rfl⟩
    · exact le_antisymm (hother.upper _ hmem) (h.upper _ hmem')
    · simp at hmem
  · rcases hother.attained with hmem' | ⟨-, rfl⟩
    · simp at hmem'
    · rfl

end Largest

section Runs

variable {enabled : Bool} {s : Composed RequestLatency LatencyThread}

def totals (thread : LatencyThread) : Multiset Nat :=
  thread.returned.map fun call => call.value .totalUs

theorem reachable_counter (h : Reachable (completing enabled).system s) (counter : Counter) :
    s.shared.load counter =
      (s.components.map fun thread => added counter thread.performed).sum % 2 ^ 64 := by
  have hgathered : Gathered (fun m n => m.load counter = n % 2 ^ 64) (fun _ => True)
      (fun thread => added counter thread.performed) s := by
    refine Parts.gathered ?_ ?_ ?_ h
    · rintro m rfl
      cases counter <;> rfl
    · intro m j c total _ hjoin
      cases hjoin
      exact ⟨trivial, rfl⟩
    · intro m thread op m' thread' others hagrees _ hstep
      refine ⟨?_, trivial⟩
      cases LatencyThread.step_effect hstep with
      | quiet hperformed _ => rwa [hperformed]
      | add addition hperformed _ =>
        rw [hperformed, added_append, Nat.add_right_comm]
        exact load_fetchAdd_added counter hagrees addition
      | finish call hperformed _ =>
        rw [hperformed, ← hagrees]
        cases counter <;> rfl
  exact hgathered.agrees

theorem reachable_maximum (h : Reachable (completing enabled).system s) :
    s.shared.enabled = enabled ∧ Largest s.shared.maxTotalUs (s.components.map totals).sum := by
  have hgathered : Gathered (fun m values => m.enabled = enabled ∧ Largest m.maxTotalUs values)
      (fun _ => True) totals s := by
    refine Parts.gathered ?_ ?_ ?_ h
    · rintro m rfl
      exact ⟨rfl, .zero⟩
    · intro m j c total _ hjoin
      cases hjoin
      exact ⟨trivial, rfl⟩
    · rintro m thread op m' thread' others ⟨henabled, hlargest⟩ _ hstep
      refine ⟨?_, trivial⟩
      cases LatencyThread.step_effect hstep with
      | quiet _ hreturned => exact ⟨henabled, by rwa [totals, hreturned]⟩
      | add addition _ hreturned =>
        rw [RequestLatency.fetchAdd_enabled, RequestLatency.fetchAdd_maxTotalUs, totals, hreturned]
        exact ⟨henabled, hlargest⟩
      | finish call _ hreturned =>
        have htotals : totals thread' = {call.value .totalUs} + totals thread := by
          rw [totals, totals, hreturned, List.map_append, ← Multiset.coe_add, add_comm]
          rfl
        rw [htotals, add_assoc]
        exact ⟨henabled, hlargest.add _⟩
  exact hgathered.agrees

def calls (s : Composed RequestLatency LatencyThread) : List Completion :=
  s.components.flatMap LatencyThread.returned

def AtRest (s : Composed RequestLatency LatencyThread) : Prop :=
  ∀ thread ∈ s.components, thread.position = .idle

theorem atRest_counter (h : Reachable (completing enabled).system s) (hrest : AtRest s)
    (counter : Counter) :
    s.shared.load counter = ((calls s).map fun call => call.value counter).sum % 2 ^ 64 := by
  have hperformed : s.components.map (fun thread => added counter thread.performed) =
      s.components.map fun thread =>
        added counter (thread.returned.flatMap Completion.additions) := by
    refine List.map_congr_left fun thread hmem => ?_
    rw [LatencyThread.performed, hrest thread hmem]
    simp [LatencyThread.inProgress]
  rw [reachable_counter h, hperformed, ← added_flatMap, ← List.flatMap_assoc, added_calls]
  rfl

theorem sum_totals (threads : List LatencyThread) :
    (threads.map totals).sum =
      ((threads.flatMap LatencyThread.returned).map fun call =>
        call.value .totalUs : List Nat) := by
  induction threads with
  | nil => rfl
  | cons thread threads ih =>
    rw [List.map_cons, List.sum_cons, ih, List.flatMap_cons, List.map_append, ← Multiset.coe_add]
    rfl

def completeAll (enabled : Bool) (calls : List Completion) : RequestLatency :=
  calls.foldl (fun m call => m.complete call.completedAt (some call.timing)) (.new enabled)

theorem completeAll_concat (calls : List Completion) (call : Completion) :
    completeAll enabled (calls ++ [call]) =
      (completeAll enabled calls).complete call.completedAt (some call.timing) := by
  rw [completeAll, List.foldl_append]
  rfl

theorem complete_load (m : RequestLatency) (call : Completion) (counter : Counter) :
    (m.complete call.completedAt (some call.timing)).load counter =
      m.load counter + call.value counter := by
  simp only [RequestLatency.complete, call.marked, Bool.not_true, Bool.false_eq_true, if_false]
  cases counter <;> rfl

theorem complete_maxTotalUs (m : RequestLatency) (call : Completion) :
    (m.complete call.completedAt (some call.timing)).maxTotalUs =
      max m.maxTotalUs (call.value .totalUs) := by
  simp only [RequestLatency.complete, call.marked, Bool.not_true, Bool.false_eq_true, if_false,
    RequestLatency.updateMax]
  split
  · rename_i hbelow
    exact (max_eq_right (le_of_lt hbelow)).symm
  · rename_i hreached
    exact (max_eq_left (not_lt.mp hreached)).symm

theorem completeAll_enabled (calls : List Completion) :
    (completeAll enabled calls).enabled = enabled := by
  induction calls using List.reverseRecOn with
  | nil => rfl
  | append_singleton calls call ih =>
    rw [completeAll_concat, RequestLatency.complete_enabled, ih]

theorem completeAll_load (calls : List Completion) (counter : Counter) :
    (completeAll enabled calls).load counter =
      (calls.map fun call => call.value counter).sum := by
  induction calls using List.reverseRecOn with
  | nil => cases counter <;> rfl
  | append_singleton calls call ih =>
    rw [completeAll_concat, complete_load, ih, List.map_append, List.sum_append,
      List.map_singleton, List.sum_singleton]

theorem completeAll_largest (calls : List Completion) :
    Largest (completeAll enabled calls).maxTotalUs
      (calls.map fun call => call.value .totalUs : List Nat) := by
  induction calls using List.reverseRecOn with
  | nil => exact .zero
  | append_singleton calls call ih =>
    rw [completeAll_concat, complete_maxTotalUs, List.map_append, ← Multiset.coe_add, add_comm]
    exact ih.add _

/-- At rest the interleaving has left no trace: the atomics are as after the same calls,
one after the other. -/
theorem atRest_eq_completeAll (h : Reachable (completing enabled).system s) (hrest : AtRest s)
    (hbound : ∀ counter, ((calls s).map fun call => call.value counter).sum < 2 ^ 64) :
    s.shared = completeAll enabled (calls s) := by
  obtain ⟨henabled, hlargest⟩ := reachable_maximum h
  rw [sum_totals] at hlargest
  apply RequestLatency.ext_load
  · rw [henabled, completeAll_enabled]
  · intro counter
    rw [atRest_counter h hrest, completeAll_load, Nat.mod_eq_of_lt (hbound counter)]
  · exact hlargest.unique (completeAll_largest _)

end Runs

end CppSearchServer.Observability
