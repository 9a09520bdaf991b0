import Mathlib.Algebra.Order.Group.Multiset
import Mathlib.Algebra.Ring.Nat
import Mathlib.Data.List.Sort
import Mathlib.Data.Multiset.Bind
import Mathlib.Data.Multiset.Filter

/-! Priority queues by contract, and draining one while it is refilled.
The queue shows some element of smallest key; which one among equals is its own choice.
Draining takes what is due, one element after the other, and each may add others before
the next is taken. -/

namespace CppSearchServer.Library

/-- What a priority queue promises: `contents` says what it holds. -/
structure PriorityQueue (α T : Type*) [LE T] (key : α → T) where
  Queue : Type*
  contents : Queue → Multiset α
  empty : Queue
  push : α → Queue → Queue
  top : Queue → Option α
  pop : Queue → Queue
  contents_empty : contents empty = 0
  contents_push : ∀ a q, contents (push a q) = a ::ₘ contents q
  top_none : ∀ q, top q = none → contents q = 0
  top_least : ∀ q a, top q = some a → ∀ b ∈ contents q, key a ≤ key b
  contents_pop : ∀ q a, top q = some a → contents q = a ::ₘ contents (pop q)

namespace PriorityQueue

variable {α T : Type*} [LE T] {key : α → T} (Q : PriorityQueue α T key)

def pushAll (added : List α) (q : Q.Queue) : Q.Queue := added.foldl (fun q a => Q.push a q) q

theorem contents_pushAll (added : List α) (q : Q.Queue) :
    Q.contents (Q.pushAll added q) = Q.contents q + added := by
  induction added generalizing q with
  | nil => simp [pushAll]
  | cons a added ih =>
    have hrest : Q.pushAll (a :: added) q = Q.pushAll added (Q.push a q) := rfl
    rw [hrest, ih, Q.contents_push, Multiset.cons_add, ← Multiset.add_cons, Multiset.cons_coe]

end PriorityQueue

def PriorityQueue.sorting {α T : Type*} [LinearOrder T] (key : α → T) :
    PriorityQueue α T key where
  Queue := List α
  contents q := q
  empty := []
  push a q := a :: q
  top q := (q.insertionSort fun a b => key a ≤ key b).head?
  pop q := (q.insertionSort fun a b => key a ≤ key b).tail
  contents_empty := rfl
  contents_push _ _ := rfl
  top_none q h := by
    have hnil := List.head?_eq_none_iff.mp h
    have hperm := List.perm_insertionSort (fun a b => key a ≤ key b) q
    rw [hnil] at hperm
    exact congrArg _ (List.nil_perm.mp hperm)
  top_least q a h b hb := by
    have hsorted := List.pairwise_insertionSort (fun a b => key a ≤ key b) q
    have hmem := (List.mem_insertionSort fun a b => key a ≤ key b).mpr hb
    obtain ⟨rest, hrest⟩ := List.head?_eq_some_iff.mp h
    rw [hrest] at hsorted hmem
    rcases List.mem_cons.mp hmem with rfl | hmem
    · exact le_rfl
    · exact (List.pairwise_cons.mp hsorted).1 b hmem
  contents_pop q a h := by
    have hperm := List.perm_insertionSort (fun a b => key a ≤ key b) q
    obtain ⟨rest, hrest⟩ := List.head?_eq_some_iff.mp h
    rw [hrest, List.tail_cons]
    rw [hrest] at hperm
    exact Multiset.coe_eq_coe.mpr hperm.symm

structure Called (α : Type*) where
  element : α
  added : List α

namespace Called

variable {α : Type*}

def elements (calls : List (Called α)) : Multiset α := calls.map Called.element

def additions (calls : List (Called α)) : Multiset α := calls.flatMap Called.added

@[simp] theorem elements_nil : elements ([] : List (Called α)) = 0 := rfl
@[simp] theorem additions_nil : additions ([] : List (Called α)) = 0 := rfl

@[simp] theorem elements_cons (call : Called α) (calls : List (Called α)) :
    elements (call :: calls) = call.element ::ₘ elements calls := rfl

@[simp] theorem additions_cons (call : Called α) (calls : List (Called α)) :
    additions (call :: calls) = call.added + additions calls := by
  simp [additions]

end Called

section Draining
variable {α T W : Type*} [LE T] (key : α → T) (invoke : α → W → W × List α) (now : T)

/-- Draining `s` in the world `w` takes the elements of `calls` and leaves the rest. -/
inductive Drains : W → Multiset α → List (Called α) → W → Multiset α → Prop where
  | done {w : W} {s : Multiset α} : (∀ a ∈ s, ¬key a ≤ now) → Drains w s [] w s
  | call {w w' : W} {a : α} {rest s' : Multiset α} {calls : List (Called α)} :
      key a ≤ now → (∀ b ∈ rest, key a ≤ key b) →
      Drains (invoke a w).1 (rest + (invoke a w).2) calls w' s' →
      Drains w (a ::ₘ rest) (⟨a, (invoke a w).2⟩ :: calls) w' s'

/-- The calls, made one after the other from the world `w` on. -/
def Called.Replays : W → List (Called α) → W → Prop
  | w, [], w' => w' = w
  | w, call :: calls, w' =>
    call.added = (invoke call.element w).2 ∧ Replays (invoke call.element w).1 calls w'

variable {key invoke now} {w w' : W} {s s' : Multiset α} {calls : List (Called α)}

open Called

theorem Drains.replays (h : Drains key invoke now w s calls w' s') : Replays invoke w calls w' := by
  induction h with
  | done => rfl
  | call _ _ _ ih => exact ⟨rfl, ih⟩

theorem Drains.accounts (h : Drains key invoke now w s calls w' s') :
    s + additions calls = elements calls + s' := by
  induction h with
  | done => simp
  | call _ _ _ ih =>
    rw [additions_cons, elements_cons, Multiset.cons_add, Multiset.cons_add, ← add_assoc, ih]

theorem Drains.due (h : Drains key invoke now w s calls w' s') :
    ∀ a ∈ elements calls, key a ≤ now := by
  induction h with
  | done => simp
  | call hdue _ _ ih =>
    intro b hb
    rw [elements_cons, Multiset.mem_cons] at hb
    rcases hb with rfl | hb
    · exact hdue
    · exact ih b hb

theorem Drains.remaining (h : Drains key invoke now w s calls w' s') :
    ∀ a ∈ s', ¬key a ≤ now := by
  induction h with
  | done hlate => exact hlate
  | call _ _ _ ih => exact ih

theorem Drains.elements_eq [DecidableLE T] (h : Drains key invoke now w s calls w' s') :
    elements calls = (s + additions calls).filter (key · ≤ now) := by
  rw [h.accounts, Multiset.filter_add, Multiset.filter_eq_self.mpr h.due,
    Multiset.filter_eq_nil.mpr h.remaining, add_zero]

theorem Drains.remaining_eq [DecidableLE T] (h : Drains key invoke now w s calls w' s') :
    s' = (s + additions calls).filter (¬key · ≤ now) := by
  have hdue : ∀ a ∈ elements calls, ¬¬key a ≤ now := fun a ha => not_not.mpr (h.due a ha)
  rw [h.accounts, Multiset.filter_add, Multiset.filter_eq_nil.mpr hdue,
    Multiset.filter_eq_self.mpr h.remaining, zero_add]

theorem Drains.smallest (h : Drains key invoke now w s calls w' s')
    {before behind : List (Called α)}
    {call : Called α} (hcalls : calls = before ++ call :: behind) :
    ∃ pending, s + additions before = elements before + (call.element ::ₘ pending) ∧
      ∀ b ∈ pending, key call.element ≤ key b := by
  induction h generalizing before with
  | done => simp at hcalls
  | @call w w' a rest s' calls hdue hleast hrest ih =>
    cases before with
    | nil =>
      obtain ⟨rfl, -⟩ := List.cons.inj hcalls
      exact ⟨rest, by simp, hleast⟩
    | cons first before =>
      obtain ⟨rfl, hbehind⟩ := List.cons.inj hcalls
      obtain ⟨pending, hpending, hsmallest⟩ := ih hbehind
      refine ⟨pending, ?_, hsmallest⟩
      rw [additions_cons, elements_cons, Multiset.cons_add, Multiset.cons_add, ← add_assoc,
        hpending]

/-- What every call costs is paid from a potential. -/
theorem Drains.cost_le (possible : W → Multiset α → Prop) (potential : W → Multiset α → Nat)
    (cost : α → Nat)
    (step : ∀ w a rest, possible w (a ::ₘ rest) → key a ≤ now →
      possible (invoke a w).1 (rest + (invoke a w).2) ∧
        cost a + potential (invoke a w).1 (rest + (invoke a w).2) ≤ potential w (a ::ₘ rest))
    (h : Drains key invoke now w s calls w' s') (hs : possible w s) :
    (calls.map fun call => cost call.element).sum ≤ potential w s := by
  induction h with
  | done => simp
  | call hdue _ _ ih =>
    obtain ⟨hpossible, hcost⟩ := step _ _ _ hs hdue
    rw [List.map_cons, List.sum_cons]
    exact (Nat.add_le_add_left (ih hpossible) _).trans hcost

theorem Drains.countP_le (possible : W → Multiset α → Prop) (potential : W → Multiset α → Nat)
    (p : α → Bool)
    (step : ∀ w a rest, possible w (a ::ₘ rest) → key a ≤ now →
      possible (invoke a w).1 (rest + (invoke a w).2) ∧
        (if p a then 1 else 0) + potential (invoke a w).1 (rest + (invoke a w).2) ≤
          potential w (a ::ₘ rest))
    (h : Drains key invoke now w s calls w' s') (hs : possible w s) :
    calls.countP (fun call => p call.element) ≤ potential w s := by
  have hcount : calls.countP (fun call => p call.element) =
      (calls.map fun call => if p call.element then 1 else 0).sum := by
    clear h
    induction calls with
    | nil => rfl
    | cons call calls ih => rw [List.countP_cons, ih, List.map_cons, List.sum_cons, Nat.add_comm]
  rw [hcount]
  exact h.cost_le possible potential (fun a => if p a then 1 else 0) step hs

end Draining

end CppSearchServer.Library
