import Mathlib.Algebra.GroupWithZero.Nat
import Mathlib.Data.Option.Basic
import Mathlib.Logic.Basic

/-! Labelled transition systems whose steps are partial functions.
A label carries every choice the environment makes, so a step can be evaluated;
an invariant is proved from the initial states and from one step, and a run of
labels is replayed by `run`. -/

namespace CppSearchServer.Library.TransitionSystem

structure System (State Action : Type*) where
  initial : State → Prop
  step : State → Action → Option State

variable {State Action : Type*}

inductive Reachable (M : System State Action) : State → Prop where
  | start {s : State} : M.initial s → Reachable M s
  | next {s t : State} {a : Action} :
      Reachable M s → M.step s a = some t → Reachable M t

/-- The step obligation may use that the state before the step is reachable, so
invariants proved earlier are at hand in later ones. -/
theorem Reachable.invariant {M : System State Action} {P : State → Prop}
    (start : ∀ s, M.initial s → P s)
    (next : ∀ s a t, Reachable M s → P s → M.step s a = some t → P t)
    {s : State} (h : Reachable M s) : P s := by
  induction h with
  | start hs => exact start _ hs
  | next hs hstep ih => exact next _ _ _ hs ih hstep

def run (M : System State Action) : State → List Action → Option State
  | s, [] => some s
  | s, a :: as => (M.step s a).bind fun t => run M t as

theorem Reachable.run {M : System State Action} {s t : State} {as : List Action}
    (h : Reachable M s) (hrun : run M s as = some t) : Reachable M t := by
  induction as generalizing s with
  | nil =>
    simp only [TransitionSystem.run, Option.some.injEq] at hrun
    exact hrun ▸ h
  | cons a as ih =>
    obtain ⟨u, hstep, hrest⟩ := Option.bind_eq_some_iff.mp hrun
    exact ih (.next h hstep) hrest

/-- The same system, allowed only the steps that meet a condition on the state
before the step and on the label. -/
def restrict (M : System State Action) (allowed : State → Action → Bool) :
    System State Action where
  initial := M.initial
  step s a := if allowed s a then M.step s a else none

theorem restrict_step {M : System State Action} {allowed : State → Action → Bool}
    {s t : State} {a : Action} :
    (restrict M allowed).step s a = some t ↔ allowed s a = true ∧ M.step s a = some t := by
  by_cases h : allowed s a <;> simp [restrict, h]

theorem Reachable.of_restrict {M : System State Action} {allowed : State → Action → Bool}
    {s : State} (h : Reachable (restrict M allowed) s) : Reachable M s := by
  induction h with
  | start hs => exact .start hs
  | next _ hstep ih => exact .next ih (restrict_step.mp hstep).2

/-- Reached by steps that all meet a condition, which need not be decidable. -/
inductive ReachableBy (M : System State Action) (allowed : State → Action → Prop) :
    State → Prop where
  | start {s : State} : M.initial s → ReachableBy M allowed s
  | next {s t : State} {a : Action} :
      ReachableBy M allowed s → allowed s a → M.step s a = some t → ReachableBy M allowed t

theorem ReachableBy.reachable {M : System State Action} {allowed : State → Action → Prop}
    {s : State} (h : ReachableBy M allowed s) : Reachable M s := by
  induction h with
  | start hs => exact .start hs
  | next _ _ hstep ih => exact .next ih hstep

theorem Reachable.reachableBy {M : System State Action} {allowed : State → Action → Prop}
    {s : State} (h : Reachable M s) (hall : ∀ s a, allowed s a) : ReachableBy M allowed s := by
  induction h with
  | start hs => exact .start hs
  | next _ hstep ih => exact .next ih (hall _ _) hstep

theorem ReachableBy.invariant {M : System State Action} {allowed : State → Action → Prop}
    {P : State → Prop} (start : ∀ s, M.initial s → P s)
    (next : ∀ s a t, Reachable M s → P s → allowed s a → M.step s a = some t → P t)
    {s : State} (h : ReachableBy M allowed s) : P s := by
  induction h with
  | start hs => exact start _ hs
  | next hs hallowed hstep ih => exact next _ _ _ hs.reachable ih hallowed hstep

theorem ReachableBy.run {M : System State Action} {allowed : State → Action → Prop}
    {s t : State} {as : List Action} (h : ReachableBy M allowed s)
    (hall : ∀ a ∈ as, ∀ s, allowed s a) (hrun : run M s as = some t) : ReachableBy M allowed t := by
  induction as generalizing s with
  | nil =>
    simp only [TransitionSystem.run, Option.some.injEq] at hrun
    exact hrun ▸ h
  | cons a as ih =>
    obtain ⟨u, hstep, hrest⟩ := Option.bind_eq_some_iff.mp hrun
    exact ih (.next h (hall a (List.mem_cons_self ..) s) hstep)
      (fun b hb => hall b (List.mem_cons_of_mem _ hb)) hrest

section

variable {Call Answer S T : Type*}

def answer (call : S → Call → Answer × S) : S → List Call → List Answer × S
  | s, [] => ([], s)
  | s, c :: cs =>
    let first := call s c
    let rest := answer call first.2 cs
    (first.1 :: rest.1, rest.2)

theorem answer_append (call : S → Call → Answer × S) (s : S) (cs ds : List Call) :
    answer call s (cs ++ ds) =
      ((answer call s cs).1 ++ (answer call (answer call s cs).2 ds).1,
        (answer call (answer call s cs).2 ds).2) := by
  induction cs generalizing s with
  | nil => rfl
  | cons c cs ih => rw [List.cons_append, answer, ih, answer, List.cons_append]

theorem answer_simulates {call : S → Call → Answer × S} {call' : T → Call → Answer × T}
    (related : S → T → Prop)
    (step : ∀ s t c, related s t →
      (call s c).1 = (call' t c).1 ∧ related (call s c).2 (call' t c).2)
    {s : S} {t : T} (h : related s t) (cs : List Call) :
    (answer call s cs).1 = (answer call' t cs).1 ∧
      related (answer call s cs).2 (answer call' t cs).2 := by
  induction cs generalizing s t with
  | nil => exact ⟨rfl, h⟩
  | cons c cs ih =>
    obtain ⟨hfirst, hrelated⟩ := step s t c h
    obtain ⟨hrest, hend⟩ := ih hrelated
    exact ⟨congrArg₂ List.cons hfirst hrest, hend⟩

end

end CppSearchServer.Library.TransitionSystem
