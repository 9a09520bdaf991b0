import CppSearchServer.Library.TransitionSystem
import Mathlib.Algebra.BigOperators.Group.List.Basic
import Mathlib.Algebra.Ring.Nat

/-! Any number of components around one shared value.
Components join at any time and take their steps one at a time, each on its own
state and on the shared value. What the shared value holds agrees with what the
components have gathered, if each step changes both alike: a sum with a counter, a
collection with its maximum. -/

namespace CppSearchServer.Library.Composition

open TransitionSystem

variable {Shared Component Join Action : Type*}

structure Parts (Shared Component Join Action : Type*) where
  initial : Shared → Prop
  join : Shared → Join → Option Component
  step : Shared → Component → Action → Option (Shared × Component)

structure Composed (Shared Component : Type*) where
  shared : Shared
  components : List Component

inductive Move (Join Action : Type*) where
  | join (j : Join)
  | step (i : Nat) (a : Action)

def Parts.move (M : Parts Shared Component Join Action) (s : Composed Shared Component) :
    Move Join Action → Option (Composed Shared Component)
  | .join j => (M.join s.shared j).map fun c => { s with components := s.components ++ [c] }
  | .step i a => s.components[i]?.bind fun c =>
    (M.step s.shared c a).map fun next => ⟨next.1, s.components.set i next.2⟩

def Parts.system (M : Parts Shared Component Join Action) :
    System (Composed Shared Component) (Move Join Action) where
  initial s := M.initial s.shared ∧ s.components = []
  step := M.move

section Gathered

variable {M : Type*} [AddCommMonoid M]

theorem exists_others (weight : Component → M) {components : List Component} {i : Nat}
    {c : Component} (h : components[i]? = some c) :
    ∃ others, (components.map weight).sum = weight c + others ∧
      ∀ c', ((components.set i c').map weight).sum = weight c' + others := by
  induction components generalizing i with
  | nil => simp at h
  | cons head rest ih =>
    cases i with
    | zero =>
      obtain rfl : head = c := by simpa using h
      exact ⟨(rest.map weight).sum, by simp, by simp⟩
    | succ i =>
      obtain ⟨others, hsum, hset⟩ := ih (i := i) (by simpa using h)
      refine ⟨weight head + others, ?_, fun c' => ?_⟩
      · rw [List.map_cons, List.sum_cons, hsum, add_left_comm]
      · rw [List.set_cons_succ, List.map_cons, List.sum_cons, hset, add_left_comm]

/-- The shared value stands in the relation `agrees` to what the components have
gathered so far. -/
structure Gathered (agrees : Shared → M → Prop) (sound : Component → Prop)
    (weight : Component → M) (s : Composed Shared Component) : Prop where
  components : ∀ c ∈ s.components, sound c
  agrees : agrees s.shared (s.components.map weight).sum

theorem Parts.gathered {P : Parts Shared Component Join Action} {agrees : Shared → M → Prop}
    {sound : Component → Prop} {weight : Component → M}
    (start : ∀ m, P.initial m → agrees m 0)
    (join : ∀ m j c total, agrees m total → P.join m j = some c → sound c ∧ weight c = 0)
    (step : ∀ m c a m' c' others, agrees m (weight c + others) → sound c →
      P.step m c a = some (m', c') → agrees m' (weight c' + others) ∧ sound c')
    {s : Composed Shared Component} (h : Reachable P.system s) :
    Gathered agrees sound weight s := by
  induction h with
  | start hs =>
    obtain ⟨hinitial, hnone⟩ := hs
    exact ⟨by simp [hnone], by simpa [hnone] using start _ hinitial⟩
  | @next s t a _ hstep ih =>
    cases a with
    | join j =>
      obtain ⟨c, hjoin, rfl⟩ := Option.map_eq_some_iff.mp hstep
      obtain ⟨hsound, hzero⟩ := join _ _ _ _ ih.agrees hjoin
      refine ⟨fun d hd => ?_, ?_⟩
      · rcases List.mem_append.mp hd with hd | hd
        · exact ih.components d hd
        · exact List.mem_singleton.mp hd ▸ hsound
      · simpa [hzero] using ih.agrees
    | step i a =>
      obtain ⟨c, hc, hmove⟩ := Option.bind_eq_some_iff.mp hstep
      obtain ⟨⟨m', c'⟩, hnext, rfl⟩ := Option.map_eq_some_iff.mp hmove
      obtain ⟨others, hsum, hset⟩ := exists_others weight hc
      obtain ⟨hagrees, hsound⟩ := step _ _ _ _ _ _ (hsum ▸ ih.agrees)
        (ih.components c (List.mem_of_getElem? hc)) hnext
      refine ⟨fun d hd => ?_, ?_⟩
      · rcases List.mem_or_eq_of_mem_set hd with hd | rfl
        · exact ih.components d hd
        · exact hsound
      · dsimp only
        rw [hset]
        exact hagrees

end Gathered

structure Accounted (good : Shared → Prop) (sound : Component → Prop) (total : Shared → Nat)
    (weight : Component → Nat) (s : Composed Shared Component) : Prop where
  shared : good s.shared
  components : ∀ c ∈ s.components, sound c
  total_eq : total s.shared = (s.components.map weight).sum

theorem Parts.accounted {M : Parts Shared Component Join Action} {good : Shared → Prop}
    {sound : Component → Prop} {total : Shared → Nat} {weight : Component → Nat}
    (start : ∀ m, M.initial m → good m ∧ total m = 0)
    (join : ∀ m j c, good m → M.join m j = some c → sound c ∧ weight c = 0)
    (step : ∀ m c a m' c', good m → sound c → M.step m c a = some (m', c') →
      good m' ∧ sound c' ∧ total m' + weight c = total m + weight c')
    {s : Composed Shared Component} (h : Reachable M.system s) :
    Accounted good sound total weight s := by
  have hgathered : Gathered (fun m n => good m ∧ total m = n) sound weight s := by
    refine Parts.gathered start ?_ ?_ h
    · exact fun m j c _ hm hjoin => join m j c hm.1 hjoin
    · rintro m c a m' c' others ⟨hgood, htotal⟩ hsound hnext
      obtain ⟨hgood', hsound', hcount⟩ := step m c a m' c' hgood hsound hnext
      exact ⟨⟨hgood', by omega⟩, hsound'⟩
  exact ⟨hgathered.agrees.1, hgathered.components, hgathered.agrees.2⟩

end CppSearchServer.Library.Composition
