import Mathlib.Data.List.Nodup
import Mathlib.Data.List.Perm.Basic

/-! Hash maps, up to the order in which they are iterated. A map is its list of
entries with distinct keys, every loop over it may see them in any order, and what
a loop of updates leaves under a key depends only on the updates of that key. -/

namespace CppSearchServer.Library

structure UnorderedMap (K V : Type*) where
  entries : List (K × V)
  distinct : (entries.map Prod.fst).Nodup

/-- The order in which one loop visits the elements of a container. -/
structure IterationOrder (α : Type*) where
  visit : List α → List α
  perm : ∀ elements, (visit elements).Perm elements

def IterationOrder.startingWith {α : Type*} [DecidableEq α] (a : α) : IterationOrder α where
  visit elements := if a ∈ elements then a :: elements.erase a else elements
  perm elements := by
    split
    · rename_i hmem
      exact (List.perm_cons_erase hmem).symm
    · exact List.Perm.refl _

theorem IterationOrder.startingWith_visit {α : Type*} [DecidableEq α] {a : α} {elements : List α}
    (h : a ∈ elements) :
    (IterationOrder.startingWith a).visit elements = a :: elements.erase a :=
  if_pos h

namespace UnorderedMap

variable {K V A : Type*}

def empty : UnorderedMap K V := ⟨[], by simp⟩

variable [DecidableEq K]

def find (m : UnorderedMap K V) (k : K) : Option V :=
  (m.entries.find? fun e => e.1 = k).map Prod.snd

def updateEntries (k : K) (initial : V) (f : V → V) : List (K × V) → List (K × V)
  | [] => [(k, f initial)]
  | e :: entries =>
    if e.1 = k then (k, f e.2) :: entries else e :: updateEntries k initial f entries

theorem updateEntries_keys (k : K) (initial : V) (f : V → V) (entries : List (K × V)) :
    (updateEntries k initial f entries).map Prod.fst =
      if k ∈ entries.map Prod.fst then entries.map Prod.fst
      else entries.map Prod.fst ++ [k] := by
  induction entries with
  | nil => simp [updateEntries]
  | cons e entries ih =>
    by_cases he : e.1 = k
    · simp [updateEntries, he]
    · rw [updateEntries, if_neg he, List.map_cons, ih]
      have hk : ¬k = e.1 := fun h => he h.symm
      simp only [List.map_cons, List.mem_cons, hk, false_or]
      split <;> simp

/-- `f(m[k])`, where `m[k]` starts as `initial`. -/
def update (m : UnorderedMap K V) (k : K) (initial : V) (f : V → V) : UnorderedMap K V where
  entries := updateEntries k initial f m.entries
  distinct := by
    rw [updateEntries_keys]
    split
    · exact m.distinct
    · rename_i hk
      exact List.nodup_append_comm.mp (by simpa using ⟨by simpa using hk, m.distinct⟩)

/-- `m.emplace(k, v)` keeps the value that is there. -/
def emplace (m : UnorderedMap K V) (k : K) (v : V) : UnorderedMap K V := m.update k v id

def erase (m : UnorderedMap K V) (k : K) : UnorderedMap K V where
  entries := m.entries.filter fun e => e.1 ≠ k
  distinct := m.distinct.sublist (List.filter_sublist.map _)

@[simp] theorem find_empty (k : K) : (empty : UnorderedMap K V).find k = none := rfl

theorem mem_entries_iff (m : UnorderedMap K V) (k : K) (v : V) :
    (k, v) ∈ m.entries ↔ m.find k = some v := by
  obtain ⟨entries, hdistinct⟩ := m
  simp only [find]
  induction entries with
  | nil => simp
  | cons e entries ih =>
    rw [List.map_cons, List.nodup_cons] at hdistinct
    rw [List.mem_cons, ih hdistinct.2, List.find?_cons]
    by_cases he : e.1 = k
    · have hnone : entries.find? (fun e' => e'.1 = k) = none := by
        rw [List.find?_eq_none]
        intro e' hmem heq
        exact hdistinct.1 (List.mem_map.mpr ⟨e', hmem, (of_decide_eq_true heq).trans he.symm⟩)
      rw [hnone]
      simp only [he, decide_true, Option.map_none, reduceCtorEq, or_false, Option.map_some,
        Option.some.injEq]
      exact ⟨fun h => by rw [← h], fun h => Prod.ext he.symm h.symm⟩
    · have hne : (k, v) ≠ e := fun h => he (by rw [← h])
      simp [he, hne]

theorem find_updateEntries (k k' : K) (initial : V) (f : V → V) (entries : List (K × V)) :
    ((updateEntries k initial f entries).find? fun e => e.1 = k').map Prod.snd =
      if k' = k then some (f (((entries.find? fun e => e.1 = k).map Prod.snd).getD initial))
      else (entries.find? fun e => e.1 = k').map Prod.snd := by
  induction entries with
  | nil =>
    by_cases hk : k' = k
    · simp [updateEntries, hk]
    · have hk' : ¬k = k' := fun h => hk h.symm
      simp [updateEntries, hk, hk']
  | cons e entries ih =>
    by_cases he : e.1 = k
    · by_cases hk : k' = k
      · simp [updateEntries, he, hk]
      · have hk' : ¬k = k' := fun h => hk h.symm
        simp [updateEntries, he, hk, hk']
    · by_cases hk : k' = k
      · subst hk
        simpa [updateEntries, he] using ih
      · by_cases hek : e.1 = k'
        · simp [updateEntries, hk, hek]
        · simpa [updateEntries, he, hk, hek] using ih

theorem find_update (m : UnorderedMap K V) (k k' : K) (initial : V) (f : V → V) :
    (m.update k initial f).find k' =
      if k' = k then some (f ((m.find k).getD initial)) else m.find k' :=
  find_updateEntries k k' initial f m.entries

theorem find_emplace (m : UnorderedMap K V) (k k' : K) (v : V) :
    (m.emplace k v).find k' = if k' = k then some ((m.find k).getD v) else m.find k' :=
  find_update m k k' v id

def firstValue (k : K) (pairs : List (K × V)) : Option V :=
  (pairs.find? fun pair => pair.1 = k).map Prod.snd

theorem find_foldl_emplace (pairs : List (K × V)) (m : UnorderedMap K V) (k : K) :
    (pairs.foldl (fun m pair => m.emplace pair.1 pair.2) m).find k =
      (m.find k).or (firstValue k pairs) := by
  induction pairs generalizing m with
  | nil => simp [firstValue]
  | cons pair pairs ih =>
    rw [List.foldl_cons, ih, find_emplace]
    by_cases hk : k = pair.1
    · cases hfind : m.find pair.1 <;> simp [firstValue, hk, hfind]
    · have hk' : ¬pair.1 = k := fun h => hk h.symm
      simp [firstValue, hk, hk']

theorem find_erase (m : UnorderedMap K V) (k k' : K) :
    (m.erase k).find k' = if k' = k then none else m.find k' := by
  simp only [find, erase, List.find?_filter]
  split
  · rename_i hk
    subst hk
    simp
  · rename_i hk
    congr 2
    funext e
    by_cases he : e.1 = k' <;> simp [he, hk]

theorem find_of_erase {m : UnorderedMap K V} {k k' : K} {v : V}
    (h : (m.erase k).find k' = some v) : m.find k' = some v := by
  rw [find_erase] at h
  exact (Option.ite_none_left_eq_some.mp h).2

theorem find_foldl_update (key : A → K) (initial : A → V) (f : A → V → V) (k : K) (loop : List A)
    (m : UnorderedMap K V) :
    (loop.foldl (fun m a => m.update (key a) (initial a) (f a)) m).find k =
      (loop.filter fun a => key a = k).foldl (fun v a => some (f a (v.getD (initial a))))
        (m.find k) := by
  induction loop generalizing m with
  | nil => rfl
  | cons a loop ih =>
    rw [List.foldl_cons, ih, find_update, List.filter_cons]
    by_cases ha : k = key a
    · simp [ha]
    · have ha' : ¬key a = k := fun h => ha h.symm
      simp [ha, ha']

theorem filter_entries (m : UnorderedMap K V) (k : K) :
    (m.entries.filter fun e => e.1 = k) = (m.find k).toList.map fun v => (k, v) := by
  obtain ⟨entries, hdistinct⟩ := m
  simp only [find]
  induction entries with
  | nil => rfl
  | cons e entries ih =>
    rw [List.map_cons, List.nodup_cons] at hdistinct
    by_cases he : e.1 = k
    · have hnone : entries.filter (fun e' => e'.1 = k) = [] := by
        rw [List.filter_eq_nil_iff]
        intro e' hmem heq
        exact hdistinct.1 (List.mem_map.mpr ⟨e', hmem, (of_decide_eq_true heq).trans he.symm⟩)
      simp [he, hnone, Prod.ext_iff]
    · simpa [he] using ih hdistinct.2

theorem filter_visit (m : UnorderedMap K V) (order : IterationOrder (K × V)) (k : K) :
    ((order.visit m.entries).filter fun e => e.1 = k) =
      (m.find k).toList.map fun v => (k, v) := by
  have hperm := (order.perm m.entries).filter fun e => e.1 = k
  rw [filter_entries] at hperm
  cases h : m.find k with
  | none => simpa [h] using hperm
  | some v => simpa [h] using hperm

theorem length_emplace {m : UnorderedMap K V} {k : K} (hk : m.find k = none) (v : V) :
    (m.emplace k v).entries.length = m.entries.length + 1 := by
  have habsent : k ∉ m.entries.map Prod.fst := by
    intro hmem
    obtain ⟨e, he, rfl⟩ := List.mem_map.mp hmem
    have hfind := (mem_entries_iff m e.1 e.2).mp he
    rw [hk] at hfind
    cases hfind
  have hkeys := updateEntries_keys k v id m.entries
  rw [if_neg habsent] at hkeys
  have hlength := congrArg List.length hkeys
  rw [List.length_map, List.length_append, List.length_map] at hlength
  exact hlength

theorem length_erase {m : UnorderedMap K V} {k : K} {v : V} (hk : m.find k = some v) :
    (m.erase k).entries.length + 1 = m.entries.length := by
  have hsplit := List.length_eq_length_filter_add (l := m.entries) fun e => decide (e.1 = k)
  have hrest : (m.entries.filter fun e => !decide (e.1 = k)) = (m.erase k).entries :=
    List.filter_congr fun e _ => by simp
  rw [filter_entries, hk, hrest] at hsplit
  rw [hsplit]
  exact Nat.add_comm _ _

theorem mem_visit_iff (m : UnorderedMap K V) (order : IterationOrder (K × V)) (k : K) (v : V) :
    (k, v) ∈ order.visit m.entries ↔ m.find k = some v := by
  rw [(order.perm _).mem_iff, mem_entries_iff]

omit [DecidableEq K] in
theorem visit_nodup (m : UnorderedMap K V) (order : IterationOrder (K × V)) :
    (order.visit m.entries).Nodup :=
  (order.perm _).nodup_iff.mpr m.distinct.of_map

end UnorderedMap

end CppSearchServer.Library
