import Mathlib.Data.List.Nodup

/-! The simplest least-recently-used cache whose entries expire: one list, the most
recently used entry first. -/

namespace CppSearchServer.Library

structure TtlList.Item (K V T : Type*) where
  key : K
  value : V
  expiresAt : T
deriving DecidableEq

structure TtlList.Stats where
  hits : Nat
  misses : Nat
  expirations : Nat
  evictions : Nat
deriving DecidableEq

structure TtlList (K V T : Type*) (capacity : Nat) where
  items : List (TtlList.Item K V T)
  stats : TtlList.Stats
  distinct : (items.map (·.key)).Nodup
  bounded : items.length ≤ capacity

namespace TtlList

variable {K V T : Type*} {capacity : Nat}

def empty : TtlList K V T capacity := ⟨[], ⟨0, 0, 0, 0⟩, by simp, by simp⟩

def dropOver (capacity : Nat) (items : List (Item K V T)) : List (Item K V T) :=
  if items.length > capacity then items.dropLast else items

theorem dropOver_sublist (capacity : Nat) (items : List (Item K V T)) :
    (dropOver capacity items).Sublist items := by
  unfold dropOver
  split
  · exact List.dropLast_sublist items
  · exact List.Sublist.refl _

theorem length_dropOver {items : List (Item K V T)} (h : items.length ≤ capacity + 1) :
    (dropOver capacity items).length ≤ capacity := by
  unfold dropOver
  split
  · rw [List.length_dropLast]
    omega
  · omega

theorem dropOver_eq_take {items : List (Item K V T)} (h : items.length ≤ capacity + 1) :
    dropOver capacity items = items.take capacity := by
  unfold dropOver
  split
  · have hlength : items.length - 1 = capacity := by omega
    rw [List.dropLast_eq_take, hlength]
  · rw [List.take_of_length_le (by omega)]

variable [DecidableEq K]

def lookup (key : K) (items : List (Item K V T)) : Option (Item K V T) :=
  items.find? fun item => item.key = key

def without (key : K) (items : List (Item K V T)) : List (Item K V T) :=
  items.filter fun item => item.key ≠ key

theorem without_sublist (key : K) (items : List (Item K V T)) :
    (without key items).Sublist items := List.filter_sublist

theorem without_nodup {items : List (Item K V T)} (h : (items.map (·.key)).Nodup) (key : K) :
    ((without key items).map (·.key)).Nodup :=
  h.sublist ((without_sublist _ _).map _)

theorem cons_without_nodup {items : List (Item K V T)} (h : (items.map (·.key)).Nodup) {key : K}
    {item : Item K V T} (hkey : item.key = key) :
    ((item :: without key items).map (·.key)).Nodup := by
  rw [List.map_cons, List.nodup_cons]
  refine ⟨fun hmem => ?_, without_nodup h key⟩
  obtain ⟨other, hother, heq⟩ := List.mem_map.mp hmem
  simp [without, heq, hkey] at hother

theorem lookup_key {items : List (Item K V T)} {key : K} {item : Item K V T}
    (h : lookup key items = some item) : item.key = key := by
  simpa using List.find?_some h

theorem without_of_absent {items : List (Item K V T)} {key : K} (h : lookup key items = none) :
    without key items = items :=
  List.filter_eq_self.mpr fun item hitem => by simpa using List.find?_eq_none.mp h item hitem

theorem length_cons_without {items : List (Item K V T)} {key : K} {item : Item K V T}
    (h : lookup key items = some item) : (item :: without key items).length ≤ items.length := by
  have hlt : (without key items).length < items.length :=
    List.length_filter_lt_length_iff_exists.mpr
      ⟨item, List.mem_of_find?_eq_some h, by simp [lookup_key h]⟩
  exact hlt

/-- An entry that has expired is removed when it is asked for. -/
def get [LT T] [DecidableLT T] (now : T) (key : K) (l : TtlList K V T capacity) :
    Option V × TtlList K V T capacity :=
  match h : lookup key l.items with
  | none => (none, { l with stats := { l.stats with misses := l.stats.misses + 1 } })
  | some item =>
    if now < item.expiresAt then
      (some item.value, {
        items := item :: without key l.items
        stats := { l.stats with hits := l.stats.hits + 1 }
        distinct := cons_without_nodup l.distinct (lookup_key h)
        bounded := Nat.le_trans (length_cons_without h) l.bounded })
    else
      (none, {
        items := without key l.items
        stats := { l.stats with
          misses := l.stats.misses + 1
          expirations := l.stats.expirations + 1 }
        distinct := without_nodup l.distinct key
        bounded := Nat.le_trans (without_sublist key l.items).length_le l.bounded })

section

variable [LT T] [DecidableLT T] {l : TtlList K V T capacity} {key : K} {item : Item K V T} {now : T}

theorem get_absent (h : lookup key l.items = none) :
    l.get now key = (none, { l with stats := { l.stats with misses := l.stats.misses + 1 } }) := by
  unfold get
  split
  · rfl
  · rename_i heq
    rw [h] at heq
    cases heq

theorem get_fresh (h : lookup key l.items = some item) (hnow : now < item.expiresAt) :
    (l.get now key).1 = some item.value ∧
      (l.get now key).2.items = item :: without key l.items ∧
      (l.get now key).2.stats = { l.stats with hits := l.stats.hits + 1 } := by
  unfold get
  split
  · rename_i heq
    rw [h] at heq
    cases heq
  · rename_i heq
    rw [h] at heq
    cases heq
    rw [if_pos hnow]
    exact ⟨rfl, rfl, rfl⟩

theorem get_expired (h : lookup key l.items = some item) (hnow : ¬now < item.expiresAt) :
    (l.get now key).1 = none ∧ (l.get now key).2.items = without key l.items ∧
      (l.get now key).2.stats = { l.stats with
        misses := l.stats.misses + 1
        expirations := l.stats.expirations + 1 } := by
  unfold get
  split
  · rename_i heq
    rw [h] at heq
    cases heq
  · rename_i heq
    rw [h] at heq
    cases heq
    rw [if_neg hnow]
    exact ⟨rfl, rfl, rfl⟩

end

def put (expiresAt : T) (key : K) (value : V) (l : TtlList K V T capacity) :
    TtlList K V T capacity where
  items := dropOver capacity (⟨key, value, expiresAt⟩ :: without key l.items)
  stats :=
    if (without key l.items).length + 1 > capacity then
      { l.stats with evictions := l.stats.evictions + 1 }
    else l.stats
  distinct := (cons_without_nodup l.distinct rfl).sublist ((dropOver_sublist _ _).map _)
  bounded := length_dropOver
    (Nat.succ_le_succ (Nat.le_trans (without_sublist key l.items).length_le l.bounded))

theorem put_present {l : TtlList K V T capacity} {key : K} {item : Item K V T}
    (h : lookup key l.items = some item) (expiresAt : T) (value : V) :
    (l.put expiresAt key value).items = ⟨key, value, expiresAt⟩ :: without key l.items ∧
      (l.put expiresAt key value).stats = l.stats := by
  have hlength : (without key l.items).length + 1 ≤ capacity :=
    Nat.le_trans (length_cons_without h) l.bounded
  have hfits : ¬(without key l.items).length + 1 > capacity := Nat.not_lt.mpr hlength
  exact ⟨if_neg hfits, if_neg hfits⟩

theorem put_absent {l : TtlList K V T capacity} {key : K} (h : lookup key l.items = none)
    (expiresAt : T) (value : V) :
    (l.put expiresAt key value).items = dropOver capacity (⟨key, value, expiresAt⟩ :: l.items) ∧
      (l.put expiresAt key value).stats =
        if l.items.length + 1 > capacity then
          { l.stats with evictions := l.stats.evictions + 1 }
        else l.stats := by
  have hall := without_of_absent h
  constructor
  · change dropOver capacity (_ :: without key l.items) = _
    rw [hall]
  · change (if (without key l.items).length + 1 > capacity then _ else _) = _
    rw [hall]

theorem lookup_eq_none_iff {items : List (Item K V T)} {key : K} :
    lookup key items = none ↔ key ∉ items.map (·.key) := by
  simp [lookup]

theorem keys_put_absent {l : TtlList K V T capacity} {key : K} (h : key ∉ l.items.map (·.key))
    (expiresAt : T) (value : V) : (l.put expiresAt key value).items.map (·.key) =
      (key :: l.items.map (·.key)).take capacity := by
  have hbounded := l.bounded
  rw [(put_absent (lookup_eq_none_iff.mpr h) expiresAt value).1,
    dropOver_eq_take (by rw [List.length_cons]; omega), List.map_take]
  rfl

/-- New keys drive out the old ones, and at last one another. -/
theorem keys_foldl_put {l : TtlList K V T capacity} {keys : List K} (hnodup : keys.Nodup)
    (hkeys : ∀ key ∈ keys, key ∉ l.items.map (·.key)) (expiresAt : T) (value : V) :
    (keys.foldl (fun l key => l.put expiresAt key value) l).items.map (·.key) =
      (keys.reverse ++ l.items.map (·.key)).take capacity := by
  induction keys generalizing l with
  | nil =>
    have hlength : (l.items.map (·.key)).length ≤ capacity := by
      rw [List.length_map]
      exact l.bounded
    exact (List.take_of_length_le hlength).symm
  | cons key keys ih =>
    obtain ⟨hkey, hnodup⟩ := List.nodup_cons.mp hnodup
    have hput := keys_put_absent (hkeys key (by simp)) expiresAt value
    have hkeys' : ∀ other ∈ keys, other ∉ (l.put expiresAt key value).items.map (·.key) := by
      intro other hother hmem
      rw [hput] at hmem
      rcases List.mem_cons.mp (List.mem_of_mem_take hmem) with rfl | hmem
      · exact hkey hother
      · exact hkeys other (by simp [hother]) hmem
    rw [List.foldl_cons, ih hnodup hkeys', hput, List.reverse_cons, List.append_assoc]
    simp [List.take_append, List.take_take]

inductive Call (K V T : Type*) where
  | get (now : T) (key : K)
  | put (now : T) (key : K) (value : V)
deriving DecidableEq

inductive Answer (V : Type*) where
  | got (value : Option V)
  | done
deriving DecidableEq

def call [LT T] [DecidableLT T] [Add T] (ttl : T) (l : TtlList K V T capacity) :
    Call K V T → Answer V × TtlList K V T capacity
  | .get now key =>
    let found := l.get now key
    (.got found.1, found.2)
  | .put now key value => (.done, l.put (now + ttl) key value)

end TtlList

end CppSearchServer.Library
