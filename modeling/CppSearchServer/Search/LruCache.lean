import CppSearchServer.Bytes
import CppSearchServer.Library.UnorderedMap

/-! `search::LruCache`. A `std::list` iterator is the address of a node, so the
list of keys is a list of addressed nodes and `splice` moves a node. -/

namespace CppSearchServer.Search

open Library

structure LruCache.Stats where
  hits : Nat
  misses : Nat
  expirations : Nat
  evictions : Nat
deriving DecidableEq, Repr

structure LruCache.Node where
  address : Nat
  key : Bytes
deriving DecidableEq, Repr

structure LruCache.Entry where
  value : Bytes
  lruPosition : Nat
  expiresAt : Int
deriving DecidableEq, Repr

/-- `nextAddress` is where the next node will be allocated. -/
structure LruCache where
  capacity : Nat
  ttl : Int
  lruKeys : List LruCache.Node
  entries : UnorderedMap Bytes LruCache.Entry
  stats : LruCache.Stats
  nextAddress : Nat

namespace LruCache

def new (capacity : Nat) (ttl : Int) : Except String LruCache :=
  if capacity = 0 then .error "LRU cache capacity must be positive"
  else if ttl ≤ 0 then .error "LRU cache TTL must be positive"
  else .ok ⟨capacity, ttl, [], .empty, ⟨0, 0, 0, 0⟩, 0⟩

/-- `splice(begin(), lru_keys_, position)`. -/
def moveToFront (position : Nat) (lruKeys : List Node) : List Node :=
  lruKeys.filter (·.address = position) ++ lruKeys.filter (·.address ≠ position)

def get (now : Int) (key : Bytes) (c : LruCache) : Option Bytes × LruCache :=
  match c.entries.find key with
  | none => (none, { c with stats := { c.stats with misses := c.stats.misses + 1 } })
  | some entry =>
    if now ≥ entry.expiresAt then
      (none, { c with
        lruKeys := c.lruKeys.filter (·.address ≠ entry.lruPosition)
        entries := c.entries.erase key
        stats := { c.stats with
          misses := c.stats.misses + 1
          expirations := c.stats.expirations + 1 } })
    else
      (some entry.value, { c with
        lruKeys := moveToFront entry.lruPosition c.lruKeys
        stats := { c.stats with hits := c.stats.hits + 1 } })

/-- The end of `put` for a new key: over capacity, the last key goes. -/
def evict (c : LruCache) : LruCache :=
  if c.entries.entries.length > c.capacity then
    match c.lruKeys.getLast? with
    | none => c
    | some oldest =>
      { c with
        entries := c.entries.erase oldest.key
        lruKeys := c.lruKeys.dropLast
        stats := { c.stats with evictions := c.stats.evictions + 1 } }
  else c

def put (now : Int) (key value : Bytes) (c : LruCache) : LruCache :=
  match c.entries.find key with
  | some entry =>
    { c with
      entries := c.entries.update key entry fun entry =>
        { entry with value := value, expiresAt := now + c.ttl }
      lruKeys := moveToFront entry.lruPosition c.lruKeys }
  | none =>
    evict { c with
      lruKeys := ⟨c.nextAddress, key⟩ :: c.lruKeys
      entries := c.entries.emplace key ⟨value, c.nextAddress, now + c.ttl⟩
      nextAddress := c.nextAddress + 1 }

variable {c : LruCache} {key value : Bytes} {entry : Entry} {now : Int}

theorem find_of_get {k : Bytes} (h : (c.get now key).2.entries.find k = some entry) :
    c.entries.find k = some entry := by
  unfold LruCache.get at h
  split at h
  · exact h
  · split at h
    · exact UnorderedMap.find_of_erase h
    · exact h

theorem find_of_get_value (h : (c.get now key).1 = some value) :
    ∃ entry, c.entries.find key = some entry ∧ entry.value = value ∧ now < entry.expiresAt := by
  unfold LruCache.get at h
  split at h
  · cases h
  · rename_i entry hfind
    split at h
    · cases h
    · rename_i hnow
      cases h
      exact ⟨entry, hfind, rfl, Int.not_le.mp hnow⟩

theorem find_of_evict {k : Bytes} (h : c.evict.entries.find k = some entry) :
    c.entries.find k = some entry := by
  unfold LruCache.evict at h
  split at h
  · split at h
    · exact h
    · exact UnorderedMap.find_of_erase h
  · exact h

theorem find_of_put {k : Bytes} (h : (c.put now key value).entries.find k = some entry) :
    (k = key ∧ entry.value = value ∧ entry.expiresAt = now + c.ttl) ∨
      c.entries.find k = some entry := by
  unfold LruCache.put at h
  split at h
  · rw [UnorderedMap.find_update] at h
    split at h
    · rename_i hkey
      cases h
      exact .inl ⟨hkey, rfl, rfl⟩
    · exact .inr h
  · rename_i hnone
    replace h := find_of_evict h
    rw [UnorderedMap.find_emplace, hnone] at h
    split at h
    · rename_i hkey
      cases h
      exact .inl ⟨hkey, rfl, rfl⟩
    · exact .inr h

theorem get_ttl (c : LruCache) (now : Int) (key : Bytes) : (c.get now key).2.ttl = c.ttl := by
  unfold LruCache.get
  split
  · rfl
  · split <;> rfl

theorem evict_ttl (c : LruCache) : c.evict.ttl = c.ttl := by
  unfold LruCache.evict
  split
  · split <;> rfl
  · rfl

theorem put_ttl (c : LruCache) (now : Int) (key value : Bytes) :
    (c.put now key value).ttl = c.ttl := by
  unfold LruCache.put
  split
  · rfl
  · exact evict_ttl _

theorem evict_capacity (c : LruCache) : c.evict.capacity = c.capacity := by
  unfold LruCache.evict
  split
  · split <;> rfl
  · rfl

theorem put_capacity (c : LruCache) (now : Int) (key value : Bytes) :
    (c.put now key value).capacity = c.capacity := by
  unfold LruCache.put
  split
  · rfl
  · exact evict_capacity _

theorem new_cases {capacity : Nat} {ttl : Int} (h : new capacity ttl = .ok c) :
    0 < capacity ∧ 0 < ttl ∧ c = ⟨capacity, ttl, [], .empty, ⟨0, 0, 0, 0⟩, 0⟩ := by
  unfold new at h
  split at h
  · cases h
  · split at h
    · cases h
    · cases h
      exact ⟨by omega, by omega, rfl⟩

theorem new_empty {capacity : Nat} {ttl : Int} (h : new capacity ttl = .ok c) :
    c.entries = .empty ∧ c.ttl = ttl := by
  obtain ⟨-, -, rfl⟩ := new_cases h
  exact ⟨rfl, rfl⟩

def Holds (P : Bytes → Bytes → Prop) (c : LruCache) : Prop :=
  ∀ key entry, c.entries.find key = some entry → P key entry.value

variable {P : Bytes → Bytes → Prop}

theorem holds_of_empty (h : c.entries = .empty) : c.Holds P := by
  intro key entry hfind
  rw [h] at hfind
  cases hfind

theorem Holds.get (h : c.Holds P) (now : Int) (key : Bytes) : (c.get now key).2.Holds P :=
  fun key' entry hfind => h key' entry (find_of_get hfind)

theorem Holds.get_value (h : c.Holds P) {now : Int} (hget : (c.get now key).1 = some value) :
    P key value := by
  obtain ⟨entry, hfind, rfl, -⟩ := find_of_get_value hget
  exact h key entry hfind

theorem Holds.put (h : c.Holds P) (hvalue : P key value) (now : Int) :
    (c.put now key value).Holds P := by
  intro key' entry hfind
  rcases find_of_put hfind with ⟨rfl, rfl, -⟩ | hfind
  · exact hvalue
  · exact h key' entry hfind

end LruCache

end CppSearchServer.Search
