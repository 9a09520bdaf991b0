import CppSearchServer.Library.TransitionSystem
import CppSearchServer.Library.TtlList
import CppSearchServer.Search.LruCache
import Mathlib.Data.Int.Order.Basic
import Mathlib.Data.List.Forall2

/-! `search::LruCache` behaves as one list of entries. Every node of the list of keys
stands for the item at its place in that list; the map says where the node is and what
the item holds. -/

namespace CppSearchServer.Search

open Library

structure LruCache.Linked (c : LruCache) : Prop where
  keys_nodup : (c.lruKeys.map (·.key)).Nodup
  keys_iff : ∀ key, key ∈ c.lruKeys.map (·.key) ↔ (c.entries.find key).isSome
  position : ∀ key entry, c.entries.find key = some entry →
    ∃ node, c.lruKeys.filter (·.address = entry.lruPosition) = [node] ∧ node.key = key
  bounded : c.entries.entries.length ≤ c.capacity

namespace LruCache

abbrev Item := TtlList.Item Bytes Bytes Int

def Stands (entries : UnorderedMap Bytes Entry) (node : Node) (item : Item) : Prop :=
  node.key = item.key ∧
    entries.find node.key = some ⟨item.value, node.address, item.expiresAt⟩

structure Holding (lruKeys : List Node) (entries : UnorderedMap Bytes Entry)
    (items : List Item) : Prop where
  nodes : List.Forall₂ (Stands entries) lruKeys items
  total : ∀ key, (entries.find key).isSome → key ∈ lruKeys.map (·.key)
  addresses : (lruKeys.map (·.address)).Nodup

variable {lruKeys : List Node} {entries entries' : UnorderedMap Bytes Entry} {items : List Item}
  {key : Bytes} {entry : Entry}

theorem stands_without (h : List.Forall₂ (Stands entries) lruKeys items)
    (hother : ∀ k ≠ key, entries'.find k = entries.find k) :
    List.Forall₂ (Stands entries') (lruKeys.filter (·.key ≠ key))
      (TtlList.without key items) := by
  induction h with
  | nil => exact .nil
  | @cons node item lruKeys items hstands _ ih =>
    obtain ⟨hkey, hfind⟩ := hstands
    by_cases hne : node.key = key
    · rw [List.filter_cons_of_neg (by simpa using hne), TtlList.without,
        List.filter_cons_of_neg (by simpa [← hkey] using hne)]
      exact ih
    · rw [List.filter_cons_of_pos (by simpa using hne), TtlList.without,
        List.filter_cons_of_pos (by simpa [← hkey] using hne)]
      exact .cons ⟨hkey, (hother _ hne).trans hfind⟩ ih

theorem stands_keys (h : List.Forall₂ (Stands entries) lruKeys items) :
    lruKeys.map (·.key) = items.map (·.key) := by
  induction h with
  | nil => rfl
  | cons hstands _ ih => rw [List.map_cons, List.map_cons, ih, hstands.1]

theorem stands_of_mem (h : List.Forall₂ (Stands entries) lruKeys items) {node : Node}
    (hmem : node ∈ lruKeys) : ∃ item ∈ items, Stands entries node item := by
  induction h with
  | nil => cases hmem
  | cons hstands _ ih =>
    rcases List.mem_cons.mp hmem with rfl | hmem
    · exact ⟨_, by simp, hstands⟩
    · obtain ⟨item, hitem, hstands⟩ := ih hmem
      exact ⟨item, by simp [hitem], hstands⟩

theorem lookup_of_find (h : List.Forall₂ (Stands entries) lruKeys items)
    (hmem : key ∈ lruKeys.map (·.key)) (hfind : entries.find key = some entry) :
    TtlList.lookup key items = some ⟨key, entry.value, entry.expiresAt⟩ := by
  induction h with
  | nil => simp at hmem
  | @cons node item lruKeys items hstands _ ih =>
    obtain ⟨hkey, hnode⟩ := hstands
    rw [TtlList.lookup, List.find?_cons]
    by_cases hitem : item.key = key
    · rw [hkey, hitem, hfind, Option.some.injEq] at hnode
      subst hnode hitem
      rw [decide_eq_true rfl]
    · have hrest : key ∈ lruKeys.map (·.key) := by
        rw [List.map_cons, List.mem_cons] at hmem
        exact hmem.resolve_left fun heq => hitem (by rw [← hkey, heq])
      rw [decide_eq_false hitem]
      exact ih hrest

namespace Holding

variable (h : Holding lruKeys entries items)

include h

theorem mem_keys_iff (key : Bytes) :
    key ∈ lruKeys.map (·.key) ↔ (entries.find key).isSome := by
  refine ⟨fun hmem => ?_, h.total key⟩
  obtain ⟨node, hnode, rfl⟩ := List.mem_map.mp hmem
  obtain ⟨item, _, _, hfind⟩ := stands_of_mem h.nodes hnode
  rw [hfind]
  rfl

theorem lookup_of_some (hfind : entries.find key = some entry) :
    TtlList.lookup key items = some ⟨key, entry.value, entry.expiresAt⟩ :=
  lookup_of_find h.nodes (h.total key (by rw [hfind]; rfl)) hfind

theorem lookup_of_none (hfind : entries.find key = none) : TtlList.lookup key items = none := by
  rw [TtlList.lookup, List.find?_eq_none]
  intro item hitem hkey
  have hmem : key ∈ lruKeys.map (·.key) := by
    rw [stands_keys h.nodes]
    exact List.mem_map.mpr ⟨item, hitem, by simpa using hkey⟩
  have := (h.mem_keys_iff key).mp hmem
  rw [hfind] at this
  cases this

theorem address_iff (hfind : entries.find key = some entry) {node : Node} (hmem : node ∈ lruKeys) :
    node.address = entry.lruPosition ↔ node.key = key := by
  have hown : ∀ node ∈ lruKeys, node.key = key → node.address = entry.lruPosition := by
    rintro node hmem rfl
    obtain ⟨item, _, _, hnode⟩ := stands_of_mem h.nodes hmem
    rw [hfind, Option.some.injEq] at hnode
    rw [hnode]
  refine ⟨fun haddress => ?_, hown node hmem⟩
  obtain ⟨own, hown_mem, hkey⟩ := List.mem_map.mp (h.total key (by rw [hfind]; rfl))
  have hsame : node = own := List.inj_on_of_nodup_map h.addresses hmem hown_mem
    (haddress.trans (hown own hown_mem hkey).symm)
  rw [hsame, hkey]

theorem filter_address_ne (hfind : entries.find key = some entry) :
    lruKeys.filter (·.address ≠ entry.lruPosition) = lruKeys.filter (·.key ≠ key) :=
  List.filter_congr fun _ hmem => by simp [h.address_iff hfind hmem]

theorem nodup (hitems : (items.map (·.key)).Nodup) : (lruKeys.map (·.key)).Nodup :=
  stands_keys h.nodes ▸ hitems

theorem filter_address_eq (hfind : entries.find key = some entry) :
    lruKeys.filter (·.address = entry.lruPosition) = [⟨entry.lruPosition, key⟩] := by
  obtain ⟨own, hmem, hkey⟩ := List.mem_map.mp (h.total key (by rw [hfind]; rfl))
  have haddress := (h.address_iff hfind hmem).mpr hkey
  have hown : ∀ node ∈ lruKeys, node.address = entry.lruPosition ↔ node = own := fun node hnode =>
    ⟨fun heq => List.inj_on_of_nodup_map h.addresses hnode hmem (heq.trans haddress.symm),
      fun heq => heq ▸ haddress⟩
  rw [List.filter_congr fun node hnode => decide_eq_decide.mpr (hown node hnode), List.filter_eq,
    List.count_eq_one_of_mem h.addresses.of_map hmem, ← haddress, ← hkey]
  rfl

theorem filter_absent (hfind : entries.find key = none) :
    lruKeys.filter (·.key ≠ key) = lruKeys := by
  refine List.filter_eq_self.mpr fun node hnode => ?_
  have habsent : node.key ≠ key := by
    rintro rfl
    have hsome := (h.mem_keys_iff node.key).mp (List.mem_map_of_mem hnode)
    rw [hfind] at hsome
    cases hsome
  simpa using habsent

theorem length_entries (hitems : (items.map (·.key)).Nodup) :
    entries.entries.length = items.length := by
  have hperm : (entries.entries.map Prod.fst).Perm (items.map (·.key)) := by
    refine (List.perm_ext_iff_of_nodup entries.distinct hitems).mpr fun key => ?_
    rw [← stands_keys h.nodes, h.mem_keys_iff, Option.isSome_iff_exists]
    simp only [List.mem_map, ← entries.mem_entries_iff]
    constructor
    · rintro ⟨e, he, hkey⟩
      exact ⟨e.2, hkey ▸ he⟩
    · rintro ⟨v, he⟩
      exact ⟨_, he, rfl⟩
  simpa using hperm.length_eq

end Holding

theorem filter_ne_last {α : Type*} {f : α → Bytes} {xs : List α} {last : α}
    (h : ((xs ++ [last]).map f).Nodup) : (xs ++ [last]).filter (f · ≠ f last) = xs := by
  rw [List.map_append, List.nodup_append] at h
  have hkeep : ∀ x ∈ xs, f x ≠ f last := fun x hx =>
    h.2.2 _ (List.mem_map_of_mem hx) _ (by simp)
  rw [List.filter_append, List.filter_eq_self.mpr (by simpa using hkeep)]
  simp

/-- The cache holds what the list holds, in the same order, and has counted the same. -/
structure Refines {capacity : Nat} (c : LruCache) (l : TtlList Bytes Bytes Int capacity) :
    Prop where
  holding : Holding c.lruKeys c.entries l.items
  fresh : ∀ node ∈ c.lruKeys, node.address < c.nextAddress
  capacity_eq : c.capacity = capacity
  stats : c.stats = ⟨l.stats.hits, l.stats.misses, l.stats.expirations, l.stats.evictions⟩

variable {capacity : Nat} {c : LruCache} {l : TtlList Bytes Bytes Int capacity}

theorem Refines.length_entries (h : c.Refines l) :
    c.entries.entries.length = (c.lruKeys.map (·.key)).length := by
  rw [stands_keys h.holding.nodes, List.length_map]
  exact h.holding.length_entries l.distinct

theorem Refines.linked (h : c.Refines l) : c.Linked where
  keys_nodup := stands_keys h.holding.nodes ▸ l.distinct
  keys_iff := h.holding.mem_keys_iff
  position _ _ hfind := ⟨_, h.holding.filter_address_eq hfind, rfl⟩
  bounded := by
    rw [h.holding.length_entries l.distinct, h.capacity_eq]
    exact l.bounded

theorem Holding.erase (h : Holding lruKeys entries items) (key : Bytes) :
    Holding (lruKeys.filter (·.key ≠ key)) (entries.erase key) (TtlList.without key items) where
  nodes := stands_without h.nodes fun k hk => by rw [UnorderedMap.find_erase, if_neg hk]
  total k hk := by
    rw [UnorderedMap.find_erase] at hk
    split at hk
    · cases hk
    · rename_i hne
      obtain ⟨node, hnode, rfl⟩ := List.mem_map.mp (h.total k hk)
      exact List.mem_map_of_mem (List.mem_filter.mpr ⟨hnode, by simpa using hne⟩)
  addresses := h.addresses.sublist (List.filter_sublist.map _)

theorem Holding.front (h : Holding lruKeys entries items) {key : Bytes} {address : Nat}
    {value : Bytes} {expiresAt : Int} (hkey : entries'.find key = some ⟨value, address, expiresAt⟩)
    (hother : ∀ k ≠ key, entries'.find k = entries.find k)
    (haddress : ∀ node ∈ lruKeys, node.key ≠ key → node.address ≠ address) :
    Holding (⟨address, key⟩ :: lruKeys.filter (·.key ≠ key)) entries'
      (⟨key, value, expiresAt⟩ :: TtlList.without key items) where
  nodes := .cons ⟨rfl, hkey⟩ (stands_without h.nodes hother)
  total k hk := by
    rw [List.map_cons, List.mem_cons]
    by_cases hne : k = key
    · exact .inl hne
    · rw [hother k hne] at hk
      obtain ⟨node, hnode, rfl⟩ := List.mem_map.mp (h.total k hk)
      exact .inr (List.mem_map_of_mem (List.mem_filter.mpr ⟨hnode, by simpa using hne⟩))
  addresses := by
    rw [List.map_cons, List.nodup_cons]
    refine ⟨fun hmem => ?_, h.addresses.sublist (List.filter_sublist.map _)⟩
    obtain ⟨node, hnode, heq⟩ := List.mem_map.mp hmem
    obtain ⟨hnode, hne⟩ := List.mem_filter.mp hnode
    exact haddress node hnode (by simpa using hne) heq

theorem new_refines {ttl : Int} (h : new capacity ttl = .ok c) :
    c.Refines (TtlList.empty : TtlList Bytes Bytes Int capacity) ∧ c.ttl = ttl := by
  obtain ⟨-, -, rfl⟩ := new_cases h
  exact ⟨⟨⟨.nil, by simp, by simp⟩, by simp, rfl, rfl⟩, rfl⟩

theorem Refines.get (h : c.Refines l) (now : Int) (key : Bytes) :
    (c.get now key).1 = (l.get now key).1 ∧ (c.get now key).2.Refines (l.get now key).2 := by
  have hstats := h.stats
  unfold LruCache.get
  split
  · rename_i hfind
    rw [TtlList.get_absent (h.holding.lookup_of_none hfind)]
    exact ⟨rfl, h.holding, h.fresh, h.capacity_eq, by simp [hstats]⟩
  · rename_i entry hfind
    have hlookup := h.holding.lookup_of_some hfind
    split
    · rename_i hexpired
      obtain ⟨hvalue, hitems, hcount⟩ := TtlList.get_expired hlookup (not_lt.mpr hexpired)
      refine ⟨hvalue.symm, ?_, fun node hnode => h.fresh node (List.mem_of_mem_filter hnode),
        h.capacity_eq, by simp [hcount, hstats]⟩
      rw [hitems]
      dsimp only
      rw [h.holding.filter_address_ne hfind]
      exact h.holding.erase key
    · rename_i hnow
      obtain ⟨hvalue, hitems, hcount⟩ := TtlList.get_fresh hlookup (not_le.mp hnow)
      refine ⟨hvalue.symm, ?_, fun node hnode => ?_, h.capacity_eq, by simp [hcount, hstats]⟩
      · rw [hitems]
        dsimp only [moveToFront]
        rw [h.holding.filter_address_ne hfind, h.holding.filter_address_eq hfind]
        refine h.holding.front hfind (fun _ _ => rfl) fun node hnode hne => ?_
        exact fun heq => hne ((h.holding.address_iff hfind hnode).mp heq)
      · rcases List.mem_append.mp hnode with hnode | hnode
        all_goals exact h.fresh node (List.mem_of_mem_filter hnode)

theorem Holding.dropLast (h : Holding lruKeys entries items) (hitems : (items.map (·.key)).Nodup)
    {oldest : Node} (hlast : lruKeys.getLast? = some oldest) :
    Holding lruKeys.dropLast (entries.erase oldest.key) items.dropLast := by
  obtain ⟨first, rfl⟩ := List.getLast?_eq_some_iff.mp hlast
  have hkeys := stands_keys h.nodes
  have hnodup := hkeys ▸ hitems
  rcases List.eq_nil_or_concat' items with rfl | ⟨firstItems, last, rfl⟩
  · simp at hkeys
  · have hlastKey : oldest.key = last.key := by
      rw [List.map_append, List.map_append] at hkeys
      simpa using (List.append_inj' hkeys rfl).2
    have herase := h.erase oldest.key
    rw [filter_ne_last hnodup, hlastKey, TtlList.without, filter_ne_last hitems] at herase
    rw [List.dropLast_concat, List.dropLast_concat, hlastKey]
    exact herase

theorem evict_refines (hholding : Holding c.lruKeys c.entries items)
    (hitems : (items.map (·.key)).Nodup) (hcapacity : c.capacity = capacity) :
    Holding c.evict.lruKeys c.evict.entries (TtlList.dropOver capacity items) ∧
      c.evict.stats = (if items.length > capacity then
        { c.stats with evictions := c.stats.evictions + 1 } else c.stats) ∧
      (∀ node ∈ c.evict.lruKeys, node ∈ c.lruKeys) ∧ c.evict.capacity = c.capacity ∧
      c.evict.nextAddress = c.nextAddress := by
  have hlength := hholding.length_entries hitems
  unfold LruCache.evict TtlList.dropOver
  rw [hlength]
  subst hcapacity
  split
  · rename_i hover
    split
    · rename_i hnone
      have hkeys := stands_keys hholding.nodes
      rw [List.getLast?_eq_none_iff.mp hnone, List.map_nil, eq_comm, List.map_eq_nil_iff] at hkeys
      rw [hkeys] at hover
      exact absurd hover (Nat.not_lt_zero _)
    · rename_i oldest hlast
      exact ⟨hholding.dropLast hitems hlast, rfl, fun _ => List.mem_of_mem_dropLast, rfl, rfl⟩
  · exact ⟨hholding, rfl, fun _ hnode => hnode, rfl, rfl⟩

theorem Refines.put_present (h : c.Refines l) {entry : Entry}
    (hfind : c.entries.find key = some entry) (now : Int) (value : Bytes) :
    (c.put now key value).Refines (l.put (now + c.ttl) key value) := by
  have hstats := h.stats
  have hlookup := h.holding.lookup_of_some hfind
  obtain ⟨hitems, hcount⟩ := TtlList.put_present hlookup (now + c.ttl) value
  unfold LruCache.put
  rw [hfind]
  refine ⟨?_, fun node hnode => ?_, h.capacity_eq, by simp [hcount, hstats]⟩
  · rw [hitems]
    dsimp only [moveToFront]
    rw [h.holding.filter_address_ne hfind, h.holding.filter_address_eq hfind]
    refine h.holding.front ?_ (fun k hk => ?_) fun node hnode hne heq =>
      hne ((h.holding.address_iff hfind hnode).mp heq)
    · rw [UnorderedMap.find_update, if_pos rfl, hfind]
      rfl
    · rw [UnorderedMap.find_update, if_neg hk]
  · rcases List.mem_append.mp hnode with hnode | hnode
    all_goals exact h.fresh node (List.mem_of_mem_filter hnode)

theorem Refines.put_absent (h : c.Refines l) (hfind : c.entries.find key = none) (now : Int)
    (value : Bytes) : (c.put now key value).Refines (l.put (now + c.ttl) key value) := by
  have hstats := h.stats
  have hlookup := h.holding.lookup_of_none hfind
  obtain ⟨hitems, hcount⟩ := TtlList.put_absent hlookup (now + c.ttl) value
  have hfront : Holding (⟨c.nextAddress, key⟩ :: c.lruKeys.filter (·.key ≠ key))
      (c.entries.emplace key ⟨value, c.nextAddress, now + c.ttl⟩)
      (⟨key, value, now + c.ttl⟩ :: TtlList.without key l.items) :=
    h.holding.front (by rw [UnorderedMap.find_emplace, if_pos rfl, hfind]; rfl)
      (fun k hk => by rw [UnorderedMap.find_emplace, if_neg hk])
      fun node hnode _ => Nat.ne_of_lt (h.fresh node hnode)
  have hdistinct : ((⟨key, value, now + c.ttl⟩ :: TtlList.without key l.items : List Item).map
      (·.key)).Nodup := TtlList.cons_without_nodup l.distinct rfl
  rw [h.holding.filter_absent hfind, TtlList.without_of_absent hlookup] at hfront
  rw [TtlList.without_of_absent hlookup] at hdistinct
  unfold LruCache.put
  rw [hfind]
  obtain ⟨hholding, hevicted, hmem, hcapacity, hnext⟩ := evict_refines hfront hdistinct
    (c := { c with
      lruKeys := ⟨c.nextAddress, key⟩ :: c.lruKeys
      entries := c.entries.emplace key ⟨value, c.nextAddress, now + c.ttl⟩
      nextAddress := c.nextAddress + 1 }) h.capacity_eq
  refine ⟨hitems ▸ hholding, fun node hnode => ?_, hcapacity.trans h.capacity_eq, ?_⟩
  · rw [hnext]
    rcases List.mem_cons.mp (hmem node hnode) with rfl | hnode
    · exact Nat.lt_succ_self _
    · exact Nat.lt_succ_of_lt (h.fresh node hnode)
  · rw [hevicted, hcount, List.length_cons]
    split <;> simp [hstats]

theorem Refines.put (h : c.Refines l) (now : Int) (key value : Bytes) :
    (c.put now key value).Refines (l.put (now + c.ttl) key value) := by
  cases hfind : c.entries.find key with
  | some entry => exact h.put_present hfind now value
  | none => exact h.put_absent hfind now value

def call (c : LruCache) :
    TtlList.Call Bytes Bytes Int → TtlList.Answer Bytes × LruCache
  | .get now key =>
    let found := c.get now key
    (.got found.1, found.2)
  | .put now key value => (.done, c.put now key value)

theorem call_refines (ttl : Int) (c : LruCache) (l : TtlList Bytes Bytes Int capacity)
    (next : TtlList.Call Bytes Bytes Int) (h : c.Refines l ∧ c.ttl = ttl) :
    (c.call next).1 = (TtlList.call ttl l next).1 ∧
      (c.call next).2.Refines (TtlList.call ttl l next).2 ∧ (c.call next).2.ttl = ttl := by
  obtain ⟨hrefines, httl⟩ := h
  cases next with
  | get now key =>
    obtain ⟨hfound, hafter⟩ := hrefines.get now key
    exact ⟨congrArg TtlList.Answer.got hfound, hafter, (get_ttl c now key).trans httl⟩
  | put now key value =>
    exact ⟨rfl, httl ▸ hrefines.put now key value, (put_ttl c now key value).trans httl⟩

theorem calls_simulate {ttl : Int} (hnew : new capacity ttl = .ok c)
    (calls : List (TtlList.Call Bytes Bytes Int)) :
    let cache := TransitionSystem.answer call c calls
    let reference := TransitionSystem.answer (TtlList.call ttl)
      (TtlList.empty : TtlList Bytes Bytes Int capacity) calls
    cache.1 = reference.1 ∧ cache.2.Refines reference.2 ∧ cache.2.ttl = ttl :=
  TransitionSystem.answer_simulates
    (fun (c : LruCache) (l : TtlList Bytes Bytes Int capacity) => c.Refines l ∧ c.ttl = ttl)
    (call_refines ttl) (new_refines hnew) calls

/-- From its construction on, the cache answers and counts as the list does. -/
theorem calls_refine {ttl : Int} (hnew : new capacity ttl = .ok c)
    (calls : List (TtlList.Call Bytes Bytes Int)) :
    let cache := TransitionSystem.answer call c calls
    let reference := TransitionSystem.answer (TtlList.call ttl)
      (TtlList.empty : TtlList Bytes Bytes Int capacity) calls
    cache.1 = reference.1 ∧
      cache.2.stats = ⟨reference.2.stats.hits, reference.2.stats.misses,
        reference.2.stats.expirations, reference.2.stats.evictions⟩ ∧
      cache.2.Linked := by
  obtain ⟨hanswers, hrefines, -⟩ := calls_simulate hnew calls
  exact ⟨hanswers, hrefines.stats, hrefines.linked⟩

/-- An eviction, a hit and an expiry. -/
theorem sampleCalls_refine :
    let calls := [.put 0 [1] [2], .put 1 [3] [4], .get 2 [1], .get 3 [3], .get 11 [3]]
    let cache := TransitionSystem.answer call ⟨1, 10, [], .empty, ⟨0, 0, 0, 0⟩, 0⟩ calls
    cache.1 = [.done, .done, .got none, .got (some [4]), .got none] ∧
      cache.2.stats = ⟨1, 2, 1, 1⟩ ∧ cache.2.Linked := by
  have hrefine := @calls_refine 1 ⟨1, 10, [], .empty, ⟨0, 0, 0, 0⟩, 0⟩ 10 rfl
    [.put 0 [1] [2], .put 1 [3] [4], .get 2 [1], .get 3 [3], .get 11 [3]]
  exact ⟨hrefine.1.trans (by decide), hrefine.2.1.trans (by decide), hrefine.2.2⟩

end LruCache

end CppSearchServer.Search
