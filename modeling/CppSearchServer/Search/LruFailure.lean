import CppSearchServer.Search.LruRefinement
import Mathlib.Data.Fintype.EquivFin

/-! `search::LruCache::put` when memory runs out.
The node of the list is there before the entry of the map is made. If the entry cannot be
made, the node stays behind as an orphan: a key of the list that no entry belongs to. Once
the cache has been filled with other keys, the orphan is evicted in place of an entry. -/

namespace CppSearchServer.Search

open Library Library.TransitionSystem

/-- Which of the allocations that a `put` may need succeed. -/
structure LruCache.Allocation where
  node : Bool
  entry : Bool
deriving DecidableEq, Repr

namespace LruCache

def pushFront (key : Bytes) (c : LruCache) : LruCache :=
  { c with lruKeys := ⟨c.nextAddress, key⟩ :: c.lruKeys, nextAddress := c.nextAddress + 1 }

/-- `put`, and whether it returns. An operation on a container that throws has no effect. -/
def tryPut (allocation : Allocation) (now : Int) (key value : Bytes) (c : LruCache) :
    Bool × LruCache :=
  match c.entries.find key with
  | some _ => (true, c.put now key value)
  | none =>
    if !allocation.node then (false, c)
    else if !allocation.entry then (false, c.pushFront key)
    else (true, c.put now key value)

variable {c : LruCache} {key value : Bytes} {now : Int}

theorem tryPut_of_entry_fails (hnew : c.entries.find key = none) :
    c.tryPut ⟨true, false⟩ now key value = (false, c.pushFront key) := by
  rw [tryPut, hnew]
  rfl

theorem tryPut_returns (c : LruCache) (now : Int) (key value : Bytes) :
    c.tryPut ⟨true, true⟩ now key value = (true, c.put now key value) := by
  unfold tryPut
  cases c.entries.find key <;> rfl

/-! The containers after a failure. -/

/-- After a failure with `orphan`, the keys of `front` have been put, and `back` is left of
the keys from before. -/
structure Haunted (now : Int) (orphan : Bytes) (c : LruCache) (front back : List Bytes) :
    Prop where
  keys : c.lruKeys.map (·.key) = front ++ orphan :: back
  nodup : (front ++ orphan :: back).Nodup
  held : ∀ k, (c.entries.find k).isSome = true ↔ k ∈ front ++ back
  size : c.entries.entries.length = front.length + back.length
  bounded : front.length + back.length ≤ c.capacity
  fresh : ∀ k ∈ front, ∃ entry, c.entries.find k = some entry ∧ entry.value = [] ∧
    now < entry.expiresAt

theorem Refines.pushFront_haunted {capacity : Nat} {l : TtlList Bytes Bytes Int capacity}
    (h : c.Refines l) (hnew : c.entries.find key = none) :
    Haunted now key (c.pushFront key) [] (c.lruKeys.map (·.key)) where
  keys := rfl
  nodup := by
    have habsent : key ∉ c.lruKeys.map (·.key) := by
      rw [h.linked.keys_iff, hnew]
      simp
    exact List.nodup_cons.mpr ⟨habsent, h.linked.keys_nodup⟩
  held k := (h.linked.keys_iff k).symm
  size := by
    rw [List.length_nil, Nat.zero_add]
    exact h.length_entries
  bounded := by
    rw [List.length_nil, Nat.zero_add, ← h.length_entries]
    exact h.linked.bounded
  fresh := by simp

section Filling
variable {orphan x : Bytes} {front back : List Bytes}

def inserted (now : Int) (x value : Bytes) (c : LruCache) : LruCache :=
  { c with
    lruKeys := ⟨c.nextAddress, x⟩ :: c.lruKeys
    entries := c.entries.emplace x ⟨value, c.nextAddress, now + c.ttl⟩
    nextAddress := c.nextAddress + 1 }

theorem put_eq (hx : c.entries.find x = none) (value : Bytes) :
    c.put now x value = (c.inserted now x value).evict := by
  rw [LruCache.put, hx]
  rfl

theorem Haunted.find_none (h : Haunted now orphan c front back) (hx : x ∉ front ++ back) :
    c.entries.find x = none := by
  rw [← Option.not_isSome_iff_eq_none, h.held]
  exact hx

theorem evict_over {keys : List Bytes} {oldest : Bytes}
    (hkeys : c.lruKeys.map (·.key) = keys ++ [oldest])
    (hover : c.entries.entries.length > c.capacity) :
    c.evict.lruKeys.map (·.key) = keys ∧ c.evict.entries = c.entries.erase oldest ∧
      c.evict.capacity = c.capacity := by
  obtain ⟨first, last, hlru, hfirst, hlast⟩ := List.map_eq_append_iff.mp hkeys
  obtain ⟨node, rfl, hnode⟩ := List.map_eq_singleton_iff.mp hlast
  rw [evict, if_pos hover, hlru, List.getLast?_append]
  simp [hfirst, hnode]

theorem Haunted.inserted (h : Haunted now orphan c front back) (httl : 0 < c.ttl)
    (hx : x ∉ front ++ orphan :: back) :
    (c.inserted now x []).lruKeys.map (·.key) = (x :: front) ++ orphan :: back ∧
      ((x :: front) ++ orphan :: back).Nodup ∧
      (∀ k, ((c.inserted now x []).entries.find k).isSome = true ↔ k ∈ (x :: front) ++ back) ∧
      (c.inserted now x []).entries.entries.length = (x :: front).length + back.length ∧
      ∀ k ∈ x :: front, ∃ entry, (c.inserted now x []).entries.find k = some entry ∧
        entry.value = [] ∧ now < entry.expiresAt := by
  have hnone : c.entries.find x = none := h.find_none fun hmem => hx <| by
    rcases List.mem_append.mp hmem with hmem | hmem <;> simp [hmem]
  refine ⟨?_, List.nodup_cons.mpr ⟨hx, h.nodup⟩, fun k => ?_, ?_, fun k hk => ?_⟩
  · rw [LruCache.inserted, List.map_cons, h.keys]
    rfl
  · rw [LruCache.inserted, UnorderedMap.find_emplace]
    by_cases hk : k = x
    · simp [hk]
    · rw [if_neg hk, h.held]
      simp [hk]
  · rw [LruCache.inserted, UnorderedMap.length_emplace hnone, h.size, List.length_cons]
    omega
  · rw [LruCache.inserted]
    dsimp only
    rw [UnorderedMap.find_emplace]
    by_cases hkx : k = x
    · rw [if_pos hkx, hnone]
      exact ⟨_, rfl, rfl, Int.lt_add_of_pos_right now httl⟩
    · rw [if_neg hkx]
      exact h.fresh k ((List.mem_cons.mp hk).resolve_left hkx)

theorem Haunted.put (h : Haunted now orphan c front back) (httl : 0 < c.ttl)
    (hx : x ∉ front ++ orphan :: back) (hroom : front.length < c.capacity) :
    ∃ back', back' <+: back ∧ Haunted now orphan (c.put now x []) (x :: front) back' := by
  obtain ⟨hkeys, hnodup, hheld, hsize, hfresh⟩ := h.inserted httl hx
  have hnone : c.entries.find x = none := h.find_none fun hmem => hx <| by
    rcases List.mem_append.mp hmem with hmem | hmem <;> simp [hmem]
  rw [put_eq hnone]
  by_cases hover : (c.inserted now x []).entries.entries.length > (c.inserted now x []).capacity
  · have hcapacity : (c.inserted now x []).capacity = c.capacity := rfl
    rcases List.eq_nil_or_concat' back with rfl | ⟨back', oldest, rfl⟩
    · rw [hsize, hcapacity, List.length_cons, List.length_nil] at hover
      omega
    · have hsplit : (x :: front) ++ orphan :: (back' ++ [oldest]) =
          ((x :: front) ++ orphan :: back') ++ [oldest] := by simp
      rw [hsplit] at hkeys hnodup
      obtain ⟨hevicted, hentries, hcapacity'⟩ := evict_over hkeys hover
      have hnot : ∀ k ∈ (x :: front) ++ orphan :: back', k ≠ oldest := by
        intro k hk
        exact (List.nodup_append.mp hnodup).2.2 k hk oldest (by simp)
      have hold : ∃ entry, (c.inserted now x []).entries.find oldest = some entry :=
        Option.isSome_iff_exists.mp ((hheld oldest).mpr (by simp))
      obtain ⟨entry, hold⟩ := hold
      refine ⟨back', List.prefix_append _ _, hevicted, (List.nodup_append.mp hnodup).1, fun k => ?_,
        ?_, ?_, fun k hk => ?_⟩
      · rw [hentries, UnorderedMap.find_erase]
        by_cases hk : k = oldest
        · rw [if_pos hk]
          refine iff_of_false (by simp) fun hmem => hnot k ?_ hk
          rcases List.mem_append.mp hmem with hmem | hmem
          · exact List.mem_append_left _ hmem
          · exact List.mem_append_right _ (List.mem_cons_of_mem _ hmem)
        · rw [if_neg hk, hheld, ← List.append_assoc, List.mem_append, List.mem_singleton]
          exact or_iff_left hk
      · have herase := UnorderedMap.length_erase hold
        rw [hentries]
        simp only [List.length_append, List.length_cons, List.length_nil] at hsize ⊢
        omega
      · have hbounded := h.bounded
        rw [hcapacity', hcapacity]
        simp only [List.length_append, List.length_cons, List.length_nil] at hbounded ⊢
        omega
      · rw [hentries, UnorderedMap.find_erase, if_neg (hnot k (List.mem_append_left _ hk))]
        exact hfresh k hk
  · refine ⟨back, List.prefix_rfl, ?_⟩
    rw [evict, if_neg hover]
    refine ⟨hkeys, hnodup, hheld, hsize, ?_, hfresh⟩
    rw [hsize] at hover
    exact Nat.le_of_not_lt hover

/-- Once as many keys have been put as there is room for, the orphan is evicted in place of
one of them. -/
theorem Haunted.overflow (h : Haunted now orphan c front back) (httl : 0 < c.ttl)
    (hx : x ∉ front ++ orphan :: back) (hfull : front.length = c.capacity) :
    ∀ k ∈ front, ∃ entry, (c.put now x []).entries.find k = some entry ∧ entry.value = [] ∧
      now < entry.expiresAt := by
  obtain ⟨hkeys, hnodup, -, hsize, hfresh⟩ := h.inserted httl hx
  have hnil : back = [] := by
    have hbounded := h.bounded
    exact List.length_eq_zero_iff.mp (by omega)
  subst hnil
  have hnone : c.entries.find x = none := h.find_none fun hmem => hx (by simp_all)
  have hover : (c.inserted now x []).entries.entries.length > (c.inserted now x []).capacity := by
    have hcapacity : (c.inserted now x []).capacity = c.capacity := rfl
    rw [hsize, hcapacity, List.length_cons, List.length_nil]
    omega
  obtain ⟨-, hentries, -⟩ := evict_over hkeys hover
  intro k hk
  have hne : k ≠ orphan :=
    (List.nodup_append.mp h.nodup).2.2 k hk orphan (by simp)
  rw [put_eq hnone, hentries, UnorderedMap.find_erase, if_neg hne]
  exact hfresh k (List.mem_cons_of_mem _ hk)

end Filling

def fill (now : Int) (xs : List Bytes) : List (TtlList.Call Bytes Bytes Int) :=
  xs.map fun x => .put now x []

theorem answer_fill (now : Int) (xs : List Bytes) (c : LruCache) :
    (answer call c (fill now xs)).2 = xs.foldl (fun c x => c.put now x []) c := by
  induction xs generalizing c with
  | nil => rfl
  | cons x xs ih => exact ih (c.put now x [])

theorem Haunted.fill {orphan : Bytes} {front back xs : List Bytes}
    (h : Haunted now orphan c front back) (httl : 0 < c.ttl) (hnodup : xs.Nodup)
    (hxs : ∀ x ∈ xs, x ∉ front ++ orphan :: back) (hroom : front.length + xs.length ≤ c.capacity) :
    ∃ back', back' <+: back ∧
      Haunted now orphan (xs.foldl (fun c x => c.put now x []) c) (xs.reverse ++ front) back' ∧
      (xs.foldl (fun c x => c.put now x []) c).capacity = c.capacity ∧
      (xs.foldl (fun c x => c.put now x []) c).ttl = c.ttl := by
  induction xs generalizing c front back with
  | nil => exact ⟨back, List.prefix_rfl, h, rfl, rfl⟩
  | cons x xs ih =>
    obtain ⟨hx, hnodup⟩ := List.nodup_cons.mp hnodup
    rw [List.length_cons] at hroom
    obtain ⟨between, hbetween, hput⟩ := h.put httl (hxs x (by simp)) (by omega)
    have hxs' : ∀ y ∈ xs, y ∉ (x :: front) ++ orphan :: between := by
      intro y hy hmem
      have hne : y ≠ x := fun heq => hx (heq ▸ hy)
      have hold := hxs y (by simp [hy])
      simp only [List.cons_append, List.mem_cons, List.mem_append, hne, false_or] at hmem hold
      rcases hmem with hmem | rfl | hmem
      · exact hold (.inl hmem)
      · exact hold (.inr (.inl rfl))
      · exact hold (.inr (.inr (hbetween.subset hmem)))
    have hroom' : (x :: front).length + xs.length ≤ (c.put now x []).capacity := by
      rw [put_capacity, List.length_cons]
      omega
    obtain ⟨back', hback, hfill, hcapacity, httl'⟩ :=
      ih hput (by rw [put_ttl]; exact httl) hnodup hxs' hroom'
    refine ⟨back', hback.trans hbetween, ?_, hcapacity.trans (put_capacity c now x []),
      httl'.trans (put_ttl c now x [])⟩
    rw [List.reverse_cons, List.append_assoc]
    exact hfill

theorem exists_fresh (used : Finset Bytes) (n : Nat) :
    ∃ xs : List Bytes, xs.length = n ∧ xs.Nodup ∧ ∀ x ∈ xs, x ∉ used := by
  induction n with
  | zero => exact ⟨[], rfl, List.nodup_nil, by simp⟩
  | succ n ih =>
    obtain ⟨xs, hlength, hnodup, hxs⟩ := ih
    obtain ⟨x, hx⟩ := Infinite.exists_notMem_finset (used ∪ xs.toFinset)
    rw [Finset.mem_union, List.mem_toFinset, not_or] at hx
    refine ⟨x :: xs, by rw [List.length_cons, hlength], List.nodup_cons.mpr ⟨hx.2, hnodup⟩, ?_⟩
    exact List.forall_mem_cons.mpr ⟨hx.1, hxs⟩

theorem reference_fill {capacity : Nat} (ttl now : Int) (xs : List Bytes)
    (l : TtlList Bytes Bytes Int capacity) :
    (answer (TtlList.call ttl) l (fill now xs)).2 =
      xs.foldl (fun l x => l.put (now + ttl) x []) l := by
  induction xs generalizing l with
  | nil => rfl
  | cons x xs ih => exact ih (l.put (now + ttl) x [])

theorem get_of_find {entry : Entry} (hfind : c.entries.find key = some entry)
    (hnow : now < entry.expiresAt) : (c.get now key).1 = some entry.value := by
  rw [LruCache.get, hfind]
  exact congrArg Prod.fst (if_neg (Int.not_le.mpr hnow))

theorem Refines.get_after_overflow {capacity : Nat} {l : TtlList Bytes Bytes Int capacity}
    (h : c.Refines l) (now : Int) (httl : 0 < c.ttl) (hnew : c.entries.find key = none)
    {first last : Bytes}
    {between : List Bytes} (hlength : (first :: between).length = capacity)
    (hnodup : (first :: (between ++ [last])).Nodup)
    (hfresh : ∀ x ∈ first :: (between ++ [last]), x ∉ key :: c.lruKeys.map (·.key)) :
    (((first :: (between ++ [last])).foldl (fun c x => c.put now x [])
      (c.pushFront key)).get now first).1 = some [] := by
  rw [← List.cons_append] at hnodup hfresh ⊢
  obtain ⟨hfront, -, hdisjoint⟩ := List.nodup_append.mp hnodup
  have hstart : Haunted now key (c.pushFront key) [] (c.lruKeys.map (·.key)) :=
    h.pushFront_haunted hnew
  have hroom : ([] : List Bytes).length + (first :: between).length ≤
      (c.pushFront key).capacity := by
    rw [hlength, List.length_nil, Nat.zero_add]
    exact h.capacity_eq.ge
  obtain ⟨back, hback, hfill, hcapacity, httl'⟩ :=
    hstart.fill httl hfront (fun x hx => hfresh x (List.mem_append_left _ hx)) hroom
  rw [List.append_nil] at hfill
  have hlast : last ∉ (first :: between).reverse ++ key :: back := by
    intro hmem
    have hold := hfresh last (by simp)
    rcases List.mem_append.mp hmem with hmem | hmem
    · exact hdisjoint last (List.mem_reverse.mp hmem) last (by simp) rfl
    · rcases List.mem_cons.mp hmem with rfl | hmem
      · exact hold (by simp)
      · exact hold (List.mem_cons_of_mem _ (hback.subset hmem))
  have hfull : (first :: between).reverse.length =
      ((first :: between).foldl (fun c x => c.put now x []) (c.pushFront key)).capacity := by
    rw [hcapacity, List.length_reverse, hlength]
    exact h.capacity_eq.symm
  obtain ⟨entry, hfind, hvalue, hnow⟩ :=
    hfill.overflow (by rw [httl']; exact httl) hlast hfull first (by simp)
  rw [List.foldl_append, List.foldl_cons, List.foldl_nil, get_of_find hfind hnow, hvalue]

theorem reference_after_overflow {capacity : Nat} {l : TtlList Bytes Bytes Int capacity}
    {first : Bytes} {rest : List Bytes} (hlength : rest.length = capacity)
    (hnodup : (first :: rest).Nodup) (hfresh : ∀ x ∈ first :: rest, x ∉ l.items.map (·.key))
    (now expiresAt : Int) :
    (((first :: rest).foldl (fun l x => l.put expiresAt x []) l).get now first).1 = none := by
  have hkeys := TtlList.keys_foldl_put hnodup hfresh expiresAt ([] : Bytes)
  have htake : ((first :: rest).reverse ++ l.items.map (·.key)).take capacity = rest.reverse := by
    rw [List.reverse_cons, List.append_assoc]
    exact List.take_left' (by rw [List.length_reverse, hlength])
  have habsent : TtlList.lookup first
      ((first :: rest).foldl (fun l x => l.put expiresAt x []) l).items = none := by
    rw [TtlList.lookup_eq_none_iff, hkeys, htake, List.mem_reverse]
    exact (List.nodup_cons.mp hnodup).1
  rw [TtlList.get_absent habsent]

theorem Refines.pushFront_diverges {capacity : Nat} {l : TtlList Bytes Bytes Int capacity}
    (h : c.Refines l) (httl : 0 < c.ttl) (hpos : 0 < capacity) (hnew : c.entries.find key = none) :
    ∃ later, (answer call (c.pushFront key) later).1 ≠ (answer (TtlList.call c.ttl) l later).1 := by
  obtain ⟨xs, hlength, hnodup, hfresh⟩ :=
    exists_fresh (key :: c.lruKeys.map (·.key)).toFinset (capacity + 1)
  simp only [List.mem_toFinset] at hfresh
  obtain ⟨first, rest, rfl⟩ := List.exists_cons_of_length_eq_add_one hlength
  rw [List.length_cons, Nat.add_right_cancel_iff] at hlength
  have hne : rest ≠ [] := by
    rintro rfl
    exact absurd hlength (Nat.ne_of_lt hpos)
  obtain ⟨between, last, rfl⟩ := (List.eq_nil_or_concat' rest).resolve_left hne
  refine ⟨fill 0 (first :: (between ++ [last])) ++ [.get 0 first], fun heq => ?_⟩
  have hcache := h.get_after_overflow 0 httl hnew (by simpa using hlength) hnodup hfresh
  have hitems : ∀ x ∈ first :: (between ++ [last]), x ∉ l.items.map (·.key) := by
    intro x hx hmem
    rw [← stands_keys h.holding.nodes] at hmem
    exact hfresh x hx (List.mem_cons_of_mem _ hmem)
  have hreference := reference_after_overflow hlength hnodup hitems 0 (0 + c.ttl)
  rw [answer_append, answer_append, answer_fill, reference_fill] at heq
  have hlast := (List.append_inj' heq rfl).2
  simp only [answer, call, TtlList.call, hcache, hreference] at hlast
  cases hlast

/-- A `put` of a new key whose entry cannot be made changes the list and leaves a key without
an entry in it; and if the cache was as its calls should have left it, some later call
answers otherwise than the reference. -/
theorem failedPut_corrupts (c : LruCache) (now : Int) {key : Bytes} (value : Bytes)
    (hkey : c.entries.find key = none) :
    let failed := c.tryPut ⟨true, false⟩ now key value
    failed.1 = false ∧ failed.2.lruKeys ≠ c.lruKeys ∧
      (key ∈ failed.2.lruKeys.map (·.key) ∧ failed.2.entries.find key = none) ∧
      ∀ capacity ttl start calls, new capacity ttl = .ok start →
        c = (answer call start calls).2 →
        ∃ later, (answer call failed.2 later).1 ≠
          (answer (TtlList.call ttl) (answer (TtlList.call ttl)
            (TtlList.empty : TtlList Bytes Bytes Int capacity) calls).2 later).1 := by
  dsimp only
  rw [tryPut_of_entry_fails hkey]
  refine ⟨rfl, List.cons_ne_self _ _, ⟨by simp [pushFront], hkey⟩, ?_⟩
  rintro capacity ttl start calls hnew rfl
  obtain ⟨-, hrefines, httl⟩ := calls_simulate hnew calls
  obtain ⟨hcapacity, hpos, -⟩ := new_cases hnew
  have hdiverges := hrefines.pushFront_diverges (httl ▸ hpos) hcapacity hkey
  rwa [httl] at hdiverges

def emptyCache : LruCache := ⟨1, 10, [], .empty, ⟨0, 0, 0, 0⟩, 0⟩

theorem emptyCache_corrupted :
    let failed := emptyCache.tryPut ⟨true, false⟩ 0 [1] [2]
    failed.1 = false ∧ failed.2.lruKeys ≠ emptyCache.lruKeys ∧
      ([1] ∈ failed.2.lruKeys.map (·.key) ∧ failed.2.entries.find [1] = none) ∧
      ∀ capacity ttl start calls, new capacity ttl = .ok start →
        emptyCache = (answer call start calls).2 →
        ∃ later, (answer call failed.2 later).1 ≠
          (answer (TtlList.call ttl) (answer (TtlList.call ttl)
            (TtlList.empty : TtlList Bytes Bytes Int capacity) calls).2 later).1 :=
  failedPut_corrupts emptyCache 0 [2] rfl

/-- Two further keys, and a cache for one entry holds both. -/
theorem emptyCache_overfull :
    ¬∀ capacity ttl start calls, new capacity ttl = .ok start → ∀ now key value,
      (answer call start calls).2.entries.find key = none →
      let cache := (answer call start calls).2
      let failed := (cache.tryPut ⟨true, false⟩ now key value).2
      failed.lruKeys = cache.lruKeys ∧ failed.entries = cache.entries ∧
        ∀ later, (answer call failed later).1 = (answer call cache later).1 := by
  intro hall
  have hlater := (hall 1 10 emptyCache [] rfl 0 [1] [2] rfl).2.2
    [.put 0 [3] [4], .put 0 [5] [6], .get 0 [3]]
  exact absurd hlater (by decide +kernel)

end LruCache

end CppSearchServer.Search
