import Mathlib.Data.List.Sort
import Mathlib.Order.Defs.Unbundled

/-! Sorting by a strict weak order, by contract. `std::sort` and `std::partial_sort`
are any functions with the results the standard promises; where only equal elements
are equivalent, both agree with insertion sort. -/

namespace CppSearchServer.Library.Sorting

variable {α : Type*} (lt : α → α → Prop)

def Sorted (l : List α) : Prop := l.Pairwise fun a b => ¬lt b a

structure SortAlgorithm [IsStrictWeakOrder α lt] where
  sort : List α → List α
  perm : ∀ l, (sort l).Perm l
  sorted : ∀ l, Sorted lt (sort l)

/-- The first `middle` elements are sorted, and none of the others precedes them. -/
structure PartialSortAlgorithm [IsStrictWeakOrder α lt] where
  partialSort : List α → Nat → List α
  perm : ∀ l middle, middle ≤ l.length → (partialSort l middle).Perm l
  sorted : ∀ l middle, middle ≤ l.length → Sorted lt ((partialSort l middle).take middle)
  smallest : ∀ l middle, middle ≤ l.length →
    ∀ a ∈ (partialSort l middle).take middle, ∀ b ∈ (partialSort l middle).drop middle, ¬lt b a

def TieFree (l : List α) : Prop := ∀ a ∈ l, ∀ b ∈ l, ¬lt a b → ¬lt b a → a = b

variable {lt}

theorem sorted_unique {l l₁ l₂ : List α} (htie : TieFree lt l) (hp₁ : l₁.Perm l)
    (hp₂ : l₂.Perm l) (hs₁ : Sorted lt l₁) (hs₂ : Sorted lt l₂) : l₁ = l₂ := by
  refine List.Perm.eq_of_pairwise ?_ hs₁ hs₂ (hp₁.trans hp₂.symm)
  intro a b ha hb hab hba
  exact htie a (hp₁.mem_iff.mp ha) b (hp₂.mem_iff.mp hb) hba hab

theorem not_lt_trans [IsStrictWeakOrder α lt] {a b c : α} (hab : ¬lt b a) (hbc : ¬lt c b) :
    ¬lt c a := by
  intro hca
  have hcb : ¬lt b c := fun h => hab (IsTrans.trans _ _ _ h hca)
  have hba : ¬lt a b := fun h => hbc (IsTrans.trans _ _ _ hca h)
  exact (IsStrictWeakOrder.incomp_trans a b c ⟨hba, hab⟩ ⟨hcb, hbc⟩).2 hca

instance isTrans_not_lt [IsStrictWeakOrder α lt] : IsTrans α fun a b => ¬lt b a :=
  ⟨fun _ _ _ hab hbc => not_lt_trans hab hbc⟩

instance total_not_lt [IsStrictWeakOrder α lt] : Std.Total fun a b => ¬lt b a := by
  refine ⟨fun a b => ?_⟩
  by_cases h : lt b a
  · exact .inr fun h' => irrefl a (IsTrans.trans _ _ _ h' h)
  · exact .inl h

variable (lt) in
def rank [DecidableRel lt] (l : List α) : List α := l.insertionSort fun a b => ¬lt b a

theorem rank_perm [DecidableRel lt] (l : List α) : (rank lt l).Perm l :=
  List.perm_insertionSort _ l

theorem rank_sorted [IsStrictWeakOrder α lt] [DecidableRel lt] (l : List α) :
    Sorted lt (rank lt l) :=
  List.pairwise_insertionSort _ l

theorem TieFree.of_perm {l l' : List α} (htie : TieFree lt l) (hperm : l'.Perm l) :
    TieFree lt l' :=
  fun a ha b hb => htie a (hperm.mem_iff.mp ha) b (hperm.mem_iff.mp hb)

theorem rank_congr [IsStrictWeakOrder α lt] [DecidableRel lt] {l l' : List α}
    (htie : TieFree lt l) (hperm : l'.Perm l) : rank lt l' = rank lt l :=
  sorted_unique htie ((rank_perm l').trans hperm) (rank_perm l) (rank_sorted l') (rank_sorted l)

theorem SortAlgorithm.sort_eq [IsStrictWeakOrder α lt] [DecidableRel lt]
    (s : SortAlgorithm lt) {l : List α} (htie : TieFree lt l) : s.sort l = rank lt l :=
  sorted_unique htie (s.perm l) (rank_perm l) (s.sorted l) (rank_sorted l)

/-- Sorting what `partial_sort` leaves behind sorts the whole list. -/
theorem PartialSortAlgorithm.take_eq [IsStrictWeakOrder α lt] [DecidableRel lt]
    (s : PartialSortAlgorithm lt) {l : List α} {middle : Nat} (hle : middle ≤ l.length)
    (htie : TieFree lt l) : (s.partialSort l middle).take middle = (rank lt l).take middle := by
  have hperm := s.perm l middle hle
  have hsmallest := s.smallest l middle hle
  have hsorted := s.sorted l middle hle
  have hlength : ((s.partialSort l middle).take middle).length = middle := by
    rw [List.length_take, hperm.length_eq]
    omega
  have hsplit := List.take_append_drop middle (s.partialSort l middle)
  generalize (s.partialSort l middle).take middle = top at *
  generalize (s.partialSort l middle).drop middle = others at *
  have hwhole : (top ++ rank lt others).Perm l :=
    ((rank_perm others).append_left top).trans (hsplit ▸ hperm)
  have hwholeSorted : Sorted lt (top ++ rank lt others) :=
    List.pairwise_append.mpr ⟨hsorted, rank_sorted others,
      fun a ha b hb => hsmallest a ha b ((rank_perm others).mem_iff.mp hb)⟩
  rw [← sorted_unique htie hwhole (rank_perm l) hwholeSorted (rank_sorted l),
    List.take_left' hlength]

/-- `top` are the first `k` elements of `l`, in order, and all of them where there are not
so many; `rest` are the others. -/
structure TopOf (lt : α → α → Prop) (k : Nat) (l top rest : List α) : Prop where
  perm : (top ++ rest).Perm l
  sorted : Sorted lt top
  smallest : ∀ a ∈ top, ∀ b ∈ rest, ¬lt b a
  length : top.length = min k l.length

variable {k : Nat} {l top rest : List α}

theorem TopOf.subset (h : TopOf lt k l top rest) : top ⊆ l :=
  fun _ ha => h.perm.subset (List.mem_append_left _ ha)

theorem TopOf.of_perm (h : TopOf lt k l top rest) {l' : List α} (hperm : l.Perm l') :
    TopOf lt k l' top rest :=
  ⟨h.perm.trans hperm, h.sorted, h.smallest, by rw [h.length, hperm.length_eq]⟩

theorem TopOf.all (h : TopOf lt k l top rest) (hlt : top.length < k) : top.Perm l := by
  have hrest : rest = [] := by
    have hlength := h.perm.length_eq
    have := h.length
    rw [List.length_append] at hlength
    exact List.length_eq_zero_iff.mp (by omega)
  simpa [hrest] using h.perm

/-- What is left out makes room for `k` elements that it does not precede. -/
theorem TopOf.covers (h : TopOf lt k l top rest) {a : α} (ha : a ∈ l) :
    a ∈ top ∨ top.length = k ∧ ∀ b ∈ top, ¬lt a b := by
  refine (List.mem_append.mp (h.perm.mem_iff.mpr ha)).imp_right fun hrest => ⟨?_, ?_⟩
  · have hlength := h.perm.length_eq
    rw [List.length_append] at hlength
    have hpos := List.length_pos_of_mem hrest
    have := h.length
    omega
  · exact fun b hb => h.smallest b hb a hrest

theorem Sorted.sublist_of_lt [IsStrictWeakOrder α lt] {l : List α} (h : Sorted lt l) {a b : α}
    (ha : a ∈ l) (hb : b ∈ l) (hlt : lt a b) : [a, b].Sublist l := by
  induction l with
  | nil => cases ha
  | cons c l ih =>
    obtain ⟨hhead, htail⟩ := List.pairwise_cons.mp h
    rcases List.mem_cons.mp hb with rfl | hlater
    · rcases List.mem_cons.mp ha with rfl | hmem
      · exact absurd hlt (irrefl a)
      · exact absurd hlt (hhead a hmem)
    · rcases List.mem_cons.mp ha with rfl | hmem
      · exact List.cons_sublist_cons.mpr (List.singleton_sublist.mpr hlater)
      · exact (ih htail hmem hlater).cons c

theorem TopOf.before [IsStrictWeakOrder α lt] (h : TopOf lt k l top rest) {a b : α} (ha : a ∈ l)
    (hb : b ∈ top) (hlt : lt a b) : [a, b].Sublist top := by
  refine h.sorted.sublist_of_lt ?_ hb hlt
  refine (List.mem_append.mp (h.perm.mem_iff.mpr ha)).resolve_right fun hrest => ?_
  exact h.smallest b hb a hrest hlt

theorem SortAlgorithm.topOf [IsStrictWeakOrder α lt] (s : SortAlgorithm lt)
    (hk : l.length ≤ k) : TopOf lt k l (s.sort l) [] :=
  ⟨by rw [List.append_nil]; exact s.perm l, s.sorted l, nofun, by
    rw [(s.perm l).length_eq, Nat.min_eq_right hk]⟩

theorem PartialSortAlgorithm.topOf [IsStrictWeakOrder α lt] (s : PartialSortAlgorithm lt)
    (hk : k ≤ l.length) :
    TopOf lt k l ((s.partialSort l k).take k) ((s.partialSort l k).drop k) :=
  ⟨by rw [List.take_append_drop]; exact s.perm l k hk, s.sorted l k hk, s.smallest l k hk, by
    rw [List.length_take, (s.perm l k hk).length_eq]⟩

theorem sorted_map_eq {κ : Type*} [LinearOrder κ] {key : α → κ}
    (hkey : ∀ a b, ¬lt b a → key a ≤ key b) {l l' : List α} (hs : Sorted lt l)
    (hs' : Sorted lt l') (hperm : (l.map key).Perm (l'.map key)) : l.map key = l'.map key := by
  have hsorted : ∀ {l : List α}, Sorted lt l → (l.map key).Pairwise (· ≤ ·) := fun hs =>
    List.pairwise_map.mpr (List.Pairwise.imp (fun h => hkey _ _ h) hs)
  exact hperm.eq_of_pairwise (fun _ _ _ _ => le_antisymm) (hsorted hs) (hsorted hs')

theorem TopOf.whole [IsStrictWeakOrder α lt] [DecidableRel lt] (h : TopOf lt k l top rest) :
    (top ++ rank lt rest).Perm l ∧ Sorted lt (top ++ rank lt rest) :=
  ⟨((rank_perm _).append_left _).trans h.perm, List.pairwise_append.mpr ⟨h.sorted,
    rank_sorted _, fun a ha b hb => h.smallest a ha b ((rank_perm _).mem_iff.mp hb)⟩⟩

theorem TopOf.unique [IsStrictWeakOrder α lt] [DecidableRel lt] (htie : TieFree lt l)
    (h : TopOf lt k l top rest) {top' rest' : List α} (h' : TopOf lt k l top' rest') :
    top = top' := by
  obtain ⟨hp, hs⟩ := h.whole
  obtain ⟨hp', hs'⟩ := h'.whole
  exact (List.append_inj (sorted_unique htie hp hp' hs hs') (h.length.trans h'.length.symm)).1

theorem TopOf.map_eq [IsStrictWeakOrder α lt] [DecidableRel lt] {κ : Type*} [LinearOrder κ]
    {key : α → κ} (hkey : ∀ a b, ¬lt b a → key a ≤ key b) (h : TopOf lt k l top rest)
    {l' top' rest' : List α} (h' : TopOf lt k l' top' rest')
    (hperm : (l.map key).Perm (l'.map key)) : top.map key = top'.map key := by
  obtain ⟨hp, hs⟩ := h.whole
  obtain ⟨hp', hs'⟩ := h'.whole
  have heq := sorted_map_eq hkey hs hs' ((hp.map key).trans (hperm.trans (hp'.map key).symm))
  have hlength : (top.map key).length = (top'.map key).length := by
    rw [List.length_map, List.length_map, h.length, h'.length]
    simpa using congrArg (min k) hperm.length_eq
  rw [List.map_append, List.map_append] at heq
  exact (List.append_inj heq hlength).1

def insertionSort [IsStrictWeakOrder α lt] [DecidableRel lt] : SortAlgorithm lt :=
  ⟨rank lt, rank_perm, rank_sorted⟩

def insertionPartialSort [IsStrictWeakOrder α lt] [DecidableRel lt] : PartialSortAlgorithm lt where
  partialSort l _ := rank lt l
  perm l _ _ := rank_perm l
  sorted l _ _ := (rank_sorted l).sublist (List.take_sublist _ _)
  smallest l middle _ a ha b hb := by
    have hsorted : Sorted lt (rank lt l) := rank_sorted l
    rw [← List.take_append_drop middle (rank lt l)] at hsorted
    exact (List.pairwise_append.mp hsorted).2.2 a ha b hb

end CppSearchServer.Library.Sorting
