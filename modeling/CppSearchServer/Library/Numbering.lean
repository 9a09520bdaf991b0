import Mathlib.Data.List.Basic
import Mathlib.Data.List.Forall2
import Mathlib.Data.List.Range

/-! Lists built in blocks, whose elements are numbered through.
A loop that appends one block for each of its inputs keeps both properties, if each
block is numbered from the number of elements before it. -/

namespace CppSearchServer.Library

variable {α β : Type*}

def NumberedFrom (key : α → Nat) (first : Nat) (xs : List α) : Prop :=
  xs.map key = List.range' first xs.length

namespace NumberedFrom

variable {key : α → Nat} {first : Nat} {xs ys : List α}

theorem nil : NumberedFrom key first [] := rfl

theorem append (hx : NumberedFrom key first xs)
    (hy : NumberedFrom key (first + xs.length) ys) : NumberedFrom key first (xs ++ ys) := by
  rw [NumberedFrom, List.map_append, List.length_append, ← List.range'_append_1, hx, hy]

theorem concat (h : NumberedFrom key first xs) {x : α} (hx : key x = first + xs.length) :
    NumberedFrom key first (xs ++ [x]) :=
  h.append (congrArg (fun k => [k]) hx)

theorem key_getElem (h : NumberedFrom key first xs) {i : Nat} (hi : i < xs.length) :
    key xs[i] = first + i := by
  have hget : (xs.map key)[i]? = (List.range' first xs.length)[i]? := by rw [h]
  simpa [hi] using hget

theorem nodup (h : NumberedFrom key first xs) : (xs.map key).Nodup := by
  rw [h]
  exact List.nodup_range'

end NumberedFrom

def InBlocks (owns : β → List α → Prop) (xs : List β) (ys : List α) : Prop :=
  ∃ blocks : List (List α), ys = blocks.flatten ∧ List.Forall₂ owns xs blocks

namespace InBlocks

variable {owns : β → List α → Prop} {xs : List β} {ys : List α}

theorem nil : InBlocks owns [] [] := ⟨[], rfl, .nil⟩

theorem concat (h : InBlocks owns xs ys) {x : β} {block : List α} (hx : owns x block) :
    InBlocks owns (xs ++ [x]) (ys ++ block) := by
  obtain ⟨blocks, rfl, hblocks⟩ := h
  refine ⟨blocks ++ [block], by simp, ?_⟩
  exact List.rel_append hblocks (.cons hx .nil)

theorem exists_owner (h : InBlocks owns xs ys) {y : α} (hy : y ∈ ys) :
    ∃ x ∈ xs, ∃ block, owns x block ∧ y ∈ block := by
  obtain ⟨blocks, rfl, hblocks⟩ := h
  induction hblocks with
  | nil => cases hy
  | cons hx _ ih =>
    rcases List.mem_append.mp (List.flatten_cons ▸ hy) with hy | hy
    · exact ⟨_, List.mem_cons_self .., _, hx, hy⟩
    · obtain ⟨x, hmem, hrest⟩ := ih hy
      exact ⟨x, List.mem_cons_of_mem _ hmem, hrest⟩

theorem exists_block (h : InBlocks owns xs ys) {x : β} (hx : x ∈ xs) :
    ∃ block, owns x block ∧ block ⊆ ys := by
  obtain ⟨blocks, rfl, hblocks⟩ := h
  induction hblocks with
  | nil => cases hx
  | cons hfirst _ ih =>
    rcases List.mem_cons.mp hx with rfl | hx
    · exact ⟨_, hfirst, List.subset_append_left ..⟩
    · obtain ⟨block, hblock, hsubset⟩ := ih hx
      exact ⟨block, hblock, fun y hy => List.mem_append_right _ (hsubset hy)⟩

end InBlocks

end CppSearchServer.Library
