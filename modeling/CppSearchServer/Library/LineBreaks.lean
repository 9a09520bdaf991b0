import CppSearchServer.Library.Words

/-! Two spellings of one text: the second has a further character in front of some of the
line breaks. Cutting characters off its ends that include both, and reading its words, go
alike on the two. -/

namespace CppSearchServer.Library

open Words

variable {α : Type*}

/-- The second text is the first with `pad` in front of some of the `sep`. -/
inductive PaddedBreaks (pad sep : α) : List α → List α → Prop where
  | nil : PaddedBreaks pad sep [] []
  | cons (c : α) {s t : List α} :
      PaddedBreaks pad sep s t → PaddedBreaks pad sep (c :: s) (c :: t)
  | padded {s t : List α} :
      PaddedBreaks pad sep s t → PaddedBreaks pad sep (sep :: s) (pad :: sep :: t)

namespace PaddedBreaks

variable {pad sep : α} {s t u v : List α}

theorem refl (s : List α) : PaddedBreaks pad sep s s := by
  induction s with
  | nil => exact .nil
  | cons c s ih => exact .cons c ih

theorem append (h : PaddedBreaks pad sep s t) (h' : PaddedBreaks pad sep u v) :
    PaddedBreaks pad sep (s ++ u) (t ++ v) := by
  induction h with
  | nil => exact h'
  | cons c _ ih => exact .cons c ih
  | padded _ ih => exact .padded ih

theorem split (h : PaddedBreaks pad sep (s ++ u) v) :
    ∃ t w, v = t ++ w ∧ PaddedBreaks pad sep s t ∧ PaddedBreaks pad sep u w := by
  induction s generalizing v with
  | nil => exact ⟨[], v, rfl, .nil, h⟩
  | cons c s ih =>
    cases h with
    | cons c h =>
      obtain ⟨t, w, rfl, hs, hu⟩ := ih h
      exact ⟨c :: t, w, rfl, .cons c hs, hu⟩
    | padded h =>
      obtain ⟨t, w, rfl, hs, hu⟩ := ih h
      exact ⟨pad :: sep :: t, w, rfl, .padded hs, hu⟩

theorem eq_nil_iff (h : PaddedBreaks pad sep s t) : s = [] ↔ t = [] := by
  cases h <;> simp

theorem isEmpty_eq (h : PaddedBreaks pad sep s t) : t.isEmpty = s.isEmpty := by
  cases h <;> rfl

theorem dropWhile {q : α → Bool} (hpad : q pad = true) (hsep : q sep = true)
    (h : PaddedBreaks pad sep s t) : PaddedBreaks pad sep (s.dropWhile q) (t.dropWhile q) := by
  induction h with
  | nil => exact .nil
  | @cons c s t h ih =>
    by_cases hc : q c = true
    · simpa [hc] using ih
    · simpa [hc] using PaddedBreaks.cons c h
  | padded _ ih => simpa [hpad, hsep] using ih

theorem rdropWhile {q : α → Bool} (hpad : q pad = true) (hsep : q sep = true)
    (h : PaddedBreaks pad sep s t) : PaddedBreaks pad sep (s.rdropWhile q) (t.rdropWhile q) := by
  induction s using List.reverseRecOn generalizing t with
  | nil => rw [h.eq_nil_iff.mp rfl]; exact .nil
  | append_singleton s c ih =>
    obtain ⟨t, w, rfl, hs, hc⟩ := h.split
    -- the last character is the same in both, with or without `pad` in front
    cases hc with
    | cons c hnil =>
      rw [hnil.eq_nil_iff.mp rfl] at *
      by_cases hq : q c = true
      · rw [List.rdropWhile_concat_pos _ _ _ hq, List.rdropWhile_concat_pos _ _ _ hq]
        exact ih hs
      · rw [List.rdropWhile_concat_neg _ _ _ hq, List.rdropWhile_concat_neg _ _ _ hq]
        exact hs.append (.refl [c])
    | padded hnil =>
      rw [hnil.eq_nil_iff.mp rfl, show t ++ [pad, sep] = (t ++ [pad]) ++ [sep] by simp,
        List.rdropWhile_concat_pos _ _ _ hsep, List.rdropWhile_concat_pos _ _ _ hsep,
        List.rdropWhile_concat_pos _ _ _ hpad]
      exact ih hs

theorem wordsFrom_eq {p : α → Bool} (hpad : p pad = false) (hsep : p sep = false)
    (h : PaddedBreaks pad sep s t) (word : List α) : wordsFrom p word s = wordsFrom p word t := by
  induction h generalizing word with
  | nil => rfl
  | cons c _ ih => simp only [wordsFrom, ih]
  | padded _ ih => simp [wordsFrom, hpad, hsep, ih, single]

end PaddedBreaks

end CppSearchServer.Library
