import Mathlib.Algebra.Ring.Nat
import Mathlib.Data.List.Basic
import Mathlib.Data.List.Infix

/-! Searching a list for a delimiter and cutting it into frames or pieces.
`find` is the position of the first occurrence, `frames` cuts after it again and
again, and `split` takes the delimiters out. Frames are stable when more elements
arrive behind what was seen. -/

namespace CppSearchServer.Library.Framing

variable {α : Type*} [DecidableEq α]

def find (needle : List α) : List α → Option Nat
  | [] => if needle = [] then some 0 else none
  | a :: s => if needle <+: a :: s then some 0 else (find needle s).map (· + 1)

theorem find_some_iff (needle s : List α) (p : Nat) :
    find needle s = some p ↔
      p ≤ s.length ∧ needle <+: s.drop p ∧ ∀ q < p, ¬ needle <+: s.drop q := by
  induction s generalizing p with
  | nil =>
    by_cases h : needle = []
    · simp [find, h, eq_comm]
      rintro rfl
      simp
    · simp [find, h]
  | cons a s ih =>
    by_cases h : needle <+: a :: s
    · simp only [find, h, if_true, Option.some.injEq]
      constructor
      · rintro rfl
        simpa using h
      · rintro ⟨-, -, first⟩
        rcases Nat.eq_zero_or_pos p with rfl | hp
        · rfl
        · exact absurd (by simpa using h) (first 0 hp)
    · cases p with
      | zero => simp [find, h]
      | succ p =>
        simp only [find, h, if_false, Option.map_eq_some_iff, Nat.add_right_cancel_iff,
          exists_eq_right, ih, List.length_cons, List.drop_succ_cons, Nat.add_le_add_iff_right]
        refine and_congr_right fun _ => and_congr_right fun _ => ?_
        constructor
        · rintro first (_ | q) hq
          · simpa using h
          · simpa using first q (by omega)
        · intro first q hq
          simpa using first (q + 1) (by omega)

theorem find_bound {needle s : List α} {p : Nat} (h : find needle s = some p) :
    p + needle.length ≤ s.length := by
  obtain ⟨hp, match_, -⟩ := (find_some_iff needle s p).mp h
  have := match_.length_le
  rw [List.length_drop] at this
  omega

theorem find_append {needle s : List α} {p : Nat} (t : List α)
    (h : find needle s = some p) : find needle (s ++ t) = some p := by
  have bound := find_bound h
  obtain ⟨hp, match_, first⟩ := (find_some_iff needle s p).mp h
  refine (find_some_iff needle (s ++ t) p).mpr ⟨by simp; omega, ?_, fun q hq found => ?_⟩
  · rw [List.drop_append_of_le_length hp]
    exact match_.trans (List.prefix_append _ _)
  -- an earlier match in `s ++ t` ends before `p + needle.length`, hence inside `s`
  · refine first q hq ?_
    rw [List.drop_append_of_le_length (by omega)] at found
    exact List.prefix_of_prefix_length_le found (List.prefix_append _ _)
      (by rw [List.length_drop]; omega)

theorem find_take {needle s : List α} {p : Nat} (h : find needle s = some p) :
    find needle (s.take (p + needle.length)) = some p := by
  have bound := find_bound h
  obtain ⟨-, match_, first⟩ := (find_some_iff needle s p).mp h
  refine (find_some_iff _ _ p).mpr ⟨by simp; omega, ?_, fun q hq found => ?_⟩
  · rw [List.drop_take]
    exact List.prefix_take_iff.mpr ⟨match_, by omega⟩
  · refine first q hq (found.trans ?_)
    rw [List.drop_take]
    exact List.take_prefix _ _

theorem find_append_of_notMem {a : α} {piece : List α} (h : a ∉ piece) (needle s : List α) :
    find (a :: needle) (piece ++ s) = (find (a :: needle) s).map (· + piece.length) := by
  induction piece with
  | nil => simp
  | cons b piece ih =>
    obtain ⟨hb, hpiece⟩ := not_or.mp (mt List.mem_cons.mpr h)
    have hnot : ¬(a :: needle) <+: b :: (piece ++ s) := fun hprefix =>
      hb (List.cons_prefix_cons.mp hprefix).1
    rw [List.cons_append, find, if_neg hnot, ih hpiece, Option.map_map]
    rfl

theorem find_of_notMem {a : α} {piece : List α} (h : a ∉ piece) (needle s : List α) :
    find (a :: needle) (piece ++ (a :: needle ++ s)) = some piece.length := by
  rw [find_append_of_notMem h]
  simp [find]

theorem find_eq_none_of_notMem {a : α} {s : List α} (h : a ∉ s) (needle : List α) :
    find (a :: needle) s = none := by
  rw [← List.append_nil s, find_append_of_notMem h]
  simp [find]

theorem find_double_append {a : α} {needle piece s : List α} (hneedle : a ∉ needle)
    (hpiece : a ∉ piece) (hs : s.head? ≠ some a) :
    find (a :: needle ++ a :: needle) (piece ++ (a :: needle ++ s)) =
      (find (a :: needle ++ a :: needle) s).map (· + (piece ++ a :: needle).length) := by
  have hnot : ¬(a :: needle ++ a :: needle) <+: a :: needle ++ s := by
    intro hprefix
    obtain ⟨t, ht⟩ := (List.prefix_append_right_inj _).mp hprefix
    exact hs (by simp [← ht])
  simp only [List.cons_append] at hnot ⊢
  rw [find_append_of_notMem hpiece, find, if_neg hnot, find_append_of_notMem hneedle,
    Option.map_map, Option.map_map]
  congr 1
  funext p
  simp
  omega

theorem find_drop {needle s : List α} {p k : Nat} (h : find needle s = some p) (hk : k ≤ p) :
    find needle (s.drop k) = some (p - k) := by
  obtain ⟨hp, match_, first⟩ := (find_some_iff needle s p).mp h
  refine (find_some_iff _ _ _).mpr ⟨by simp; omega, ?_, fun q hq => ?_⟩
  · rwa [List.drop_drop, Nat.add_sub_cancel' hk]
  · rw [List.drop_drop]
    exact first (k + q) (by omega)

theorem exists_find {needle s : List α} {k : Nat} (h : needle <+: s.drop k) (hk : k ≤ s.length) :
    ∃ q ≤ k, find needle s = some q := by
  induction s generalizing k with
  | nil => exact ⟨0, by omega, by simpa [find] using h⟩
  | cons a s ih =>
    by_cases hhere : needle <+: a :: s
    · exact ⟨0, by omega, by simp [find, hhere]⟩
    · cases k with
      | zero => exact absurd (by simpa using h) hhere
      | succ k =>
        obtain ⟨q, hq, hfind⟩ := ih (by simpa using h) (by simpa using hk)
        exact ⟨q + 1, by omega, by simp [find, hhere, hfind]⟩

/-- The frames of `s`: cut after the first delimiter, then go on with the rest.
What follows the last delimiter belongs to no frame. -/
def frames (delim : List α) (s : List α) : List (List α) :=
  if delim = [] then [] else
  match _h : find delim s with
  | none => []
  | some p => s.take (p + delim.length) :: frames delim (s.drop (p + delim.length))
termination_by s.length
decreasing_by
  have bound := find_bound _h
  have := List.length_pos_of_ne_nil ‹¬delim = []›
  rw [List.length_drop]
  omega

def IsFrame (delim frame : List α) : Prop :=
  ∃ p, find delim frame = some p ∧ frame.length = p + delim.length

theorem isFrame_take {delim s : List α} {p : Nat} (h : find delim s = some p) :
    IsFrame delim (s.take (p + delim.length)) :=
  ⟨p, find_take h, by have := find_bound h; simp; omega⟩

theorem frames_append {delim frame : List α} (hd : delim ≠ []) (h : IsFrame delim frame)
    (s : List α) : frames delim (frame ++ s) = frame :: frames delim s := by
  obtain ⟨p, hp, hlen⟩ := h
  rw [frames, if_neg hd]
  split
  · rename_i hnone
    simp [find_append s hp] at hnone
  · rename_i q hq
    rw [find_append s hp, Option.some.injEq] at hq
    subst hq
    rw [← hlen, List.take_left, List.drop_left]

theorem frames_of_find_none {delim s : List α} (h : find delim s = none) :
    frames delim s = [] := by
  rw [frames]
  split
  · rfl
  · split
    · rfl
    · rename_i p hp
      rw [h] at hp
      cases hp

/-- Frames that were cut off earlier stay the frames of the whole stream,
whatever follows them. -/
theorem frames_flatten_append {delim : List α} (hd : delim ≠ []) (fs : List (List α))
    (h : ∀ f ∈ fs, IsFrame delim f) (s : List α) :
    frames delim (fs.flatten ++ s) = fs ++ frames delim s := by
  induction fs with
  | nil => simp
  | cons f fs ih =>
    rw [List.flatten_cons, List.append_assoc, frames_append hd (h f (by simp)),
      ih fun g hg => h g (by simp [hg]), List.cons_append]

theorem frames_prefix {delim s t : List α} (hd : delim ≠ []) (h : s <+: t) :
    frames delim s <+: frames delim t := by
  obtain ⟨more, rfl⟩ := h
  induction hn : s.length using Nat.strong_induction_on generalizing s with
  | _ n ih =>
    cases hfind : find delim s with
    | none =>
      rw [frames_of_find_none hfind]
      exact List.nil_prefix
    | some p =>
      have hframe := isFrame_take hfind
      have hshorter : (s.drop (p + delim.length)).length < n := by
        have := find_bound hfind
        have := List.length_pos_of_ne_nil hd
        rw [List.length_drop]
        omega
      rw [← List.take_append_drop (p + delim.length) s, List.append_assoc,
        frames_append hd hframe, frames_append hd hframe, List.prefix_cons_inj]
      exact ih _ hshorter rfl

/-- The pieces between the delimiters, one more than there are delimiters. -/
def split (delim : List α) (s : List α) : List (List α) :=
  if delim = [] then [s] else
  match _h : find delim s with
  | none => [s]
  | some p => s.take p :: split delim (s.drop (p + delim.length))
termination_by s.length
decreasing_by
  have bound := find_bound _h
  have := List.length_pos_of_ne_nil ‹¬delim = []›
  rw [List.length_drop]
  omega

theorem split_of_find {delim s : List α} {p : Nat} (hd : delim ≠ []) (h : find delim s = some p) :
    split delim s = s.take p :: split delim (s.drop (p + delim.length)) := by
  rw [split, if_neg hd]
  split
  · rename_i hnone
    simp [hnone] at h
  · rename_i q hq
    obtain rfl : q = p := Option.some.inj (hq.symm.trans h)
    rfl

theorem split_of_find_none {delim s : List α} (hd : delim ≠ []) (h : find delim s = none) :
    split delim s = [s] := by
  rw [split, if_neg hd]
  split
  · rfl
  · rename_i hsome
    simp [hsome] at h

/-- The delimiter comes right behind the piece and nowhere before. -/
def IsPiece (delim piece : List α) : Prop := find delim (piece ++ delim) = some piece.length

theorem isPiece_of_notMem {a : α} {piece : List α} (h : a ∉ piece) (needle : List α) :
    IsPiece (a :: needle) piece := by
  simpa [IsPiece] using find_of_notMem h needle []

theorem IsPiece.append_of_notMem {a : α} {needle piece : List α}
    (hpiece : IsPiece (a :: needle) piece)
    {before : List α} (h : a ∉ before) : IsPiece (a :: needle) (before ++ piece) := by
  rw [IsPiece, List.append_assoc, find_append_of_notMem h, hpiece]
  simp [Nat.add_comm]

theorem isPiece_take {delim s : List α} {p : Nat} (h : find delim s = some p) :
    IsPiece delim (s.take p) := by
  obtain ⟨hp, hprefix, -⟩ := (find_some_iff delim s p).mp h
  have htake := find_take h
  rw [List.take_add, ← List.prefix_iff_eq_take.mp hprefix] at htake
  rw [IsPiece, htake, List.length_take, Nat.min_eq_left hp]

theorem IsPiece.find_append {delim piece : List α} (h : IsPiece delim piece) (s : List α) :
    find delim (piece ++ (delim ++ s)) = some piece.length := by
  rw [← List.append_assoc]
  exact Framing.find_append s h

theorem IsPiece.find_eq_none {delim piece : List α} (hd : delim ≠ []) (h : IsPiece delim piece) :
    find delim piece = none := by
  cases hfind : find delim piece with
  | none => rfl
  | some p =>
    have hbound := find_bound hfind
    have hpos := List.length_pos_of_ne_nil hd
    have hsame := (Framing.find_append delim hfind).symm.trans h
    rw [Option.some.injEq] at hsame
    omega

theorem split_piece {delim piece : List α} (hd : delim ≠ []) (h : IsPiece delim piece)
    (s : List α) : split delim (piece ++ (delim ++ s)) = piece :: split delim s := by
  rw [split_of_find hd (h.find_append s), List.take_left, ← List.append_assoc,
    ← List.length_append, List.drop_left]

theorem split_intercalate {delim : List α} (hd : delim ≠ []) {pieces : List (List α)}
    (hne : pieces ≠ []) (hpieces : ∀ piece ∈ pieces, IsPiece delim piece) :
    split delim (delim.intercalate pieces) = pieces := by
  induction pieces with
  | nil => exact absurd rfl hne
  | cons piece pieces ih =>
    have hpiece := hpieces piece (by simp)
    cases pieces with
    | nil => simpa [List.intercalate] using split_of_find_none hd (hpiece.find_eq_none hd)
    | cons next pieces =>
      rw [List.intercalate_cons_cons, List.append_assoc, split_piece hd hpiece,
        ih (by simp) fun p hp => hpieces p (by simp [hp])]

theorem find_block {a : α} {needle : List α} (hneedle : a ∉ needle) {lines : List (List α)}
    (hne : lines ≠ []) (hlines : ∀ line ∈ lines, line ≠ [] ∧ a ∉ line) (s : List α) :
    find (a :: needle ++ a :: needle)
        ((a :: needle).intercalate lines ++ (a :: needle ++ (a :: needle ++ s))) =
      some ((a :: needle).intercalate lines).length := by
  induction lines with
  | nil => exact absurd rfl hne
  | cons line lines ih =>
    obtain ⟨hline, hnew⟩ := hlines line (by simp)
    cases lines with
    | nil =>
      have hfind := find_of_notMem hnew (needle ++ a :: needle) s
      simpa using hfind
    | cons next lines =>
      have hrest := ih (by simp) fun l hl => hlines l (by simp [hl])
      obtain ⟨hnext, hnextNew⟩ := hlines next (by simp)
      have hhead : ∀ t, ((a :: needle).intercalate (next :: lines) ++ t).head? ≠ some a := by
        intro t
        cases next with
        | nil => exact absurd rfl hnext
        | cons b next =>
          have hb : b ≠ a := fun heq => hnextNew (by simp [heq])
          cases lines <;> simpa [List.intercalate] using hb
      rw [List.intercalate_cons_cons, List.append_assoc, List.append_assoc,
        find_double_append hneedle hnew (hhead _), hrest, Option.map_some]
      simp
      omega

omit [DecidableEq α] in
theorem length_le_of_drop {a : α} {needle : List α} (hneedle : a ∉ needle) {rest tail : List α}
    {p : Nat} (hpos : 0 < p) (hdrop : (a :: needle ++ rest).drop p = a :: tail) :
    (a :: needle).length ≤ p := by
  by_contra hlt
  rw [List.drop_append_of_le_length (by omega)] at hdrop
  obtain ⟨q, rfl⟩ := Nat.exists_eq_add_of_le' hpos
  rw [List.drop_succ_cons] at hdrop
  have hne : needle.drop q ≠ [] := by
    simp only [List.length_cons, not_le] at hlt
    simp
    omega
  have hhead := congrArg List.head? hdrop
  rw [List.head?_append_of_ne_nil _ hne] at hhead
  exact hneedle (List.mem_of_mem_drop (List.mem_of_mem_head? hhead))

/-- A frame of the double delimiter is made of lines, none of them empty before its end. -/
theorem exists_lines {a : α} {needle : List α} (hneedle : a ∉ needle) (rest : List α)
    (h : IsFrame (a :: needle ++ a :: needle) (a :: needle ++ rest)) :
    ∃ lines : List (List α), rest = lines.flatMap (· ++ a :: needle) ++ a :: needle ∧
      ∀ line ∈ lines, line ≠ [] ∧ IsPiece (a :: needle) line := by
  obtain ⟨p, hp, hlength⟩ := h
  obtain ⟨-, hmatch, hfirst⟩ := (find_some_iff _ _ p).mp hp
  simp only [List.length_append] at hlength
  have hwhole : (a :: needle ++ rest).drop p = a :: needle ++ a :: needle := by
    refine (hmatch.eq_of_length ?_).symm
    rw [List.length_drop, List.length_append, List.length_append]
    omega
  rcases Nat.eq_zero_or_pos p with rfl | hpos
  · exact ⟨[], by simpa using hwhole, by simp⟩
  have hbehind : (a :: needle).length ≤ p := length_le_of_drop hneedle hpos hwhole
  have hdrop : rest.drop (p - (a :: needle).length) = a :: needle ++ a :: needle := by
    rw [List.drop_append, List.drop_eq_nil_of_le hbehind, List.nil_append] at hwhole
    exact hwhole
  have hprefixDrop : (a :: needle) <+: rest.drop (p - (a :: needle).length) := by
    rw [hdrop]
    exact List.prefix_append _ _
  obtain ⟨q, hq, hfind⟩ := exists_find hprefixDrop (by simp at hlength ⊢; omega)
  obtain ⟨hqle, hprefix, -⟩ := (find_some_iff _ _ q).mp hfind
  have hqpos : 0 < q := by
    refine Nat.pos_of_ne_zero fun hzero => hfirst 0 hpos ?_
    rw [hzero] at hprefix
    simpa using hprefix
  have hbehindLine : a :: needle ++ rest.drop (q + (a :: needle).length) = rest.drop q := by
    rw [← List.drop_drop]
    exact (List.prefix_iff_eq_append.mp hprefix)
  have hline : rest.take q ++ (a :: needle ++ rest.drop (q + (a :: needle).length)) = rest := by
    rw [hbehindLine, List.take_append_drop]
  have hframe : IsFrame (a :: needle ++ a :: needle)
      (a :: needle ++ rest.drop (q + (a :: needle).length)) := by
    have hshift := find_drop (k := (a :: needle).length + q) hp (by omega)
    rw [List.drop_append, List.drop_eq_nil_of_le (by omega), List.nil_append,
      Nat.add_sub_cancel_left] at hshift
    refine ⟨p - ((a :: needle).length + q), hbehindLine ▸ hshift, ?_⟩
    simp only [List.length_append, List.length_drop]
    omega
  obtain ⟨lines, hrest, hlines⟩ := exists_lines hneedle _ hframe
  refine ⟨rest.take q :: lines, ?_, ?_⟩
  · rw [List.flatMap_cons, List.append_assoc, List.append_assoc, ← hrest, hline]
  · rintro line (_ | ⟨_, hmem⟩)
    · refine ⟨?_, ?_⟩
      · intro hnil
        have hzero := congrArg List.length hnil
        rw [List.length_take, List.length_nil] at hzero
        omega
      · exact isPiece_take hfind
    · exact hlines line hmem
termination_by rest.length
decreasing_by
  simp only [List.length_drop, List.length_append, List.length_cons] at *
  omega

theorem delim_append_drop {delim s : List α} {p : Nat} (h : find delim s = some p) :
    delim ++ s.drop (p + delim.length) = s.drop p := by
  obtain ⟨-, hprefix, -⟩ := (find_some_iff _ _ p).mp h
  rw [← List.drop_drop]
  exact List.prefix_iff_eq_append.mp hprefix

theorem eq_of_find {delim s : List α} {p : Nat} (h : find delim s = some p) :
    s = s.take p ++ (delim ++ s.drop (p + delim.length)) := by
  rw [delim_append_drop h, List.take_append_drop]

theorem exists_first_line (delim : List α) {s : List α} (h : IsFrame (delim ++ delim) s) :
    ∃ p, find delim s = some p ∧
      s = s.take p ++ (delim ++ s.drop (p + delim.length)) ∧
      IsFrame (delim ++ delim) (delim ++ s.drop (p + delim.length)) := by
  obtain ⟨p, hp, hlength⟩ := h
  obtain ⟨hle, hmatch, -⟩ := (find_some_iff _ _ p).mp hp
  obtain ⟨q, hq, hfind⟩ := exists_find ((List.prefix_append delim delim).trans hmatch) hle
  have hbehind := delim_append_drop hfind
  refine ⟨q, hfind, eq_of_find hfind, p - q, ?_, ?_⟩
  · rw [hbehind]
    exact find_drop hp hq
  · rw [hbehind, List.length_drop]
    omega

omit [DecidableEq α] in
section

variable {β : Type*}

theorem length_intercalate (delim first : List β) (pieces : List (List β)) :
    (delim.intercalate (first :: pieces)).length + delim.length =
      ((first :: pieces).map fun piece => piece.length + delim.length).sum := by
  induction pieces generalizing first with
  | nil => simp [List.intercalate]
  | cons piece pieces ih =>
    rw [List.intercalate_cons_cons, List.map_cons, List.sum_cons, ← ih piece]
    simp only [List.length_append]
    omega

theorem notMem_intercalate {b : β} {delim : List β} (hdelim : b ∉ delim) {pieces : List (List β)}
    (hpieces : ∀ piece ∈ pieces, b ∉ piece) : b ∉ delim.intercalate pieces := by
  cases pieces with
  | nil => simp [List.intercalate]
  | cons first pieces =>
    induction pieces generalizing first with
    | nil => simpa [List.intercalate] using hpieces
    | cons piece pieces ih =>
      have hfirst := hpieces first (by simp)
      have hrest := ih piece fun p hp => hpieces p (by simp [hp])
      rw [List.intercalate_cons_cons]
      simp [hdelim, hfirst, hrest]

theorem sum_length_of_sublist (delim : List β) {kept all : List (List β)}
    (h : kept.Sublist all) (hne : ∀ piece ∈ all, piece ≠ []) :
    (kept.map fun piece => piece.length + delim.length).sum + all.length ≤
      (all.map fun piece => piece.length + delim.length).sum + kept.length := by
  induction h with
  | slnil => simp
  | cons piece _ ih =>
    have hrest := ih fun p hp => hne p (by simp [hp])
    have hpos := List.length_pos_iff.mpr (hne piece (by simp))
    simp only [List.map_cons, List.sum_cons, List.length_cons]
    omega
  | cons_cons piece _ ih =>
    have hrest := ih fun p hp => hne p (by simp [hp])
    simp only [List.map_cons, List.sum_cons, List.length_cons]
    omega

/-- No piece can be left out of a text unseen. -/
theorem eq_of_intercalate_eq {delim : List β} {kept all : List (List β)}
    (h : kept.Sublist all) (hne : ∀ piece ∈ all, piece ≠ [])
    (heq : delim.intercalate kept = delim.intercalate all) : kept = all := by
  refine h.eq_of_length_le ?_
  have hsum := sum_length_of_sublist delim h hne
  cases all with
  | nil => exact Nat.zero_le _
  | cons first rest =>
    have hall := length_intercalate delim first rest
    cases kept with
    | nil =>
      have hpos := List.length_pos_iff.mpr (hne first (by simp))
      rw [← heq] at hall
      simp only [List.intercalate, List.intersperse_nil, List.flatten_nil, List.length_nil,
        List.map_cons, List.sum_cons] at hall
      omega
    | cons first' rest' =>
      have hkept := length_intercalate delim first' rest'
      rw [heq] at hkept
      omega

theorem intercalate_append (delim first : List β) (lines : List (List β)) :
    delim.intercalate (first :: lines) ++ delim =
      first ++ (delim ++ lines.flatMap (· ++ delim)) := by
  induction lines generalizing first with
  | nil => simp [List.intercalate]
  | cons line lines ih =>
    rw [List.intercalate_cons_cons, List.append_assoc, ih, List.flatMap_cons]
    simp only [List.append_assoc]

end

def cutAt (a : α) : List α → Option (List α × List α)
  | [] => none
  | b :: s =>
    if b = a then some ([], s) else (cutAt a s).map fun sides => (b :: sides.1, sides.2)

theorem cutAt_eq_some_iff {a : α} {s left right : List α} :
    cutAt a s = some (left, right) ↔ a ∉ left ∧ s = left ++ a :: right := by
  induction s generalizing left with
  | nil => simp [cutAt]
  | cons b s ih =>
    by_cases hb : b = a
    · cases left with
      | nil => simp [cutAt, hb]
      | cons c left =>
        refine ⟨fun h => by simp [cutAt, hb] at h, fun ⟨hleft, hs⟩ => ?_⟩
        simp only [List.cons_append, List.cons.injEq] at hs
        exact absurd (hs.1 ▸ hb) fun hca => hleft (by simp [hca])
    · have hba : ¬a = b := fun h => hb h.symm
      cases left with
      | nil => simp [cutAt, hb]
      | cons c left =>
        simp only [cutAt, if_neg hb, Option.map_eq_some_iff, Prod.mk.injEq, List.cons.injEq,
          Prod.exists, List.cons_append, List.mem_cons, not_or]
        constructor
        · rintro ⟨left', right', hcut, ⟨rfl, rfl⟩, rfl⟩
          obtain ⟨hleft, rfl⟩ := ih.mp hcut
          exact ⟨⟨hba, hleft⟩, rfl, rfl⟩
        · rintro ⟨⟨-, hleft⟩, rfl, rfl⟩
          exact ⟨left, right, ih.mpr ⟨hleft, rfl⟩, ⟨rfl, rfl⟩, rfl⟩

theorem cutAt_eq_none_iff {a : α} {s : List α} : cutAt a s = none ↔ a ∉ s := by
  induction s with
  | nil => simp [cutAt]
  | cons b s ih =>
    by_cases hb : b = a
    · simp [cutAt, hb]
    · have hba : ¬a = b := fun h => hb h.symm
      simp [cutAt, hb, hba, ih]

theorem count_of_cutAt {a : α} {s left right : List α} (h : cutAt a s = some (left, right)) :
    s.count a = right.count a + 1 := by
  obtain ⟨hleft, rfl⟩ := cutAt_eq_some_iff.mp h
  simp [List.count_eq_zero_of_not_mem hleft]

theorem count_of_cutAt_none {a : α} {s : List α} (h : cutAt a s = none) : s.count a = 0 :=
  List.count_eq_zero_of_not_mem (cutAt_eq_none_iff.mp h)

theorem takeWhile_of_cutAt {a : α} {s left right : List α} (h : cutAt a s = some (left, right)) :
    s.takeWhile (· ≠ a) = left ∧ s.dropWhile (· ≠ a) = a :: right := by
  obtain ⟨hleft, rfl⟩ := cutAt_eq_some_iff.mp h
  have hne : ∀ b ∈ left, decide (b ≠ a) = true := fun b hb =>
    decide_eq_true fun heq => hleft (heq ▸ hb)
  rw [List.takeWhile_append_of_pos hne, List.dropWhile_append_of_pos hne]
  simp

theorem takeWhile_of_cutAt_none {a : α} {s : List α} (h : cutAt a s = none) :
    s.takeWhile (· ≠ a) = s ∧ s.dropWhile (· ≠ a) = [] := by
  have hne : ∀ b ∈ s, decide (b ≠ a) = true := fun b hb =>
    decide_eq_true fun heq => cutAt_eq_none_iff.mp h (heq ▸ hb)
  rw [← List.append_nil s, List.takeWhile_append_of_pos hne, List.dropWhile_append_of_pos hne]
  simp

theorem split_singleton (a : α) (s : List α) :
    split [a] s = s.takeWhile (· ≠ a) ::
      match s.dropWhile (· ≠ a) with
      | [] => []
      | _ :: rest => split [a] rest := by
  cases hcut : cutAt a s with
  | none =>
    obtain ⟨htake, hdrop⟩ := takeWhile_of_cutAt_none hcut
    rw [htake, hdrop, split_of_find_none (by simp)
      (find_eq_none_of_notMem (cutAt_eq_none_iff.mp hcut) [])]
  | some sides =>
    obtain ⟨left, right⟩ := sides
    obtain ⟨htake, hdrop⟩ := takeWhile_of_cutAt hcut
    obtain ⟨hleft, rfl⟩ := cutAt_eq_some_iff.mp hcut
    rw [htake, hdrop]
    exact split_piece (by simp) (isPiece_of_notMem hleft []) right

theorem findIdx?_of_cutAt {a : α} {s left right : List α} (h : cutAt a s = some (left, right)) :
    s.findIdx? (· = a) = some left.length ∧ s.take left.length = left ∧
      s.drop (left.length + 1) = right := by
  obtain ⟨hleft, rfl⟩ := cutAt_eq_some_iff.mp h
  refine ⟨?_, List.take_left, ?_⟩
  · rw [List.findIdx?_append, List.findIdx?_eq_none_iff.mpr fun b hb => ?_]
    · simp [List.findIdx?_cons]
    · exact decide_eq_false fun heq => hleft (heq ▸ hb)
  · rw [← List.drop_drop, List.drop_left, List.drop_succ_cons, List.drop_zero]

theorem findIdx?_of_cutAt_none {a : α} {s : List α} (h : cutAt a s = none) :
    s.findIdx? (· = a) = none :=
  List.findIdx?_eq_none_iff.mpr fun _ hb =>
    decide_eq_false fun heq => cutAt_eq_none_iff.mp h (heq ▸ hb)

end CppSearchServer.Library.Framing
