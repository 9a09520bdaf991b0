import Mathlib.Data.List.DropRight

/-! The words of a text: its maximal non-empty runs of letters, where `p` says
which characters are letters. Concatenating two texts keeps the words of both,
except where a letter meets a letter. The words are cut out by one scan; that they are
the maximal runs is said in terms of positions. -/

namespace CppSearchServer.Library.Words

variable {α : Type*} (p : α → Bool)

def single (word : List α) : List (List α) := if word.isEmpty then [] else [word]

/-- The words of a text that is read on after the letters `word`. -/
def wordsFrom (word : List α) : List α → List (List α)
  | [] => single word
  | c :: text => if p c then wordsFrom (word ++ [c]) text else single word ++ wordsFrom [] text

def words (text : List α) : List (List α) := wordsFrom p [] text

/-- No letter of `u` is continued by a letter of `v`. -/
def Separated (u v : List α) : Prop := ¬(u.getLast?.any p = true ∧ v.head?.any p = true)

section Runs
variable (p : α → Bool) (text : List α)

def slice (i j : Nat) : List α := (text.take j).drop i

/-- From `i` up to `j` stand letters, and no letter stands on either side. -/
structure IsRun (i j : Nat) : Prop where
  nonempty : i < j
  letters : ∀ k, i ≤ k → k < j → text[k]?.any p = true
  before : ∀ k, k + 1 = i → text[k]?.any p = false
  behind : text[j]?.any p = false

structure Runs (runs : List (Nat × Nat)) : Prop where
  ordered : runs.Pairwise fun r s => r.2 < s.1
  exact : ∀ r, r ∈ runs ↔ IsRun p text r.1 r.2

end Runs

@[simp] theorem words_nil : words p ([] : List α) = [] := rfl

variable {p}

theorem words_cons_neg {c : α} (hc : p c = false) (text : List α) :
    words p (c :: text) = words p text := by
  simp [words, wordsFrom, single, hc]

theorem single_of_ne_nil {word : List α} (h : word ≠ []) : single word = [word] := by
  simp [single, h]

theorem wordsFrom_of_all (u w : List α) (hw : ∀ c ∈ w, p c = true) :
    wordsFrom p u w = single (u ++ w) := by
  induction w generalizing u with
  | nil => simp [wordsFrom]
  | cons c w ih =>
    rw [wordsFrom, if_pos (hw c (by simp)), ih _ fun d hd => hw d (by simp [hd])]
    simp

theorem words_of_all {w : List α} (hne : w ≠ []) (hw : ∀ c ∈ w, p c = true) :
    words p w = [w] := by
  rw [words, wordsFrom_of_all [] w hw, List.nil_append, single_of_ne_nil hne]

theorem words_of_none {text : List α} (h : ∀ c ∈ text, p c = false) : words p text = [] := by
  induction text with
  | nil => rfl
  | cons c text ih =>
    rw [words_cons_neg (h c (by simp)), ih fun d hd => h d (by simp [hd])]

theorem wordsFrom_append {w u v : List α} (hw : ∀ c ∈ w, p c = true)
    (h : Separated p (w ++ u) v) : wordsFrom p w (u ++ v) = wordsFrom p w u ++ words p v := by
  induction u generalizing w with
  | nil =>
    cases v with
    | nil => simp [wordsFrom]
    | cons c v =>
      rcases List.eq_nil_or_concat' w with rfl | ⟨w', d, rfl⟩
      · simp [wordsFrom, single, words]
      · have hd := hw d (by simp)
        have hc : p c = false := by simpa [Separated, hd] using h
        simp [wordsFrom, words, hc, single]
  | cons c u ih =>
    by_cases hc : p c = true
    · have hw' : ∀ d ∈ w ++ [c], p d = true := by
        intro d hd
        rcases List.mem_append.mp hd with hd | hd
        · exact hw d hd
        · rw [List.mem_singleton.mp hd, hc]
      have hsep : Separated p (w ++ [c] ++ u) v := by simpa using h
      simp only [List.cons_append, wordsFrom, if_pos hc]
      exact ih hw' hsep
    · have hsep : Separated p ([] ++ u) v := by
        intro ⟨hu, hv⟩
        cases u with
        | nil => simp at hu
        | cons d u =>
          have hlast : (w ++ c :: d :: u).getLast? = (d :: u).getLast? := by
            rw [List.getLast?_append_of_ne_nil w (by simp), List.getLast?_cons_cons]
          exact h ⟨hlast ▸ hu, hv⟩
      simp only [List.cons_append, wordsFrom, if_neg hc, List.append_assoc]
      rw [ih (by simp) hsep]

theorem words_append {u v : List α} (h : Separated p u v) :
    words p (u ++ v) = words p u ++ words p v :=
  wordsFrom_append (by simp) h

theorem words_join {u v : List α} (hu : u.getLast?.any p = true) (hv : v.head?.any p = true) :
    ∃ before w₁ w₂ after, w₁ ≠ [] ∧ w₂ ≠ [] ∧ words p u = before ++ [w₁] ∧
      words p v = w₂ :: after ∧ words p (u ++ v) = before ++ (w₁ ++ w₂) :: after := by
  have hw₁ : ∀ c ∈ u.rtakeWhile p, p c = true := fun c hc => List.mem_rtakeWhile_imp hc
  have hw₂ : ∀ c ∈ v.takeWhile p, p c = true := fun c hc => List.mem_takeWhile_imp hc
  have hne₁ : u.rtakeWhile p ≠ [] := by
    intro heq
    rcases List.eq_nil_or_concat' u with rfl | ⟨u', d, rfl⟩
    · simp at hu
    · exact (List.rtakeWhile_eq_nil_iff.mp heq) (by simp) (by simpa using hu)
  have hne₂ : v.takeWhile p ≠ [] := by
    cases v with
    | nil => simp at hv
    | cons c v =>
      have hc : p c = true := by simpa using hv
      simp [hc]
  have hbefore : ∀ w : List α, Separated p (u.rdropWhile p) w := by
    rintro w ⟨hlast, -⟩
    by_cases hnil : u.rdropWhile p = []
    · simp [hnil] at hlast
    · have hnot := List.rdropWhile_last_not p u hnil
      rw [List.getLast?_eq_some_getLast hnil] at hlast
      exact hnot (by simpa using hlast)
  have hafter : ∀ w : List α, Separated p w (v.dropWhile p) := by
    rintro w ⟨-, hhead⟩
    cases hrest : v.dropWhile p with
    | nil => simp [hrest] at hhead
    | cons d rest =>
      have hnot := List.head_dropWhile_not p (l := v) (by simp [hrest])
      simp only [hrest, List.head_cons] at hnot
      simp [hrest, hnot] at hhead
  refine ⟨words p (u.rdropWhile p), u.rtakeWhile p, v.takeWhile p, words p (v.dropWhile p),
    hne₁, hne₂, ?_, ?_, ?_⟩
  · conv_lhs => rw [← List.rdropWhile_append_rtakeWhile (p := p) (l := u)]
    rw [words_append (hbefore _), words_of_all hne₁ hw₁]
  · conv_lhs => rw [← List.takeWhile_append_dropWhile (p := p) (l := v)]
    rw [words_append (hafter _), words_of_all hne₂ hw₂, List.singleton_append]
  · have hmid : ∀ c ∈ u.rtakeWhile p ++ v.takeWhile p, p c = true := by
      intro c hc
      exact (List.mem_append.mp hc).elim (hw₁ c) (hw₂ c)
    have hsplit : u ++ v = u.rdropWhile p ++
        ((u.rtakeWhile p ++ v.takeWhile p) ++ v.dropWhile p) := by
      rw [List.append_assoc, List.takeWhile_append_dropWhile, ← List.append_assoc,
        List.rdropWhile_append_rtakeWhile]
    rw [hsplit, words_append (hbefore _), words_append (hafter _),
      words_of_all (by simp [hne₁]) hmid, List.singleton_append]

theorem words_dropWhile {q : α → Bool} (h : ∀ c, q c = true → p c = false) (text : List α) :
    words p (text.dropWhile q) = words p text := by
  induction text with
  | nil => rfl
  | cons c text ih =>
    rw [List.dropWhile_cons]
    split
    · rename_i hc
      rw [ih, words_cons_neg (h c hc)]
    · rfl

theorem words_rdropWhile {q : α → Bool} (h : ∀ c, q c = true → p c = false) (text : List α) :
    words p (text.rdropWhile q) = words p text := by
  have hnone : ∀ c ∈ text.rtakeWhile q, p c = false :=
    fun c hc => h c (List.mem_rtakeWhile_imp hc)
  have hsep : Separated p (text.rdropWhile q) (text.rtakeWhile q) := by
    rintro ⟨-, hhead⟩
    cases hrest : text.rtakeWhile q with
    | nil => simp [hrest] at hhead
    | cons d rest => simp [hrest, hnone d (by simp [hrest])] at hhead
  conv_rhs => rw [← List.rdropWhile_append_rtakeWhile (p := q) (l := text)]
  rw [words_append hsep, words_of_none hnone, List.append_nil]

theorem single_run {text : List α} {start n : Nat} (hn : n ≤ text.length) (hle : start ≤ n)
    (hletters : ∀ k, start ≤ k → k < n → text[k]?.any p = true)
    (hbefore : ∀ k, k + 1 = start → text[k]?.any p = false) (hstop : text[n]?.any p = false) :
    ∃ run : List (Nat × Nat), single (slice text start n) = run.map (fun r => slice text r.1 r.2) ∧
      run.Pairwise (fun r s => r.2 < s.1) ∧
      (∀ r, r ∈ run ↔ IsRun p text r.1 r.2 ∧ start ≤ r.1 ∧ r.1 < n) ∧ ∀ r ∈ run, r.2 ≤ n := by
  by_cases hempty : start = n
  · refine ⟨[], ?_, by simp, ?_, by simp⟩
    · simp [single, slice, hempty]
    · rintro ⟨i, j⟩
      simp
      omega
  · refine ⟨[(start, n)], ?_, by simp, ?_, by simp⟩
    · apply single_of_ne_nil
      simp [slice]
      omega
    · rintro ⟨i, j⟩
      rw [List.mem_singleton, Prod.mk.injEq]
      constructor
      · rintro ⟨rfl, rfl⟩
        exact ⟨⟨by omega, hletters, hbefore, hstop⟩, le_rfl, by omega⟩
      · rintro ⟨hrun, hi, hin⟩
        have hstart : i = start := by
          by_contra hne
          have hletter := hletters (i - 1) (by omega) (by omega)
          rw [hrun.before (i - 1) (by omega)] at hletter
          cases hletter
        have hend : ¬n < j := by
          intro hlt
          have hletter := hrun.letters n (by omega) hlt
          rw [hstop] at hletter
          cases hletter
        have hend' : ¬j < n := by
          intro hlt
          have hij := hrun.nonempty
          have hletter := hletters j (by omega) hlt
          rw [hrun.behind] at hletter
          cases hletter
        exact ⟨hstart, by omega⟩

theorem wordsFrom_runs {text : List α} {start n : Nat} (hn : n ≤ text.length)
    (hle : start ≤ n) (hletters : ∀ k, start ≤ k → k < n → text[k]?.any p = true)
    (hbefore : ∀ k, k + 1 = start → text[k]?.any p = false) :
    ∃ runs : List (Nat × Nat), runs.Pairwise (fun r s => r.2 < s.1) ∧
      (∀ r, r ∈ runs ↔ IsRun p text r.1 r.2 ∧ start ≤ r.1) ∧
      wordsFrom p (slice text start n) (text.drop n) = runs.map fun r => slice text r.1 r.2 := by
  induction hrest : text.drop n generalizing start n with
  | nil =>
    have hlength : text.length ≤ n := List.drop_eq_nil_iff.mp hrest
    have hnone : text[n]? = none := List.getElem?_eq_none hlength
    obtain ⟨run, hsingle, hordered, hmem, -⟩ :=
      single_run hn hle hletters hbefore (by simp [hnone])
    refine ⟨run, hordered, fun r => (hmem r).trans ?_, hsingle⟩
    refine ⟨fun h => ⟨h.1, h.2.1⟩, fun h => ⟨h.1, h.2, ?_⟩⟩
    by_contra hge
    have hletter := h.1.letters r.1 le_rfl h.1.nonempty
    rw [List.getElem?_eq_none (by omega)] at hletter
    simp at hletter
  | cons c rest ih =>
    have hlt : n < text.length := by
      by_contra hge
      rw [List.drop_of_length_le (by omega)] at hrest
      cases hrest
    rw [List.drop_eq_getElem_cons hlt, List.cons.injEq] at hrest
    obtain ⟨hc, hrest⟩ := hrest
    have hget : text[n]? = some c := by rw [List.getElem?_eq_getElem hlt, hc]
    by_cases hletter : p c = true
    · have hslice : slice text start (n + 1) = slice text start n ++ [c] := by
        rw [slice, List.take_add_one, hget, List.drop_append_of_le_length (by simp; omega)]
        rfl
      rw [wordsFrom, if_pos hletter, ← hslice]
      apply ih (by omega) (by omega) _ hbefore hrest
      intro k hk hkn
      by_cases hlast : k = n
      · simpa [hlast, hget] using hletter
      · exact hletters k hk (by omega)
    · have hstop : text[n]?.any p = false := by simpa [hget] using hletter
      obtain ⟨run, hsingle, hordered, hmem, hbound⟩ := single_run hn hle hletters hbefore hstop
      have hempty : ∀ k, n + 1 ≤ k → k < n + 1 → text[k]?.any p = true := by omega
      have hbefore' : ∀ k, k + 1 = n + 1 → text[k]?.any p = false := by
        intro k hk
        rwa [Nat.succ_injective hk]
      obtain ⟨runs, hordered', hmem', hrest'⟩ := ih (by omega) le_rfl hempty hbefore' hrest
      have hnil : slice text (n + 1) (n + 1) = [] := by simp [slice]
      refine ⟨run ++ runs, ?_, fun r => ?_, ?_⟩
      · refine List.pairwise_append.mpr ⟨hordered, hordered', fun r hr s hs => ?_⟩
        have hle' := hbound r hr
        have hge := ((hmem' s).mp hs).2
        omega
      · rw [List.mem_append, hmem, hmem']
        constructor
        · rintro (⟨hrun, hi, -⟩ | ⟨hrun, hi⟩)
          · exact ⟨hrun, hi⟩
          · exact ⟨hrun, by omega⟩
        · rintro ⟨hrun, hi⟩
          have hne : r.1 ≠ n := by
            intro heq
            have hletter' := hrun.letters r.1 le_rfl hrun.nonempty
            rw [heq, hstop] at hletter'
            cases hletter'
          by_cases hbelow : r.1 < n
          · exact .inl ⟨hrun, hi, hbelow⟩
          · exact .inr ⟨hrun, by omega⟩
      · rw [wordsFrom, if_neg hletter, hsingle, ← hnil, hrest', List.map_append]

/-- The words of a text are its maximal runs of letters. -/
theorem words_runs (text : List α) :
    ∃ runs, Runs p text runs ∧ words p text = runs.map fun r => slice text r.1 r.2 := by
  have hempty : ∀ k, 0 ≤ k → k < 0 → text[k]?.any p = true := by omega
  have hbefore : ∀ k, k + 1 = 0 → text[k]?.any p = false := by omega
  obtain ⟨runs, hordered, hmem, hwords⟩ :=
    wordsFrom_runs (Nat.zero_le text.length) le_rfl hempty hbefore
  refine ⟨runs, ⟨hordered, fun r => ?_⟩, hwords⟩
  rw [hmem r]
  exact and_iff_left (Nat.zero_le _)

theorem of_mem_words {text word : List α} (h : word ∈ words p text) :
    word ≠ [] ∧ ∀ c ∈ word, p c = true := by
  obtain ⟨runs, hruns, hwords⟩ := words_runs (p := p) text
  rw [hwords] at h
  obtain ⟨⟨i, j⟩, hr, rfl⟩ := List.mem_map.mp h
  have hrun := (hruns.exact (i, j)).mp hr
  have hi := hrun.nonempty
  have hj : i < text.length := by
    by_contra hge
    have hletter := hrun.letters i le_rfl hi
    rw [List.getElem?_eq_none (by omega)] at hletter
    simp at hletter
  constructor
  · simp [slice]
    omega
  · intro c hc
    obtain ⟨k, hk, rfl⟩ := List.getElem_of_mem hc
    have hletter := hrun.letters (i + k) (by omega) (by simp [slice] at hk; omega)
    simp only [slice, List.getElem_drop, List.getElem_take]
    simp [slice] at hk
    rw [List.getElem?_eq_getElem (by omega)] at hletter
    simpa using hletter

end CppSearchServer.Library.Words
