import Mathlib.Data.List.Basic

/-! Items with levels, as the headings of a text: what encloses an item, and what a
stack holds that is cut by depth instead. Lists are read backwards, the latest item
first; an item of a list stands between those `after` it and those `before` it. -/

namespace CppSearchServer.Library.Outline

variable {α : Type*}

section

variable (level : α → Nat)

/-- From an item of level `n`, step by step to the nearest item of smaller level. -/
def enclosing (n : Nat) : List α → List α
  | [] => []
  | item :: before =>
    if level item < n then item :: enclosing (level item) before else enclosing n before

def chain : List α → List α
  | [] => []
  | item :: before => item :: enclosing level (level item) before

/-- An item of level `n` is put on a stack cut to `n - 1` items; the top is last. -/
def stack : List α → List α
  | [] => []
  | item :: before => (stack before).take (level item - 1) ++ [item]

/-- Levels and places alone: `n` is no more than the number of items, and no more than
the level of an item and the number of items after it. -/
def Within (n : Nat) (items : List α) : Prop :=
  n ≤ items.length ∧ ∀ m item, items[m]? = some item → n ≤ level item + m

end

def Everywhere (P : List α → α → List α → Prop) (after rest : List α) : Prop :=
  ∀ xs item before, rest = xs ++ item :: before → P (after ++ xs) item before

theorem everywhere_nil (P : List α → α → List α → Prop) (after : List α) :
    Everywhere P after [] := by
  intro xs item before hsplit
  simp at hsplit

theorem everywhere_cons {P : List α → α → List α → Prop} {after before : List α} {item : α} :
    Everywhere P after (item :: before) ↔
      P after item before ∧ Everywhere P (after ++ [item]) before := by
  constructor
  · intro h
    refine ⟨by simpa using h [] item before rfl, fun xs item' before' hsplit => ?_⟩
    simpa using h (item :: xs) item' before' (by rw [hsplit, List.cons_append])
  · rintro ⟨hitem, hbefore⟩ xs item' before' hsplit
    cases xs with
    | nil =>
      obtain ⟨rfl, rfl⟩ := List.cons.inj hsplit
      simpa using hitem
    | cons x xs =>
      obtain ⟨rfl, hrest⟩ := List.cons.inj hsplit
      simpa using hbefore xs item' before' hrest

def select (p : List α → α → List α → Prop) [∀ after item before, Decidable (p after item before)]
    (after : List α) : List α → List α
  | [] => []
  | item :: before =>
    (if p after item before then [item] else []) ++ select p (after ++ [item]) before

section

variable {p q : List α → α → List α → Prop} [∀ after item before, Decidable (p after item before)]
  [∀ after item before, Decidable (q after item before)]

theorem select_sublist (hpq : ∀ after item before, p after item before → q after item before)
    (after rest : List α) : (select p after rest).Sublist (select q after rest) := by
  induction rest generalizing after with
  | nil => exact List.Sublist.refl _
  | cons item before ih =>
    refine List.Sublist.append ?_ (ih _)
    by_cases hp : p after item before
    · rw [if_pos hp, if_pos (hpq _ _ _ hp)]
    · rw [if_neg hp]
      exact List.nil_sublist _

theorem select_eq_iff (hpq : ∀ after item before, p after item before → q after item before)
    (after rest : List α) : select p after rest = select q after rest ↔
      Everywhere (fun after item before => q after item before → p after item before)
        after rest := by
  induction rest generalizing after with
  | nil => exact iff_of_true rfl (everywhere_nil _ _)
  | cons item before ih =>
    rw [everywhere_cons, ← ih, select, select]
    by_cases hp : p after item before
    · simp [hp, hpq _ _ _ hp]
    · by_cases hq : q after item before
      · have hlength := (select_sublist hpq (after ++ [item]) before).length_le
        refine iff_of_false (fun heq => ?_) fun h => hp (h.1 hq)
        simp only [if_neg hp, if_pos hq, List.nil_append, List.singleton_append] at heq
        rw [heq, List.length_cons] at hlength
        omega
      · simp [hp, hq]

theorem filter_select (f : α → Prop) [DecidablePred f] (after rest : List α) :
    (select p after rest).filter f =
      select (fun after item before => p after item before ∧ f item) after rest := by
  induction rest generalizing after with
  | nil => rfl
  | cons item before ih =>
    rw [select, select, List.filter_append, ih]
    by_cases hp : p after item before
    · by_cases hf : f item <;> simp [hp, hf]
    · simp [hp]

end

variable (level : α → Nat)

def Open (after : List α) (item : α) (_before : List α) : Prop :=
  ∀ later ∈ after, level item < level later

/-- No later item cuts the stack down to this one. -/
def Kept (after : List α) (item : α) (before : List α) : Prop :=
  ∀ later ∈ after, (stack level (item :: before)).length < level later

instance decidableOpen (after : List α) (item : α) (before : List α) :
    Decidable (Open level after item before) :=
  inferInstanceAs (Decidable (∀ later ∈ after, _))

instance decidableKept (after : List α) (item : α) (before : List α) :
    Decidable (Kept level after item before) :=
  inferInstanceAs (Decidable (∀ later ∈ after, _))

variable {level}

theorem enclosing_eq_select (n : Nat) (after : List α) (hle : ∀ later ∈ after, n ≤ level later)
    (hmin : ∃ later ∈ after, level later = n) (rest : List α) :
    enclosing level n rest = select (Open level) after rest := by
  induction rest generalizing after n with
  | nil => rfl
  | cons item before ih =>
    rw [enclosing, select]
    by_cases hlt : level item < n
    · have hopen : Open level after item before := fun later hlater =>
        Nat.lt_of_lt_of_le hlt (hle later hlater)
      rw [if_pos hlt, if_pos hopen, List.singleton_append,
        ih (level item) (after ++ [item]) ?_ ⟨item, by simp, rfl⟩]
      intro later hlater
      rcases List.mem_append.mp hlater with hlater | hlater
      · exact Nat.le_of_lt (hopen later hlater)
      · exact (List.mem_singleton.mp hlater) ▸ Nat.le_refl _
    · obtain ⟨latest, hlatest, hn⟩ := hmin
      have hclosed : ¬Open level after item before := fun hopen =>
        hlt (hn ▸ hopen latest hlatest)
      rw [if_neg hlt, if_neg hclosed, List.nil_append]
      refine ih n _ (fun later hlater => ?_) ⟨latest, by simp [hlatest], hn⟩
      rcases List.mem_append.mp hlater with hlater | hlater
      · exact hle later hlater
      · rw [List.mem_singleton.mp hlater]
        exact Nat.le_of_not_lt hlt

theorem chain_eq_select (items : List α) : chain level items = select (Open level) [] items := by
  cases items with
  | nil => rfl
  | cons item before =>
    have hopen : Open level [] item before := by simp [Open]
    rw [chain, select, if_pos hopen, List.singleton_append,
      enclosing_eq_select (level item) ([] ++ [item]) (by simp) ⟨item, by simp, rfl⟩]

def cut (level : α → Nat) (after items : List α) : List α :=
  after.foldr (fun later items => items.take (level later - 1)) items

theorem cut_of_forall {after items : List α} (h : ∀ later ∈ after, items.length < level later) :
    cut level after items = items := by
  induction after with
  | nil => rfl
  | cons later after ih =>
    have hlater := h later (by simp)
    have hrest := ih fun later hlater => h later (by simp [hlater])
    rw [cut, List.foldr_cons, ← cut, hrest, List.take_of_length_le (by omega)]

theorem cut_concat (after items : List α) (item : α) :
    cut level after (items ++ [item]) = cut level after items ++
      if ∀ later ∈ after, items.length + 1 < level later then [item] else [] := by
  induction after with
  | nil => simp [cut]
  | cons later after ih =>
    have hcons : ∀ items, cut level (later :: after) items =
      (cut level after items).take (level later - 1) := fun _ => rfl
    rw [hcons, hcons, ih]
    by_cases hafter : ∀ later ∈ after, items.length + 1 < level later
    · have hwhole : cut level after items = items :=
        cut_of_forall fun later hlater => Nat.lt_of_succ_lt (hafter later hlater)
      rw [if_pos hafter, hwhole, List.take_append]
      congr 1
      by_cases hlater : items.length + 1 < level later
      · rw [if_pos (by simpa using ⟨hlater, hafter⟩), List.take_of_length_le]
        simp
        omega
      · rw [if_neg (by simp [hlater]), show level later - 1 - items.length = 0 by omega,
          List.take_zero]
    · rw [if_neg hafter, if_neg fun h => hafter fun later hlater => h later (by simp [hlater])]
      simp

theorem cut_stack (after rest : List α) :
    cut level after (stack level rest) = (select (Kept level) after rest).reverse := by
  induction rest generalizing after with
  | nil =>
    rw [stack, select, List.reverse_nil]
    induction after with
    | nil => rfl
    | cons later after ih => rw [cut, List.foldr_cons, ← cut, ih, List.take_nil]
  | cons item before ih =>
    have hnext : cut level after ((stack level before).take (level item - 1)) =
        cut level (after ++ [item]) (stack level before) := by
      simp [cut]
    rw [stack, cut_concat, hnext, ih, select, List.reverse_append]
    congr 1
    by_cases hkept : Kept level after item before
    · rw [if_pos hkept, if_pos (by simpa [Kept, stack] using hkept), List.reverse_singleton]
    · rw [if_neg hkept, if_neg (by simpa [Kept, stack] using hkept), List.reverse_nil]

theorem stack_eq_select (items : List α) :
    stack level items = (select (Kept level) [] items).reverse :=
  cut_stack [] items

section

variable (hpos : ∀ item, 0 < level item)

include hpos

theorem le_length_stack_iff (n : Nat) (items : List α) :
    n ≤ (stack level items).length ↔ Within level n items := by
  induction items generalizing n with
  | nil => simp [stack, Within]
  | cons item before ih =>
    have hitem := hpos item
    have hlength : n ≤ (stack level (item :: before)).length ↔
        n ≤ level item ∧ n - 1 ≤ (stack level before).length := by
      simp [stack]
      omega
    rw [hlength, ih, Within, Within, List.length_cons]
    constructor
    · rintro ⟨hle, hplace, hbefore⟩
      refine ⟨by omega, fun m item' hget => ?_⟩
      cases m with
      | zero => simpa using (Option.some.inj hget) ▸ hle
      | succ m =>
        have := hbefore m item' (by simpa using hget)
        omega
    · rintro ⟨hplace, hbefore⟩
      refine ⟨by simpa using hbefore 0 item rfl, by omega, fun m item' hget => ?_⟩
      have := hbefore (m + 1) item' (by simpa using hget)
      omega

theorem Open.kept {after : List α} {item : α} {before : List α}
    (h : Open level after item before) : Kept level after item before := by
  intro later hlater
  have hdepth : (stack level (item :: before)).length ≤ level item := by
    have := hpos item
    simp [stack]
    omega
  exact Nat.lt_of_le_of_lt hdepth (h later hlater)

theorem chain_sublist_stack (items : List α) :
    (chain level items).reverse.Sublist (stack level items) := by
  rw [stack_eq_select, chain_eq_select]
  exact (select_sublist (fun _ _ _ h => h.kept hpos) [] items).reverse

/-- Of the items that matter, the stack holds those of the chain and no others exactly
if each that a later item closes, by its level, is also cut off by a later item. -/
theorem filter_stack_eq_iff (f : α → Prop) [DecidablePred f] (items : List α) :
    (stack level items).filter f = ((chain level items).filter f).reverse ↔
      Everywhere (fun after item before => f item →
        (∃ later ∈ after, level later ≤ level item) →
        ∃ later ∈ after, Within level (level later) (item :: before)) [] items := by
  have hselect := select_eq_iff
    (p := fun after item before => Open level after item before ∧ f item)
    (q := fun after item before => Kept level after item before ∧ f item)
    (fun after item before h => ⟨h.1.kept hpos, h.2⟩) [] items
  rw [stack_eq_select, chain_eq_select, List.filter_reverse, List.reverse_inj, filter_select,
    filter_select, eq_comm, hselect]
  have hiff : ∀ (after : List α) (item : α) (before : List α),
      (Kept level after item before ∧ f item → Open level after item before ∧ f item) ↔
      (f item → (∃ later ∈ after, level later ≤ level item) →
        ∃ later ∈ after, Within level (level later) (item :: before)) := by
    intro after item before
    have hopen : Open level after item before ↔ ¬∃ later ∈ after, level later ≤ level item := by
      simp [Open]
    have hkept : Kept level after item before ↔
        ¬∃ later ∈ after, Within level (level later) (item :: before) := by
      simp [Kept, ← le_length_stack_iff hpos]
    rw [hopen, hkept]
    by_cases hf : f item
    · simp only [hf, and_true, true_imp_iff, not_imp_not]
    · simp only [hf, and_false, false_imp_iff]
  simp only [hiff]

end

end CppSearchServer.Library.Outline
