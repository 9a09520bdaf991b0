import CppSearchServer.Bytes
import CppSearchServer.Library.Words

/-! `search::tokenize` and `search::analyzeTerms`.
The scanning loop yields the words of the text in lower case, so what is known
about words of concatenated and trimmed texts carries over to the terms. A term is
its own only term, which is what lets the query side look up what was indexed. -/

namespace CppSearchServer.Search

open Library.Words

def isTokenCharacter (character : Byte) : Bool :=
  isalnum character || character = 0x2b || character = 0x5f

def stopWords : List Bytes :=
  ["a", "an", "and", "are", "as", "at", "be", "by", "for", "from",
   "in", "is", "of", "on", "or", "the", "to", "uses", "with"].map ascii

def tokenizeLoop (tokens : List Bytes) (currentToken : Bytes) : Bytes → List Bytes
  | [] => if currentToken.isEmpty then tokens else tokens ++ [currentToken]
  | character :: text =>
    if isTokenCharacter character then
      tokenizeLoop tokens (currentToken ++ [tolower character]) text
    else if currentToken.isEmpty then tokenizeLoop tokens currentToken text
    else tokenizeLoop (tokens ++ [currentToken]) [] text

def tokenize (text : Bytes) : List Bytes := tokenizeLoop [] [] text

def isTerm (token : Bytes) : Bool := !stopWords.contains token

def analyzeTerms (text : Bytes) : List Bytes := (tokenize text).filter isTerm

theorem tokenizeLoop_eq (tokens : List Bytes) (word text : Bytes) :
    tokenizeLoop tokens (word.map tolower) text =
      tokens ++ (wordsFrom isTokenCharacter word text).map (List.map tolower) := by
  induction text generalizing tokens word with
  | nil =>
    cases word <;> simp [tokenizeLoop, wordsFrom, single]
  | cons character text ih =>
    have hnil := fun tokens => ih tokens []
    have happend := ih tokens (word ++ [character])
    simp only [List.map_append, List.map_cons, List.map_nil] at happend hnil
    by_cases hc : isTokenCharacter character = true
    · simp only [tokenizeLoop, wordsFrom, if_pos hc, happend]
    · cases word with
      | nil => simp [tokenizeLoop, wordsFrom, hc, single, hnil]
      | cons c word =>
        rw [tokenizeLoop, if_neg hc, wordsFrom, if_neg hc]
        simp [hnil, single]

theorem tokenize_eq (text : Bytes) :
    tokenize text = (words isTokenCharacter text).map (List.map tolower) := by
  simpa [tokenize, words] using tokenizeLoop_eq [] [] text

@[simp] theorem analyzeTerms_nil : analyzeTerms [] = [] := rfl

theorem analyzeTerms_append {u v : Bytes} (h : Separated isTokenCharacter u v) :
    analyzeTerms (u ++ v) = analyzeTerms u ++ analyzeTerms v := by
  simp [analyzeTerms, tokenize_eq, words_append h]

theorem separated_of_not {c : Byte} (hc : isTokenCharacter c = false) (u v : Bytes) :
    Separated isTokenCharacter u (c :: v) := by
  rintro ⟨-, hhead⟩
  simp [hc] at hhead

theorem tokenize_cut (a b : Bytes) {c : Byte} (hc : isTokenCharacter c = false) :
    tokenize (a ++ c :: b) = tokenize a ++ tokenize b := by
  simp only [tokenize_eq, words_append (separated_of_not hc a b), words_cons_neg hc,
    List.map_append]

theorem analyzeTerms_cut (a b : Bytes) {c : Byte} (hc : isTokenCharacter c = false) :
    analyzeTerms (a ++ c :: b) = analyzeTerms a ++ analyzeTerms b := by
  simp only [analyzeTerms, tokenize_cut a b hc, List.filter_append]

theorem tolower_tolower (c : Byte) : tolower (tolower c) = tolower c :=
  forall_byte (P := fun c => tolower (tolower c) = tolower c) (by decide +kernel) c

theorem isTokenCharacter_tolower (c : Byte) :
    isTokenCharacter (tolower c) = isTokenCharacter c :=
  forall_byte (P := fun c => isTokenCharacter (tolower c) = isTokenCharacter c)
    (by decide +kernel) c

theorem tokenize_token {text token : Bytes} (h : token ∈ tokenize text) :
    tokenize token = [token] := by
  rw [tokenize_eq] at h
  obtain ⟨word, hword, rfl⟩ := List.mem_map.mp h
  obtain ⟨hne, hletters⟩ := of_mem_words hword
  have hall : ∀ c ∈ word.map tolower, isTokenCharacter c = true := by
    intro c hc
    obtain ⟨d, hd, rfl⟩ := List.mem_map.mp hc
    rw [isTokenCharacter_tolower]
    exact hletters d hd
  have hlower : (word.map tolower).map tolower = word.map tolower := by
    rw [List.map_map]
    exact List.map_congr_left fun c _ => tolower_tolower c
  rw [tokenize_eq, words_of_all (by simpa using hne) hall, List.map_singleton, hlower]

theorem analyzeTerms_term {text term : Bytes} (h : term ∈ analyzeTerms text) :
    analyzeTerms term = [term] := by
  obtain ⟨htoken, hterm⟩ := List.mem_filter.mp h
  rw [analyzeTerms, tokenize_token htoken, List.filter_cons_of_pos hterm, List.filter_nil]

theorem isTokenCharacter_of_isspace (c : Byte) (h : isspace c = true) :
    isTokenCharacter c = false := by
  simp only [isspace, Bool.or_eq_true, decide_eq_true_eq, Bool.and_eq_true,
    UInt8.le_iff_toNat_le, ← UInt8.toNat_inj] at h
  simp only [isTokenCharacter, isalnum, isdigit, isupper, islower, Bool.or_eq_false_iff,
    Bool.and_eq_false_iff, decide_eq_false_iff_not, UInt8.le_iff_toNat_le, ← UInt8.toNat_inj]
  simp at h ⊢
  omega

theorem stopWords_append : ∀ a ∈ stopWords, ∀ b ∈ stopWords, a ++ b ∉ stopWords := by
  decide +kernel

theorem filter_isTerm_join {a b : Bytes} (ha : a ≠ []) (hb : b ≠ []) :
    [a, b].filter isTerm ≠ [a ++ b].filter isTerm := by
  intro heq
  cases hta : isTerm a <;> cases htb : isTerm b <;> cases htab : isTerm (a ++ b) <;>
    simp [hta, htb, htab, ha, hb] at heq
  simp only [isTerm, Bool.not_eq_false', List.contains_iff_mem] at hta htb htab
  exact stopWords_append a hta b htb htab

/-- A letter that meets a letter merges two words, and that changes the terms. -/
theorem analyzeTerms_join {u v : Bytes} (hu : u.getLast?.any isTokenCharacter = true)
    (hv : v.head?.any isTokenCharacter = true) :
    analyzeTerms (u ++ v) ≠ analyzeTerms u ++ analyzeTerms v := by
  obtain ⟨before, w₁, w₂, after, hne₁, hne₂, hwu, hwv, hwuv⟩ := words_join hu hv
  intro heq
  have hmerged : [w₁.map tolower ++ w₂.map tolower].filter isTerm =
      [w₁.map tolower, w₂.map tolower].filter isTerm := by
    have hcons : ∀ (x : Bytes) l, (x :: l).filter isTerm = [x].filter isTerm ++ l.filter isTerm :=
      fun x l => by rw [← List.filter_append, List.singleton_append]
    simp only [analyzeTerms, tokenize_eq, hwu, hwv, hwuv, List.map_append,
      List.map_cons, List.map_nil, List.filter_append, List.append_assoc] at heq
    have hrest := List.append_cancel_left heq
    rw [hcons _ (after.map _), hcons (w₂.map _) (after.map _), ← List.append_assoc] at hrest
    rw [hcons (w₁.map _) [_]]
    exact List.append_cancel_right hrest
  exact filter_isTerm_join (by simp [hne₁]) (by simp [hne₂]) hmerged.symm

theorem analyzeTerms_append_iff {u v : Bytes} :
    analyzeTerms (u ++ v) = analyzeTerms u ++ analyzeTerms v ↔ Separated isTokenCharacter u v :=
  ⟨fun heq hboth => analyzeTerms_join hboth.1 hboth.2 heq, analyzeTerms_append⟩

end CppSearchServer.Search
