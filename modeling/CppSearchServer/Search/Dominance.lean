import CppSearchServer.Search.Retrieval
import Mathlib.Analysis.SpecialFunctions.Log.Basic
import Mathlib.Algebra.Order.BigOperators.Ring.Finset

/-! More is never worse. A passage that holds every word of the query at least as often as
another one has at least its words and at least its weight for each of them, so that it
is never ranked behind it for its contents. -/

namespace CppSearchServer.Search

open Library Library.Sorting

section

variable {R : Type*} [Field R] [LinearOrder R]

/-- What `std::log` and `std::log1p` have of the logarithm. -/
structure Logarithms (std : StandardLibrary R) : Prop where
  log_nonneg : ∀ x, 1 ≤ x → 0 ≤ std.log x
  log1p_lt : ∀ x y, 0 ≤ x → x < y → std.log1p x < std.log1p y

end

/-- Every term of the query stands at least as often in `better`. -/
def Dominates (query : Bytes) (better worse : DocumentChunk) : Prop :=
  ∀ term ∈ analyzeTerms query,
    (analyzeTerms worse.rawText).count term ≤ (analyzeTerms better.rawText).count term

def StrictlyDominates (query : Bytes) (better worse : DocumentChunk) : Prop :=
  Dominates query better worse ∧
    ((∃ term ∈ analyzeTerms query,
      (analyzeTerms worse.rawText).count term < (analyzeTerms better.rawText).count term) ∨
      better.id < worse.id)

instance (query : Bytes) (better worse : DocumentChunk) :
    Decidable (Dominates query better worse) :=
  inferInstanceAs (Decidable (∀ term ∈ analyzeTerms query,
    (analyzeTerms worse.rawText).count term ≤ (analyzeTerms better.rawText).count term))

instance (query : Bytes) (better worse : DocumentChunk) :
    Decidable (StrictlyDominates query better worse) :=
  inferInstanceAs (Decidable (_ ∧ ((∃ term ∈ analyzeTerms query,
    (analyzeTerms worse.rawText).count term < (analyzeTerms better.rawText).count term) ∨ _)))

theorem Dominates.sharedTerms_subset {query : Bytes} {better worse : DocumentChunk}
    (h : Dominates query better worse) : sharedTerms query worse ⊆ sharedTerms query better := by
  intro term hterm
  simp only [sharedTerms, Finset.mem_inter, List.mem_toFinset] at hterm ⊢
  have hcount := h term hterm.1
  have hpos := List.count_pos_iff.mpr hterm.2
  exact ⟨hterm.1, List.count_pos_iff.mp (by omega)⟩

section

variable {R : Type*} [Field R] [LinearOrder R] [IsStrictOrderedRing R] {std : StandardLibrary R}

theorem documentFrequency_le (chunks : List DocumentChunk) (term : Bytes) :
    documentFrequency chunks term ≤ chunks.length :=
  List.length_filter_le _ _

theorem Logarithms.weight_lt (h : Logarithms std) {postingsCount documentCount : Nat}
    (hle : postingsCount ≤ documentCount) {n m : Nat} (hlt : n < m) :
    SearchService.weight std n postingsCount documentCount <
      SearchService.weight std m postingsCount documentCount := by
  have hratio : (1 : R) ≤ ((documentCount : R) + 1) / (postingsCount + 1) := by
    rw [one_le_div (by positivity)]
    gcongr
  have hidf : 0 < std.log (((documentCount : R) + 1) / (postingsCount + 1)) + 1 :=
    add_pos_of_nonneg_of_pos (h.log_nonneg _ hratio) one_pos
  have hlog := h.log1p_lt (n : R) m (Nat.cast_nonneg n) (by exact_mod_cast hlt)
  exact mul_lt_mul_of_pos_right hlog hidf

theorem Logarithms.weight_le (h : Logarithms std) {postingsCount documentCount : Nat}
    (hle : postingsCount ≤ documentCount) {n m : Nat} (hnm : n ≤ m) :
    SearchService.weight std n postingsCount documentCount ≤
      SearchService.weight std m postingsCount documentCount := by
  rcases hnm.lt_or_eq with hlt | rfl
  · exact (h.weight_lt hle hlt).le
  · rfl

variable (chunks : List DocumentChunk) {query : Bytes} {better worse : DocumentChunk}

theorem Dominates.score_le (h : Dominates query better worse) (hlog : Logarithms std)
    (hshared : sharedTerms query worse = sharedTerms query better) :
    (bruteForceResult std chunks query worse).score ≤
      (bruteForceResult std chunks query better).score := by
  simp only [bruteForceResult_eq, hshared]
  refine Finset.sum_le_sum fun term hterm => ?_
  have hquery : term ∈ analyzeTerms query := by
    simp only [sharedTerms, Finset.mem_inter, List.mem_toFinset] at hterm
    exact hterm.1
  exact hlog.weight_le (documentFrequency_le chunks term) (h term hquery)

theorem Dominates.score_lt (h : Dominates query better worse) (hlog : Logarithms std)
    (hshared : sharedTerms query worse = sharedTerms query better) {term : Bytes}
    (hquery : term ∈ analyzeTerms query)
    (hlt : (analyzeTerms worse.rawText).count term < (analyzeTerms better.rawText).count term) :
    (bruteForceResult std chunks query worse).score <
      (bruteForceResult std chunks query better).score := by
  have hterm : term ∈ sharedTerms query better := by
    simp only [sharedTerms, Finset.mem_inter, List.mem_toFinset]
    exact ⟨hquery, List.count_pos_iff.mp (by omega)⟩
  simp only [bruteForceResult_eq, hshared]
  refine Finset.sum_lt_sum (fun term hterm => ?_) ⟨term, hterm, ?_⟩
  · have hquery : term ∈ analyzeTerms query := by
      simp only [sharedTerms, Finset.mem_inter, List.mem_toFinset] at hterm
      exact hterm.1
    exact hlog.weight_le (documentFrequency_le chunks term) (h term hquery)
  · exact hlog.weight_lt (documentFrequency_le chunks term) hlt

theorem StrictlyDominates.ranksHigher (h : StrictlyDominates query better worse)
    (hlog : Logarithms std) :
    ranksHigher (bruteForceResult std chunks query better)
      (bruteForceResult std chunks query worse) = true := by
  obtain ⟨hdominates, hstrict⟩ := h
  have hsubset := hdominates.sharedTerms_subset
  rw [ranksHigher_iff, rankKey, rankKey, Prod.Lex.toLex_lt_toLex, Prod.Lex.toLex_lt_toLex,
    OrderDual.toDual_lt_toDual, OrderDual.toDual_lt_toDual]
  rcases (Finset.card_le_card hsubset).lt_or_eq with hlt | heq
  · exact .inl hlt
  · have hshared := Finset.eq_of_subset_of_card_le hsubset heq.ge
    refine .inr ⟨congrArg OrderDual.toDual heq.symm, ?_⟩
    rcases hstrict with ⟨term, hquery, hlt⟩ | hid
    · exact .inl (hdominates.score_lt chunks hlog hshared hquery hlt)
    · refine (hdominates.score_le chunks hlog hshared).lt_or_eq.imp_right fun hscore => ?_
      exact ⟨congrArg OrderDual.toDual hscore.symm, hid⟩

end

namespace SearchApplication

variable {R : Type*} [Field R] [LinearOrder R] [IsStrictOrderedRing R]
  {platform app : SearchApplication R} {order : DocumentChunk → IterationOrder (Bytes × Nat)}
  {rootName fileError : Bytes} {root : DocumentsRoot}

/-- Wherever the worse passage is found, the better one is found before it. -/
theorem search_dominance (h : new platform order rootName fileError root = .ok app)
    (hlog : Logarithms platform.std) {query : Bytes} {topK : Nat} {better : DocumentChunk}
    {found : SearchResult R} (hbetter : better ∈ loadDocuments root.entries)
    (hfound : found ∈ app.search query topK)
    (hdominates : StrictlyDominates query better found.chunk) :
    ∃ first : SearchResult R, first.chunk = better ∧
      [first, found].Sublist (app.search query topK) := by
  obtain ⟨s, rest, -, hchunks, htop⟩ := search_loaded h query topK
  obtain ⟨worse, hworse, rfl⟩ := List.mem_map.mp (htop.subset hfound)
  have hshared : (sharedTerms query better).Nonempty :=
    (of_decide_eq_true (List.mem_filter.mp hworse).2).mono hdominates.1.sharedTerms_subset
  have hmatches : bruteForceResult platform.std s.chunks query better ∈
      matching platform.std s.chunks query :=
    List.mem_map_of_mem (List.mem_filter.mpr ⟨hchunks ▸ hbetter, decide_eq_true hshared⟩)
  exact ⟨_, rfl, htop.before hmatches hfound (hdominates.ranksHigher s.chunks hlog)⟩

noncomputable def realLibrary : StandardLibrary ℝ where
  log := Real.log
  log1p x := Real.log (1 + x)
  sort := insertionSort
  partialSort := insertionPartialSort

theorem realLibrary_logarithms : Logarithms realLibrary where
  log_nonneg _ h := Real.log_nonneg h
  log1p_lt _ _ hx hlt := Real.log_lt_log (by linarith) (by linarith)

noncomputable def realPlatform : SearchApplication ℝ where
  service := .new [] .empty
  std := realLibrary
  termOrder := SearchService.sampleOrder _
  candidateOrder := SearchService.sampleOrder _
  headerOrder := SearchService.sampleOrder _
  printScore _ := ascii "0"

def sampleTexts : List DirectoryEntry :=
  [⟨[ascii "a.txt"], true, ascii "lru", [ascii "a.txt"]⟩,
    ⟨[ascii "b.txt"], true, ascii "LRU and lru", [ascii "b.txt"]⟩]

noncomputable def realLoaded : SearchApplication ℝ :=
  { realPlatform with
    service := .new (loadDocuments (some sampleTexts))
      (.ofChunks (fun _ => SearchService.sampleOrder _) (loadDocuments (some sampleTexts))) }

def onceChunk : DocumentChunk :=
  ⟨0, ascii "a.txt", ascii "uncategorized", ascii "a", ascii "a", ascii "lru"⟩

def twiceChunk : DocumentChunk :=
  ⟨1, ascii "b.txt", ascii "uncategorized", ascii "b", ascii "b", ascii "LRU and lru"⟩

/-- The second text stands before the first. -/
theorem realLoaded_dominance :
    ∃ first found : SearchResult ℝ, first.chunk = twiceChunk ∧ found.chunk = onceChunk ∧
      [first, found].Sublist (realLoaded.search (ascii "lru cache") 5) := by
  have hloaded : new realPlatform (fun _ => SearchService.sampleOrder _) [] []
      (.directory sampleTexts) = .ok realLoaded := rfl
  have hchunks : loadDocuments (some sampleTexts) = [onceChunk, twiceChunk] := by decide +kernel
  have honce : onceChunk ∈ loadDocuments (some sampleTexts) := by simp [hchunks]
  have htwice : twiceChunk ∈ loadDocuments (some sampleTexts) := by simp [hchunks]
  have hdominates : StrictlyDominates (ascii "lru cache") twiceChunk onceChunk := by decide +kernel
  have hfound := mem_search hloaded (ascii "lru cache") 5 honce (by decide +kernel)
    (show (loadDocuments (some sampleTexts)).length < 5 by simp [hchunks])
  obtain ⟨first, hfirst, hbefore⟩ :=
    search_dominance hloaded realLibrary_logarithms htwice hfound hdominates
  exact ⟨first, _, hfirst, rfl, hbefore⟩

end SearchApplication

end CppSearchServer.Search
