import CppSearchServer.Library.Sorting
import CppSearchServer.Search.InvertedIndex
import Mathlib.Algebra.Field.Defs
import Mathlib.Data.Prod.Lex

/-! `search::SearchService`.
Scores are exact: `R` is any field with a linear order, and the logarithms are any
functions on it. Containers are iterated in any order, and the two sorting
functions are any that meet their contracts. -/

namespace CppSearchServer.Search

open Library Library.Sorting

/-- The pointer to the chunk is the chunk. -/
structure SearchResult (R : Type*) where
  chunk : DocumentChunk
  matchedTerms : Nat
  score : R
deriving DecidableEq

structure Candidate (R : Type*) where
  matchedTerms : Nat
  score : R

section

variable {R : Type*} [LinearOrder R]

def ranksHigher (left right : SearchResult R) : Bool :=
  if left.matchedTerms ≠ right.matchedTerms then left.matchedTerms > right.matchedTerms
  else if left.score ≠ right.score then left.score > right.score
  else left.chunk.id < right.chunk.id

/-- Matched terms descending, score descending, id ascending. -/
def rankKey (result : SearchResult R) : ℕᵒᵈ ×ₗ Rᵒᵈ ×ₗ ℕ :=
  toLex (OrderDual.toDual result.matchedTerms,
    toLex (OrderDual.toDual result.score, result.chunk.id))

theorem ranksHigher_iff (left right : SearchResult R) :
    ranksHigher left right = true ↔ rankKey left < rankKey right := by
  unfold ranksHigher rankKey
  simp only [Prod.Lex.toLex_lt_toLex, OrderDual.toDual_lt_toDual, EmbeddingLike.apply_eq_iff_eq]
  by_cases hm : left.matchedTerms = right.matchedTerms
  · by_cases hs : left.score = right.score
    · simp [hm, hs]
    · simp [hm, hs]
  · simp [hm]

instance : IsStrictWeakOrder (SearchResult R) fun left right => ranksHigher left right = true where
  irrefl a := by rw [ranksHigher_iff]; exact lt_irrefl _
  trans a b c hab hbc := by
    rw [ranksHigher_iff] at *
    exact lt_trans hab hbc
  incomp_trans a b c hab hbc := by
    simp only [ranksHigher_iff] at *
    have heq : rankKey a = rankKey b := le_antisymm (not_lt.mp hab.2) (not_lt.mp hab.1)
    exact heq ▸ hbc

theorem eq_of_not_ranksHigher {a b : SearchResult R} (hab : ¬ranksHigher a b = true)
    (hba : ¬ranksHigher b a = true) :
    a.matchedTerms = b.matchedTerms ∧ a.score = b.score ∧ a.chunk.id = b.chunk.id := by
  rw [ranksHigher_iff, not_lt] at hab hba
  have heq := le_antisymm hba hab
  simpa [rankKey, Prod.ext_iff] using heq

end

/-- What `search` uses of the standard library. -/
structure StandardLibrary (R : Type*) [LinearOrder R] where
  log : R → R
  log1p : R → R
  sort : SortAlgorithm fun left right : SearchResult R => ranksHigher left right = true
  partialSort : PartialSortAlgorithm fun left right : SearchResult R =>
    ranksHigher left right = true

structure SearchService where
  index : InvertedIndex
  chunksById : UnorderedMap Nat DocumentChunk
  documentCount : Nat

namespace SearchService

def new (chunks : List DocumentChunk) (index : InvertedIndex) : SearchService where
  index := index
  chunksById := chunks.foldl (fun byId chunk => byId.emplace chunk.id chunk) .empty
  documentCount := chunks.length

theorem find_chunksById (chunks : List DocumentChunk) (index : InvertedIndex) (id : Nat) :
    (new chunks index).chunksById.find id = chunks.find? fun chunk => chunk.id = id := by
  have hloop := UnorderedMap.find_foldl_emplace (chunks.map fun chunk => (chunk.id, chunk))
    .empty id
  rw [List.foldl_map] at hloop
  rw [new, hloop, UnorderedMap.find_empty, Option.none_or, UnorderedMap.firstValue,
    List.find?_map, Option.map_map]
  exact Option.map_id_apply

theorem find_chunksById_iff {chunks : List DocumentChunk} (index : InvertedIndex)
    (hids : (chunks.map (·.id)).Nodup) (id : Nat) (chunk : DocumentChunk) :
    (new chunks index).chunksById.find id = some chunk ↔ chunk ∈ chunks ∧ chunk.id = id := by
  rw [find_chunksById]
  constructor
  · intro h
    exact ⟨List.mem_of_find?_eq_some h, by simpa using List.find?_some h⟩
  · rintro ⟨hmem, rfl⟩
    cases h : chunks.find? fun other => other.id = chunk.id with
    | none =>
      rw [List.find?_eq_none] at h
      exact absurd (decide_eq_true rfl) (h chunk hmem)
    | some other =>
      have hid : other.id = chunk.id := by simpa using List.find?_some h
      rw [List.inj_on_of_nodup_map hids (List.mem_of_find?_eq_some h) hmem hid]

variable {R : Type*} [Field R] [LinearOrder R] (std : StandardLibrary R)

def weight (termFrequency postingsCount documentCount : Nat) : R :=
  let idf := std.log ((documentCount + 1) / (postingsCount + 1)) + 1
  std.log1p termFrequency * idf

def addTerm (s : SearchService) (candidates : UnorderedMap Nat (Candidate R)) (term : Bytes) :
    UnorderedMap Nat (Candidate R) :=
  match s.index.findTerm term with
  | none => candidates
  | some postings =>
    postings.foldl
      (fun candidates posting => candidates.update posting.chunkId ⟨0, 0⟩ fun candidate =>
        ⟨candidate.matchedTerms + 1, candidate.score +
          weight std posting.termFrequency postings.length s.documentCount⟩)
      candidates

def collect (candidateOrder : IterationOrder (Nat × Candidate R))
    (candidates : UnorderedMap Nat (Candidate R)) (s : SearchService) : List (SearchResult R) :=
  (candidateOrder.visit candidates.entries).filterMap fun entry =>
    (s.chunksById.find entry.1).map fun chunk => ⟨chunk, entry.2.matchedTerms, entry.2.score⟩

def search (termOrder : IterationOrder Bytes) (candidateOrder : IterationOrder (Nat × Candidate R))
    (query : Bytes) (topK : Nat) (s : SearchService) : List (SearchResult R) :=
  if topK = 0 ∨ s.documentCount = 0 then []
  else
    let uniqueTerms := (analyzeTerms query).dedup
    let candidates := (termOrder.visit uniqueTerms).foldl (s.addTerm std) .empty
    let results := s.collect candidateOrder candidates
    if results.length > topK then (std.partialSort.partialSort results topK).take topK
    else std.sort.sort results

end SearchService

end CppSearchServer.Search
