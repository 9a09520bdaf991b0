import CppSearchServer.Search.SearchService
import Mathlib.Algebra.BigOperators.Group.Finset.Basic
import Mathlib.Algebra.Field.Rat
import Mathlib.Algebra.Order.Ring.Rat

/-! The brute-force answer to a query, and `SearchService::search` against it.
Every candidate ends up with the number of its shared terms and the sum of their
weights, whatever the order of the terms; the rest is sorting without ties. -/

namespace CppSearchServer.Search

open Library Library.Sorting

variable {R : Type*} [Field R] [LinearOrder R] (std : StandardLibrary R)

def sharedTerms (query : Bytes) (chunk : DocumentChunk) : Finset Bytes :=
  (analyzeTerms query).toFinset ∩ (analyzeTerms chunk.rawText).toFinset

def documentFrequency (chunks : List DocumentChunk) (term : Bytes) : Nat :=
  (chunks.filter fun chunk => (analyzeTerms chunk.rawText).contains term).length

def bruteForceResult (chunks : List DocumentChunk) (query : Bytes) (chunk : DocumentChunk) :
    SearchResult R :=
  ⟨chunk, (sharedTerms query chunk).card, ∑ term ∈ sharedTerms query chunk,
    std.log1p ((analyzeTerms chunk.rawText).count term) *
      (std.log ((chunks.length + 1) / (documentFrequency chunks term + 1)) + 1)⟩

def bruteForce (chunks : List DocumentChunk) (query : Bytes) (topK : Nat) :
    List (SearchResult R) :=
  let matching := chunks.filter fun chunk => (sharedTerms query chunk).Nonempty
  (rank (fun left right => rankKey left < rankKey right)
    (matching.map (bruteForceResult std chunks query))).take topK

theorem bruteForceResult_eq (chunks : List DocumentChunk) (query : Bytes) (chunk : DocumentChunk) :
    bruteForceResult std chunks query chunk =
      ⟨chunk, (sharedTerms query chunk).card, ∑ term ∈ sharedTerms query chunk,
        SearchService.weight std ((analyzeTerms chunk.rawText).count term)
          (documentFrequency chunks term) chunks.length⟩ := rfl

omit [Field R] in
theorem rank_ranksHigher (results : List (SearchResult R)) :
    rank (fun left right => ranksHigher left right = true) results =
      rank (fun left right => rankKey left < rankKey right) results := by
  simp only [rank, ranksHigher_iff]

namespace SearchService

def contributions (chunks : List DocumentChunk) (term : Bytes) : List (Nat × R) :=
  (InvertedIndex.scan term chunks).map fun posting =>
    (posting.chunkId, weight std posting.termFrequency
      (InvertedIndex.scan term chunks).length chunks.length)

theorem addTerm_eq {chunks : List DocumentChunk} {index : InvertedIndex}
    (h : InvertedIndex.Filled chunks index) (candidates : UnorderedMap Nat (Candidate R))
    (term : Bytes) :
    (new chunks index).addTerm std candidates term =
      (contributions std chunks term).foldl
        (fun candidates added => candidates.update added.1 ⟨0, 0⟩ fun candidate =>
          ⟨candidate.matchedTerms + 1, candidate.score + added.2⟩) candidates := by
  have hscan := h.findTerm term
  unfold addTerm contributions
  cases hfind : index.findTerm term with
  | none =>
    rw [hfind] at hscan
    simp [new, hfind, ← hscan]
  | some postings =>
    rw [hfind] at hscan
    obtain rfl : postings = InvertedIndex.scan term chunks := hscan
    simp [new, hfind, List.foldl_map]

theorem scan_length (term : Bytes) (chunks : List DocumentChunk) :
    (InvertedIndex.scan term chunks).length = documentFrequency chunks term := by
  rw [InvertedIndex.scan_eq, List.length_map, documentFrequency]
  simp only [List.contains_eq_mem]

theorem contributions_filter (term : Bytes) {chunks : List DocumentChunk}
    (hids : (chunks.map (·.id)).Nodup) {chunk : DocumentChunk} (hmem : chunk ∈ chunks) :
    ((contributions std chunks term).filter fun added => added.1 = chunk.id) =
      if term ∈ analyzeTerms chunk.rawText then
        [(chunk.id, weight std ((analyzeTerms chunk.rawText).count term)
          (documentFrequency chunks term) chunks.length)]
      else [] := by
  rw [contributions, List.filter_map, ← scan_length]
  simp only [Function.comp_def]
  rw [InvertedIndex.scan_filter term hids hmem]
  split <;> rfl

omit [LinearOrder R] in
theorem accumulate_loop (loop : List (Nat × R)) (v : Option (Candidate R)) :
    loop.foldl (fun v added => some
        ⟨(v.getD ⟨0, 0⟩).matchedTerms + 1, (v.getD ⟨0, 0⟩).score + added.2⟩) v =
      if loop = [] then v
      else some ⟨(v.getD ⟨0, 0⟩).matchedTerms + loop.length,
        (v.getD ⟨0, 0⟩).score + (loop.map Prod.snd).sum⟩ := by
  induction loop generalizing v with
  | nil => rfl
  | cons added loop ih =>
    rw [List.foldl_cons, ih]
    by_cases hnil : loop = []
    · simp [hnil]
    · simp only [hnil, if_false, reduceCtorEq, Option.getD_some, List.length_cons, List.map_cons,
        List.sum_cons, Option.some.injEq, Candidate.mk.injEq]
      exact ⟨by omega, add_assoc _ _ _⟩

def candidates (chunks : List DocumentChunk) (terms : List Bytes) :
    UnorderedMap Nat (Candidate R) :=
  (terms.flatMap (contributions std chunks)).foldl
    (fun candidates added => candidates.update added.1 ⟨0, 0⟩ fun candidate =>
      ⟨candidate.matchedTerms + 1, candidate.score + added.2⟩) .empty

theorem foldl_addTerm {chunks : List DocumentChunk} {index : InvertedIndex}
    (h : InvertedIndex.Filled chunks index) (terms : List Bytes) :
    terms.foldl ((new chunks index).addTerm std) .empty = candidates std chunks terms := by
  rw [candidates, List.foldl_flatMap]
  congr 1
  funext candidates term
  exact addTerm_eq std h candidates term

theorem find_candidates {chunks : List DocumentChunk} {terms : List Bytes}
    (hterms : terms.Nodup) (hids : (chunks.map (·.id)).Nodup) {chunk : DocumentChunk}
    (hmem : chunk ∈ chunks) :
    (candidates std chunks terms).find chunk.id =
      let shared := terms.toFinset ∩ (analyzeTerms chunk.rawText).toFinset
      if shared.Nonempty then
        some ⟨shared.card, ∑ term ∈ shared, weight std ((analyzeTerms chunk.rawText).count term)
          (documentFrequency chunks term) chunks.length⟩
      else none := by
  rw [candidates, UnorderedMap.find_foldl_update, List.filter_flatMap]
  simp only [contributions_filter std _ hids hmem]
  have hloop : ∀ w : Bytes → R, (terms.flatMap fun term =>
      if term ∈ analyzeTerms chunk.rawText then [(chunk.id, w term)] else []) =
        (terms.filter (· ∈ analyzeTerms chunk.rawText)).map fun term => (chunk.id, w term) := by
    intro w
    clear hterms
    induction terms with
    | nil => rfl
    | cons term terms ih =>
      by_cases hterm : term ∈ analyzeTerms chunk.rawText <;> simp [hterm, ih]
  have hshared : terms.toFinset ∩ (analyzeTerms chunk.rawText).toFinset =
      (terms.filter (· ∈ analyzeTerms chunk.rawText)).toFinset := by
    ext term
    simp
  have hnodup := hterms.filter (· ∈ analyzeTerms chunk.rawText)
  rw [hloop, accumulate_loop, hshared, List.toFinset_card_of_nodup hnodup,
    List.sum_toFinset _ hnodup]
  generalize terms.filter (· ∈ analyzeTerms chunk.rawText) = shared
  cases shared with
  | nil => simp
  | cons term shared => simp [Function.comp_def]

variable {chunks : List DocumentChunk} {index : InvertedIndex}

omit [Field R] [LinearOrder R] in
theorem collect_nodup (hids : (chunks.map (·.id)).Nodup)
    (candidateOrder : IterationOrder (Nat × Candidate R))
    (candidates : UnorderedMap Nat (Candidate R)) :
    ((new chunks index).collect candidateOrder candidates).Nodup := by
  refine (candidates.visit_nodup candidateOrder).filterMap ?_
  rintro ⟨id, candidate⟩ ⟨id', candidate'⟩ result hmem hmem'
  obtain ⟨chunk, hchunk, rfl⟩ := Option.map_eq_some_iff.mp hmem
  obtain ⟨chunk', hchunk', heq⟩ := Option.map_eq_some_iff.mp hmem'
  obtain ⟨rfl, hmatched, hscore⟩ := by simpa using heq
  have hid := ((find_chunksById_iff index hids id chunk').mp hchunk).2
  have hid' := ((find_chunksById_iff index hids id' chunk').mp hchunk').2
  obtain ⟨matched, score⟩ := candidate
  obtain ⟨matched', score'⟩ := candidate'
  simp_all

theorem collect_perm {query : Bytes} {terms : List Bytes} (hids : (chunks.map (·.id)).Nodup)
    (hterms : terms.Perm (analyzeTerms query).dedup)
    (candidateOrder : IterationOrder (Nat × Candidate R)) :
    ((new chunks index).collect candidateOrder (candidates std chunks terms)).Perm
      ((chunks.filter fun chunk => (sharedTerms query chunk).Nonempty).map
        (bruteForceResult std chunks query)) := by
  have hnodup : terms.Nodup := hterms.nodup_iff.mpr (List.nodup_dedup _)
  have hfinset : terms.toFinset = (analyzeTerms query).toFinset := by
    ext term
    simp [hterms.mem_iff]
  have hinjective : Function.Injective (bruteForceResult std chunks query) := fun a b heq =>
    congrArg SearchResult.chunk heq
  rw [List.perm_ext_iff_of_nodup (collect_nodup hids candidateOrder _)
    ((hids.of_map.filter _).map hinjective)]
  intro result
  simp only [collect, List.mem_filterMap, List.mem_map, List.mem_filter, decide_eq_true_eq,
    Prod.exists, UnorderedMap.mem_visit_iff, Option.map_eq_some_iff]
  constructor
  · rintro ⟨id, candidate, hcandidate, chunk, hchunk, rfl⟩
    obtain ⟨hmem, rfl⟩ := (find_chunksById_iff index hids id chunk).mp hchunk
    rw [find_candidates std hnodup hids hmem, hfinset] at hcandidate
    obtain ⟨hshared, hcandidate⟩ := Option.ite_none_right_eq_some.mp hcandidate
    cases hcandidate
    exact ⟨chunk, ⟨hmem, hshared⟩, rfl⟩
  · rintro ⟨chunk, ⟨hmem, hshared⟩, rfl⟩
    refine ⟨chunk.id, ⟨(bruteForceResult std chunks query chunk).matchedTerms,
      (bruteForceResult std chunks query chunk).score⟩, ?_, chunk,
      (find_chunksById_iff index hids _ _).mpr ⟨hmem, rfl⟩, rfl⟩
    rw [find_candidates std hnodup hids hmem, hfinset]
    exact if_pos hshared

theorem tieFree (hids : (chunks.map (·.id)).Nodup) (query : Bytes) :
    TieFree (fun left right => ranksHigher left right = true)
      ((chunks.filter fun chunk => (sharedTerms query chunk).Nonempty).map
        (bruteForceResult std chunks query)) := by
  intro a ha b hb hab hba
  obtain ⟨chunk, hchunk, rfl⟩ := List.mem_map.mp ha
  obtain ⟨chunk', hchunk', rfl⟩ := List.mem_map.mp hb
  have hid := (eq_of_not_ranksHigher hab hba).2.2
  rw [List.inj_on_of_nodup_map hids (List.mem_of_mem_filter hchunk)
    (List.mem_of_mem_filter hchunk') hid]

theorem search_eq_bruteForce {chunks : List DocumentChunk} {index : InvertedIndex}
    (hids : (chunks.map (·.id)).Nodup) (hfilled : InvertedIndex.Filled chunks index)
    (termOrder : IterationOrder Bytes) (candidateOrder : IterationOrder (Nat × Candidate R))
    (query : Bytes) (topK : Nat) :
    (new chunks index).search std termOrder candidateOrder query topK =
      bruteForce std chunks query topK := by
  have hperm : ((new chunks index).collect candidateOrder
      (candidates std chunks (termOrder.visit (analyzeTerms query).dedup))).Perm _ :=
    collect_perm std hids (termOrder.perm (analyzeTerms query).dedup) candidateOrder
  have htie := (tieFree std hids query).of_perm hperm
  unfold search bruteForce
  split
  · rename_i hempty
    rcases hempty with htop | hcount
    · rw [htop, List.take_zero]
    · obtain rfl : chunks = [] := List.length_eq_zero_iff.mp hcount
      simp [rank]
  · dsimp only
    rw [foldl_addTerm std hfilled, ← rank_ranksHigher,
      ← rank_congr (tieFree std hids query) hperm]
    split
    · rename_i hlong
      exact std.partialSort.take_eq (le_of_lt hlong) htie
    · rename_i hshort
      rw [std.sort.sort_eq htie, List.take_of_length_le]
      rw [(rank_perm _).length_eq]
      exact not_lt.mp hshort

/-- A corpus of two chunks, indexed and sorted by insertion, with rational scores. -/
def sampleChunks : List DocumentChunk :=
  [⟨7, [], [], [], [], ascii "Epoll and epoll"⟩, ⟨3, [], [], [], [], ascii "LRU cache"⟩]

def sampleOrder (α : Type*) : IterationOrder α := ⟨List.reverse, List.reverse_perm⟩

def sampleIndex : InvertedIndex :=
  sampleChunks.foldl (fun index chunk => index.addChunk (sampleOrder _) chunk) .empty

def sampleLibrary : StandardLibrary ℚ := ⟨id, id, insertionSort, insertionPartialSort⟩

theorem sampleIndex_filled : InvertedIndex.Filled sampleChunks sampleIndex :=
  .addChunk (sampleOrder _) _ (.addChunk (sampleOrder _) _ .empty)

theorem sample_search_eq_bruteForce :
    (new sampleChunks sampleIndex).search sampleLibrary (sampleOrder _) (sampleOrder _)
        (ascii "cache epoll") 1 =
      bruteForce sampleLibrary sampleChunks (ascii "cache epoll") 1 :=
  search_eq_bruteForce sampleLibrary (by decide) sampleIndex_filled _ _ _ _

end SearchService

end CppSearchServer.Search
