import CppSearchServer.Library.UnorderedMap
import CppSearchServer.Search.MarkdownChunker

/-! `search::InvertedIndex`. After any number of `addChunk` calls, and whatever the
iteration orders, the postings of a term are those of a scan over the chunks: one for
each chunk that has the term, in order of addition. A term under which postings are found
is the only term of itself as a query. -/

namespace CppSearchServer.Search

open Library Library.Words

structure Posting where
  chunkId : Nat
  termFrequency : Nat
deriving DecidableEq, Repr

structure InvertedIndex where
  postingsByTerm : UnorderedMap Bytes (List Posting)

namespace InvertedIndex

def empty : InvertedIndex := ⟨.empty⟩

def termFrequencies (tokens : List Bytes) : UnorderedMap Bytes Nat :=
  tokens.foldl (fun frequencies token => frequencies.update token 0 (· + 1)) .empty

def addChunk (order : IterationOrder (Bytes × Nat)) (chunk : DocumentChunk)
    (index : InvertedIndex) : InvertedIndex :=
  let tokens := analyzeTerms chunk.rawText
  ⟨(order.visit (termFrequencies tokens).entries).foldl
    (fun postings pair => postings.update pair.1 [] (· ++ [⟨chunk.id, pair.2⟩]))
    index.postingsByTerm⟩

/-- `none` stands for the null pointer. -/
def findTerm (index : InvertedIndex) (normalizedTerm : Bytes) : Option (List Posting) :=
  index.postingsByTerm.find normalizedTerm

/-- One `addChunk` for every chunk, each with an iteration order of its own. -/
inductive Filled : List DocumentChunk → InvertedIndex → Prop where
  | empty : Filled [] empty
  | addChunk {chunks : List DocumentChunk} {index : InvertedIndex}
      (order : IterationOrder (Bytes × Nat)) (chunk : DocumentChunk) :
      Filled chunks index → Filled (chunks ++ [chunk]) (index.addChunk order chunk)

def scan (term : Bytes) (chunks : List DocumentChunk) : List Posting :=
  chunks.filterMap fun chunk =>
    if term ∈ analyzeTerms chunk.rawText then
      some ⟨chunk.id, (analyzeTerms chunk.rawText).count term⟩
    else none

theorem count_loop (loop : List Bytes) (v : Option Nat) :
    loop.foldl (fun v _ => some (v.getD 0 + 1)) v =
      if loop = [] then v else some (v.getD 0 + loop.length) := by
  induction loop generalizing v with
  | nil => rfl
  | cons token loop ih =>
    rw [List.foldl_cons, ih]
    by_cases hnil : loop = []
    · simp [hnil]
    · simp [hnil, Nat.add_assoc, Nat.add_comm 1]

theorem find_termFrequencies (tokens : List Bytes) (term : Bytes) :
    (termFrequencies tokens).find term =
      if term ∈ tokens then some (tokens.count term) else none := by
  rw [termFrequencies, UnorderedMap.find_foldl_update, count_loop]
  have hcount : (tokens.filter fun token => token = term).length = tokens.count term := by
    rw [List.count_eq_length_filter]
    refine congrArg List.length (List.filter_congr fun token _ => ?_)
    by_cases htoken : token = term <;> simp [htoken]
  by_cases hmem : term ∈ tokens
  · rw [if_neg (by simpa using hmem), if_pos hmem, hcount]
    simp
  · have hnone : (tokens.filter fun token => token = term) = [] := by
      rw [List.filter_eq_nil_iff]
      intro token ht heq
      exact hmem (of_decide_eq_true heq ▸ ht)
    rw [if_pos hnone, if_neg hmem, UnorderedMap.find_empty]

theorem findTerm_addChunk (order : IterationOrder (Bytes × Nat)) (chunk : DocumentChunk)
    (index : InvertedIndex) (term : Bytes) :
    (index.addChunk order chunk).findTerm term =
      if term ∈ analyzeTerms chunk.rawText then
        some ((index.findTerm term).getD [] ++
          [⟨chunk.id, (analyzeTerms chunk.rawText).count term⟩])
      else index.findTerm term := by
  simp only [findTerm, addChunk]
  rw [UnorderedMap.find_foldl_update, UnorderedMap.filter_visit, find_termFrequencies]
  split <;> simp

theorem Filled.findTerm {chunks : List DocumentChunk} {index : InvertedIndex}
    (h : Filled chunks index) (term : Bytes) :
    (index.findTerm term).getD [] = scan term chunks := by
  induction h with
  | empty => rfl
  | addChunk order chunk _ ih =>
    rw [findTerm_addChunk, scan, List.filterMap_append, ← scan, ← ih]
    by_cases hmem : term ∈ analyzeTerms chunk.rawText <;> simp [hmem]

theorem Filled.analyzeTerms_indexed {chunks : List DocumentChunk} {index : InvertedIndex}
    (h : Filled chunks index) {term : Bytes} (hterm : (index.findTerm term).isSome = true) :
    analyzeTerms term = [term] := by
  induction h with
  | empty => cases hterm
  | addChunk order chunk _ ih =>
    rw [findTerm_addChunk] at hterm
    by_cases hmem : term ∈ analyzeTerms chunk.rawText
    · exact analyzeTerms_term hmem
    · exact ih (by simpa [hmem] using hterm)

theorem scan_filter_of_notMem (term : Bytes) {chunks : List DocumentChunk} {id : Nat}
    (hid : id ∉ chunks.map (·.id)) :
    ((scan term chunks).filter fun posting => posting.chunkId = id) = [] := by
  rw [List.filter_eq_nil_iff]
  intro posting hmem heq
  obtain ⟨chunk, hchunk, hsome⟩ := List.mem_filterMap.mp hmem
  obtain ⟨-, hsome⟩ := Option.ite_none_right_eq_some.mp hsome
  cases hsome
  exact hid (List.mem_map.mpr ⟨chunk, hchunk, of_decide_eq_true heq⟩)

/-- With distinct ids, a chunk has one posting under each of its terms. -/
theorem scan_filter (term : Bytes) {chunks : List DocumentChunk} (hids : (chunks.map (·.id)).Nodup)
    {chunk : DocumentChunk} (hmem : chunk ∈ chunks) :
    ((scan term chunks).filter fun posting => posting.chunkId = chunk.id) =
      if term ∈ analyzeTerms chunk.rawText then
        [⟨chunk.id, (analyzeTerms chunk.rawText).count term⟩]
      else [] := by
  induction chunks with
  | nil => cases hmem
  | cons first chunks ih =>
    rw [List.map_cons, List.nodup_cons] at hids
    have hcons : scan term (first :: chunks) =
        (if term ∈ analyzeTerms first.rawText then
          [⟨first.id, (analyzeTerms first.rawText).count term⟩] else []) ++
            scan term chunks := by
      by_cases hterm : term ∈ analyzeTerms first.rawText <;> simp [scan, hterm]
    rw [hcons, List.filter_append]
    rcases List.mem_cons.mp hmem with rfl | hmem
    · rw [scan_filter_of_notMem term hids.1, List.append_nil]
      split <;> simp
    · have hne : ¬first.id = chunk.id := fun heq =>
        hids.1 (heq ▸ List.mem_map.mpr ⟨chunk, hmem, rfl⟩)
      rw [ih hids.2 hmem]
      split <;> simp [hne]

theorem scan_eq (term : Bytes) (chunks : List DocumentChunk) :
    scan term chunks = (chunks.filter fun chunk => term ∈ analyzeTerms chunk.rawText).map
      fun chunk => ⟨chunk.id, (analyzeTerms chunk.rawText).count term⟩ := by
  induction chunks with
  | nil => rfl
  | cons chunk chunks ih =>
    rw [scan] at ih ⊢
    by_cases hterm : term ∈ analyzeTerms chunk.rawText <;> simp [hterm, ih]

theorem Filled.findTerm_eq_none_iff {chunks : List DocumentChunk} {index : InvertedIndex}
    (h : Filled chunks index) (term : Bytes) :
    index.findTerm term = none ↔ ∀ chunk ∈ chunks, term ∉ analyzeTerms chunk.rawText := by
  induction h with
  | empty => exact iff_of_true rfl (by simp)
  | addChunk order chunk _ ih =>
    rw [findTerm_addChunk, List.forall_mem_append, List.forall_mem_singleton]
    by_cases hterm : term ∈ analyzeTerms chunk.rawText <;> simp [hterm, ih]

/-- There is no list under a term that no chunk has. Otherwise the list follows the order
of addition, and each chunk with the term has one posting in it. -/
structure PostingsExact (chunks : List DocumentChunk) (index : InvertedIndex) (term : Bytes) :
    Prop where
  null : index.findTerm term = none ↔ ∀ chunk ∈ chunks, term ∉ analyzeTerms chunk.rawText
  in_order : ∀ postings, index.findTerm term = some postings →
    postings = (chunks.filter fun chunk => term ∈ analyzeTerms chunk.rawText).map
      fun chunk => ⟨chunk.id, (analyzeTerms chunk.rawText).count term⟩
  one_each : ∀ postings, index.findTerm term = some postings → ∀ chunk ∈ chunks,
    postings.filter (fun posting => posting.chunkId = chunk.id) =
      if term ∈ analyzeTerms chunk.rawText then
        [⟨chunk.id, (analyzeTerms chunk.rawText).count term⟩]
      else []

theorem findTerm_exact {chunks : List DocumentChunk} {index : InvertedIndex}
    (h : Filled chunks index) (hids : (chunks.map (·.id)).Nodup) (term : Bytes) :
    PostingsExact chunks index term := by
  have hscan : ∀ postings, index.findTerm term = some postings → postings = scan term chunks := by
    intro postings hfind
    rw [← h.findTerm, hfind, Option.getD_some]
  refine ⟨h.findTerm_eq_none_iff term, ?_, ?_⟩
  · intro postings hfind
    rw [hscan postings hfind, scan_eq]
  · intro postings hfind chunk hmem
    rw [hscan postings hfind, scan_filter term hids hmem]

def epollChunks : List DocumentChunk :=
  [⟨0, ascii "projects/a.md", ascii "projects", ascii "A", ascii "A > Network",
      ascii "EPOLL uses epoll."⟩,
    ⟨1, ascii "projects/b.md", ascii "projects", ascii "B", ascii "B > Loop",
      ascii "EventLoop uses epoll."⟩]

def epollIndex : InvertedIndex :=
  (empty.addChunk ⟨id, fun _ => .refl _⟩ epollChunks[0]).addChunk
    ⟨List.reverse, List.reverse_perm⟩ epollChunks[1]

theorem epollIndex_exact :
    epollIndex.findTerm (ascii "epoll") = some [⟨0, 2⟩, ⟨1, 1⟩] ∧
      PostingsExact epollChunks epollIndex (ascii "epoll") :=
  ⟨by decide, findTerm_exact (.addChunk _ _ (.addChunk _ _ .empty)) (by decide) _⟩

end InvertedIndex

/-- Tokens are the maximal runs in lower case, a separator splits them, and a term is
the one term of itself, so that a query for it looks up exactly what was indexed. -/
structure NormalForm : Prop where
  tokens : ∀ text, ∃ runs, Runs isTokenCharacter text runs ∧
    tokenize text = runs.map fun run => (slice text run.1 run.2).map tolower
  tokenize_cut : ∀ a b c, isTokenCharacter c = false →
    tokenize (a ++ c :: b) = tokenize a ++ tokenize b
  analyzeTerms_cut : ∀ a b c, isTokenCharacter c = false →
    analyzeTerms (a ++ c :: b) = analyzeTerms a ++ analyzeTerms b
  fixed : ∀ text, ∀ term ∈ analyzeTerms text, analyzeTerms term = [term]
  indexed : ∀ chunks index, InvertedIndex.Filled chunks index →
    ∀ term, (index.findTerm term).isSome = true → analyzeTerms term = [term]

theorem tokenize_normalForm : NormalForm where
  tokens text := by
    obtain ⟨runs, hruns, hwords⟩ := words_runs (p := isTokenCharacter) text
    refine ⟨runs, hruns, ?_⟩
    rw [tokenize_eq, hwords, List.map_map]
    rfl
  tokenize_cut a b _ hc := Search.tokenize_cut a b hc
  analyzeTerms_cut a b _ hc := Search.analyzeTerms_cut a b hc
  fixed _ _ := analyzeTerms_term
  indexed _ _ hfilled _ := hfilled.analyzeTerms_indexed

end CppSearchServer.Search
