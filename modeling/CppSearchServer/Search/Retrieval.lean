import CppSearchServer.Search.BruteForce
import CppSearchServer.Search.DocumentLoader
import CppSearchServer.Search.SearchApplication

/-! From the files to the results: the constructor of `search::SearchApplication` and the
search over what it has loaded. A result is a passage of a document that shares a term with
the query, and a passage is left out only for better ones. In which order the file system
lists the documents decides between equals alone. -/

namespace CppSearchServer.Search

open Library Library.Sorting

inductive DocumentsRoot where
  | missing
  | file
  | directory (entries : List DirectoryEntry)

def DocumentsRoot.entries : DocumentsRoot → Option (List DirectoryEntry)
  | .directory entries => some entries
  | .missing | .file => none

def InvertedIndex.ofChunks (order : DocumentChunk → IterationOrder (Bytes × Nat))
    (chunks : List DocumentChunk) : InvertedIndex :=
  chunks.foldl (fun index chunk => index.addChunk (order chunk) chunk) .empty

theorem InvertedIndex.ofChunks_filled (order : DocumentChunk → IterationOrder (Bytes × Nat))
    (chunks : List DocumentChunk) : Filled chunks (ofChunks order chunks) := by
  induction chunks using List.reverseRecOn with
  | nil => exact .empty
  | append_singleton chunks chunk ih =>
    rw [ofChunks, List.foldl_append]
    exact .addChunk _ _ ih

namespace SearchApplication

variable {R : Type*} [Field R] [LinearOrder R]

/-- The constructor; `platform` holds everything but the documents. A root that is a file
already fails in the iteration, with the error of the file system. -/
def new (platform : SearchApplication R) (order : DocumentChunk → IterationOrder (Bytes × Nat))
    (rootName fileError : Bytes) : DocumentsRoot → Except Bytes (SearchApplication R)
  | .missing => .error (ascii "documents root is not a directory: " ++ rootName)
  | .file => .error fileError
  | .directory entries =>
    let chunks := loadDocuments (some entries)
    .ok { platform with service := .new chunks (.ofChunks order chunks) }

def search (app : SearchApplication R) (query : Bytes) (topK : Nat) : List (SearchResult R) :=
  app.service.search app.std app.termOrder app.candidateOrder query topK

structure Over (app : SearchApplication R) (chunks : List DocumentChunk) : Prop where
  distinct : (chunks.map (·.id)).Nodup
  service : ∃ index, InvertedIndex.Filled chunks index ∧ app.service = .new chunks index

structure SamePlatform (app other : SearchApplication R) : Prop where
  log : app.std.log = other.std.log
  log1p : app.std.log1p = other.std.log1p
  printScore : app.printScore = other.printScore

end SearchApplication

section

variable {R : Type*} [Field R] [LinearOrder R] (std : StandardLibrary R)

/-- The results before they are sorted and cut off. -/
def matching (chunks : List DocumentChunk) (query : Bytes) : List (SearchResult R) :=
  (chunks.filter fun chunk => (sharedTerms query chunk).Nonempty).map
    (bruteForceResult std chunks query)

theorem search_topOf {chunks : List DocumentChunk} {index : InvertedIndex}
    (hids : (chunks.map (·.id)).Nodup) (hfilled : InvertedIndex.Filled chunks index)
    (termOrder : IterationOrder Bytes) (candidateOrder : IterationOrder (Nat × Candidate R))
    (query : Bytes) (topK : Nat) :
    ∃ rest, TopOf (fun left right => ranksHigher left right = true) topK
      (matching std chunks query)
      ((SearchService.new chunks index).search std termOrder candidateOrder query topK) rest := by
  have hperm : ((SearchService.new chunks index).collect candidateOrder
      ((termOrder.visit (analyzeTerms query).dedup).foldl
        ((SearchService.new chunks index).addTerm std) .empty)).Perm
      (matching std chunks query) := by
    rw [SearchService.foldl_addTerm std hfilled]
    exact SearchService.collect_perm std hids (termOrder.perm _) candidateOrder
  unfold SearchService.search
  split
  · rename_i hempty
    refine ⟨matching std chunks query, .refl _, .nil, nofun, ?_⟩
    rcases hempty with htop | hcount
    · simp [htop]
    · obtain rfl : chunks = [] := List.length_eq_zero_iff.mp hcount
      simp [matching]
  · dsimp only
    split
    · rename_i hlong
      exact ⟨_, (std.partialSort.topOf (le_of_lt hlong)).of_perm hperm⟩
    · rename_i hshort
      exact ⟨[], (std.sort.topOf (not_lt.mp hshort)).of_perm hperm⟩

/-- Nothing but the chunks and the logarithms shows in a search. -/
theorem search_unique {std' : StandardLibrary R} {chunks : List DocumentChunk}
    {index index' : InvertedIndex} (hids : (chunks.map (·.id)).Nodup)
    (hfilled : InvertedIndex.Filled chunks index) (hfilled' : InvertedIndex.Filled chunks index')
    (hlog : std.log = std'.log) (hlog1p : std.log1p = std'.log1p)
    (termOrder termOrder' : IterationOrder Bytes)
    (candidateOrder candidateOrder' : IterationOrder (Nat × Candidate R)) (query : Bytes)
    (topK : Nat) :
    (SearchService.new chunks index).search std termOrder candidateOrder query topK =
      (SearchService.new chunks index').search std' termOrder' candidateOrder' query topK := by
  have hresult : bruteForceResult std' chunks query = bruteForceResult std chunks query := by
    funext chunk
    simp only [bruteForceResult, hlog, hlog1p]
  obtain ⟨rest, htop⟩ := search_topOf std hids hfilled termOrder candidateOrder query topK
  obtain ⟨rest', htop'⟩ := search_topOf std' hids hfilled' termOrder' candidateOrder' query topK
  rw [matching, hresult] at htop'
  exact htop.unique (SearchService.tieFree std hids query) htop'

end

theorem bodyTerms_append (before after : List Bytes) :
    bodyTerms (before ++ after) = bodyTerms before ++ bodyTerms after := by
  simp [bodyTerms]

theorem bodyTerms_text {lines : List Bytes} (h : ∀ line ∈ lines, headingLevel line = 0) :
    bodyTerms lines = lines.flatMap analyzeTerms := by
  rw [bodyTerms, List.filter_eq_self.mpr fun line hmem => by simpa using h line hmem]

theorem bodyTerms_indexed {content : Bytes} (h : runsOn content = false)
    (sourcePath category : Bytes) (firstChunkId : Nat) :
    bodyTerms (getlines content) ⊆
      chunkTerms (chunkMarkdown sourcePath category content firstChunkId) := by
  rw [chunkMarkdown, Chunker.finish_terms]
  rw [runsOn, preamble] at h
  have hpre : ∀ line ∈ (getlines content).takeWhile fun line => headingLevel line = 0,
      headingLevel line = 0 := fun line hmem => by simpa using List.mem_takeWhile_imp hmem
  have hhead : ∀ heading rest, ((getlines content).dropWhile fun line => headingLevel line = 0) =
      heading :: rest → headingLevel heading ≠ 0 := by
    intro heading rest heq
    have hnot := List.head_dropWhile_not (fun line => decide (headingLevel line = 0))
      (l := getlines content) (by simp [heq])
    simpa [heq] using hnot
  rw [← List.takeWhile_append_dropWhile (p := fun line => headingLevel line = 0)
    (l := getlines content), bodyTerms_append, List.foldl_append]
  generalize (getlines content).takeWhile _ = pre at *
  generalize (getlines content).dropWhile _ = rest at *
  have hread := Chunker.foldl_preamble sourcePath category firstChunkId (s := ⟨[], [], [], []⟩) hpre
  have hterms := Chunker.foldl_preamble_terms sourcePath category firstChunkId
    (s := ⟨[], [], [], []⟩) hpre rfl
  rw [bodyTerms_text hpre]
  have hkept : (pre.foldl (Chunker.readLine sourcePath category firstChunkId)
      ⟨[], [], [], []⟩).terms = pre.flatMap analyzeTerms := hterms
  cases rest with
  | nil => exact fun term hterm => hkept ▸ by simpa [bodyTerms] using hterm
  | cons heading rest =>
    have hheading := hhead heading rest rfl
    rw [List.foldl_cons, Chunker.readLine_heading _ _ _ hheading,
      (Chunker.foldl_afterHeading _ _ _ rest (Chunker.enterHeading_headings _ _ _)).mpr,
      Chunker.enterHeading_terms, Chunker.flushCurrent_terms, hkept]
    · have hskip : bodyTerms (heading :: rest) = bodyTerms rest := by simp [bodyTerms, hheading]
      rw [hskip]
      exact List.Subset.refl _
    · rw [hread, Chunker.flushCurrent_preamble _ _ _ rfl]
      exact h

/-- What the search gives for the documents, and for the chunks loaded from them. -/
structure Retrieves {R : Type*} [Field R] [LinearOrder R] (std : StandardLibrary R)
    (documents : List DirectoryEntry) (chunks : List DocumentChunk) (query : Bytes) (topK : Nat)
    (results : List (SearchResult R)) : Prop where
  length_le : results.length ≤ topK
  distinct : (results.map fun result => result.chunk.id).Nodup
  /-- A result is a passage of a document, and shares as many terms with the query as it says. -/
  sound : ∀ result ∈ results,
    (∃ document ∈ documents, ∃ firstChunkId, result.chunk ∈ document.chunks firstChunkId) ∧
      result.chunk ∈ chunks ∧ result = bruteForceResult std chunks query result.chunk ∧
      0 < result.matchedTerms ∧ result.matchedTerms = (sharedTerms query result.chunk).card
  /-- A document is found by every word of its lines, or there are better results. -/
  complete : ∀ document ∈ documents, runsOn document.content = false →
    ∀ line ∈ getlines document.content, headingLevel line = 0 →
      ∀ term ∈ analyzeTerms line, term ∈ analyzeTerms query → ∃ chunk ∈ chunks,
        (∃ firstChunkId, chunk ∈ document.chunks firstChunkId) ∧
          term ∈ analyzeTerms chunk.rawText ∧
          (bruteForceResult std chunks query chunk ∈ results ∨ results.length = topK ∧
            ∀ result ∈ results, rankKey result ≤ rankKey (bruteForceResult std chunks query chunk))

namespace SearchApplication

variable {R : Type*} [Field R] [LinearOrder R] {platform app : SearchApplication R}
  {order : DocumentChunk → IterationOrder (Bytes × Nat)} {rootName fileError : Bytes}
  {root : DocumentsRoot}

omit [Field R] in
theorem new_cases (h : new platform order rootName fileError root = .ok app) :
    ∃ entries, root = .directory entries ∧ app = { platform with
      service := .new (loadDocuments (some entries))
        (.ofChunks order (loadDocuments (some entries))) } := by
  cases root with
  | missing | file => cases h
  | directory entries =>
    cases h
    exact ⟨entries, rfl, rfl⟩

omit [Field R] in
theorem new_over (h : new platform order rootName fileError root = .ok app) :
    app.Over (loadDocuments root.entries) := by
  obtain ⟨entries, rfl, rfl⟩ := new_cases h
  obtain ⟨s, hsound, hchunks⟩ := loadDocuments_sound (some entries)
  refine ⟨?_, _, InvertedIndex.ofChunks_filled order _, rfl⟩
  exact hchunks ▸ hsound.numbered.nodup

theorem Over.searchJson_eq {other : SearchApplication R} {chunks : List DocumentChunk}
    (h : app.Over chunks) (h' : other.Over chunks) (hplatform : app.SamePlatform other)
    (query : Bytes) : app.searchJson query = other.searchJson query := by
  obtain ⟨index, hfilled, hservice⟩ := h.service
  obtain ⟨index', hfilled', hservice'⟩ := h'.service
  rw [searchJson, searchJson, hservice, hservice', hplatform.printScore]
  rw [search_unique app.std h.distinct hfilled hfilled' hplatform.log hplatform.log1p]

theorem Over.uncached_eq {other : SearchApplication R} {chunks : List DocumentChunk}
    (h : app.Over chunks) (h' : other.Over chunks) (hplatform : app.SamePlatform other)
    (horder : app.headerOrder = other.headerOrder) (request : Bytes) :
    app.uncached request = other.uncached request := by
  rw [uncached, uncached, horder]
  split
  · rfl
  · rw [h.searchJson_eq h' hplatform]

theorem search_loaded (h : new platform order rootName fileError root = .ok app)
    (query : Bytes) (topK : Nat) :
    ∃ s rest, Loader.Sound (documents root.entries) s ∧
      s.chunks = loadDocuments root.entries ∧
      TopOf (fun left right => ranksHigher left right = true) topK
        (matching platform.std s.chunks query) (app.search query topK) rest := by
  have hids := (new_over h).distinct
  obtain ⟨entries, rfl, rfl⟩ := new_cases h
  obtain ⟨s, hsound, hchunks⟩ := loadDocuments_sound (some entries)
  obtain ⟨rest, htop⟩ := search_topOf platform.std hids (InvertedIndex.ofChunks_filled order _)
    platform.termOrder platform.candidateOrder query topK
  exact ⟨s, rest, hsound, hchunks, hchunks ▸ htop⟩

theorem mem_search (h : new platform order rootName fileError root = .ok app) (query : Bytes)
    (topK : Nat) {chunk : DocumentChunk} (hchunk : chunk ∈ loadDocuments root.entries)
    (hshared : (sharedTerms query chunk).Nonempty)
    (hroom : (loadDocuments root.entries).length < topK) :
    bruteForceResult platform.std (loadDocuments root.entries) query chunk ∈
      app.search query topK := by
  obtain ⟨s, rest, -, hchunks, htop⟩ := search_loaded h query topK
  rw [hchunks] at htop
  have hmatches : bruteForceResult platform.std (loadDocuments root.entries) query chunk ∈
      matching platform.std (loadDocuments root.entries) query :=
    List.mem_map_of_mem (List.mem_filter.mpr ⟨hchunk, decide_eq_true hshared⟩)
  refine (htop.covers hmatches).resolve_right fun hfull => ?_
  have hlength := htop.length
  have hle : (matching platform.std (loadDocuments root.entries) query).length ≤
      (loadDocuments root.entries).length := by
    rw [matching, List.length_map]
    exact List.length_filter_le _ _
  omega

theorem search_retrieves (h : new platform order rootName fileError root = .ok app)
    (query : Bytes) (topK : Nat) :
    Retrieves platform.std (documents root.entries) (loadDocuments root.entries) query topK
      (app.search query topK) := by
  obtain ⟨s, rest, hsound, hchunks, htop⟩ := search_loaded h query topK
  rw [← hchunks]
  refine ⟨?_, ?_, fun result hresult => ?_, ?_⟩
  · exact htop.length ▸ min_le_left _ _
  · have hmatching : ((matching platform.std s.chunks query).map fun result =>
        result.chunk.id).Nodup := by
      rw [matching, List.map_map]
      exact hsound.numbered.nodup.sublist (List.filter_sublist.map _)
    have hall := (htop.perm.map fun result => result.chunk.id).nodup_iff.mpr hmatching
    rw [List.map_append] at hall
    exact hall.of_append_left
  · obtain ⟨chunk, hchunk, rfl⟩ := List.mem_map.mp (htop.subset hresult)
    obtain ⟨hmem, hshared⟩ := List.mem_filter.mp hchunk
    obtain ⟨document, hdocument, block, ⟨⟨firstChunkId, rfl⟩, -⟩, hblock⟩ :=
      hsound.blocks.exists_owner hmem
    exact ⟨⟨document, hdocument, firstChunkId, hblock⟩, hmem, rfl,
      Finset.card_pos.mpr (of_decide_eq_true hshared), rfl⟩
  · intro document hdocument hseparate line hline hlevel term hterm hquery
    obtain ⟨block, ⟨⟨firstChunkId, rfl⟩, -⟩, hsubset⟩ := hsound.blocks.exists_block hdocument
    have hbody : term ∈ bodyTerms (getlines document.content) :=
      List.mem_flatMap.mpr ⟨line, List.mem_filter.mpr ⟨hline, by simpa using hlevel⟩, hterm⟩
    obtain ⟨chunk, hchunk, hterm⟩ := List.mem_flatMap.mp (bodyTerms_indexed hseparate
      document.relativePath.genericString document.category firstChunkId hbody)
    have hshared : term ∈ sharedTerms query chunk := by
      simpa [sharedTerms] using ⟨hquery, hterm⟩
    have hmatches : bruteForceResult platform.std s.chunks query chunk ∈
        matching platform.std s.chunks query :=
      List.mem_map_of_mem (List.mem_filter.mpr ⟨hsubset hchunk, decide_eq_true ⟨term, hshared⟩⟩)
    refine ⟨chunk, hsubset hchunk, ⟨firstChunkId, hchunk⟩, hterm, ?_⟩
    exact (htop.covers hmatches).imp_right fun ⟨hfull, hbehind⟩ =>
      ⟨hfull, fun result hresult => by simpa [ranksHigher_iff] using hbehind result hresult⟩

def sampleEntries : List DirectoryEntry :=
  [⟨[ascii "docs", ascii "a", ascii "b.md"], true, ascii "# T\nepoll\n## U\nlru cache\n",
      [ascii "a", ascii "b.md"]⟩,
    ⟨[ascii "docs", ascii "c.png"], true, ascii "lru", [ascii "c.png"]⟩,
    ⟨[ascii "docs", ascii "d.txt"], true, ascii "cache\n", [ascii "d.txt"]⟩]

def samplePlatform : SearchApplication ℚ where
  service := .new [] .empty
  std := SearchService.sampleLibrary
  termOrder := SearchService.sampleOrder _
  candidateOrder := SearchService.sampleOrder _
  headerOrder := SearchService.sampleOrder _
  printScore _ := ascii "0"

/-- The application over the sample, listed in the given order. -/
def sampleLoaded (entries : List DirectoryEntry) : SearchApplication ℚ :=
  { samplePlatform with
    service := .new (loadDocuments (some entries))
      (.ofChunks (fun _ => SearchService.sampleOrder _) (loadDocuments (some entries))) }

theorem sampleLoaded_retrieves :
    ((sampleLoaded sampleEntries).search (ascii "cache lru") 5).map (·.chunk.id) = [1, 2] ∧
      Retrieves samplePlatform.std (documents (some sampleEntries))
        (loadDocuments (some sampleEntries)) (ascii "cache lru") 5
        ((sampleLoaded sampleEntries).search (ascii "cache lru") 5) :=
  ⟨by decide +kernel,
    @search_retrieves ℚ _ _ samplePlatform _ (fun _ => SearchService.sampleOrder _) [] []
      (.directory sampleEntries) rfl _ _⟩

end SearchApplication

/-! The listing order of the file system shows in the ids alone. -/

def SearchResult.withoutId {R : Type*} (result : SearchResult R) : SearchResult R :=
  { result with chunk := result.chunk.withoutId }

namespace Chunker

def withoutIds (s : Chunker) : Chunker := { s with chunks := s.chunks.map DocumentChunk.withoutId }

variable (sourcePath category : Bytes) (first first' : Nat) {s t : Chunker}

theorem flushCurrent_withoutIds (h : s.withoutIds = t.withoutIds) :
    (s.flushCurrent sourcePath category first).withoutIds =
      (t.flushCurrent sourcePath category first').withoutIds := by
  obtain ⟨chunks, title, headings, body⟩ := s
  obtain ⟨chunks', title', headings', body'⟩ := t
  simp only [withoutIds, mk.injEq] at h
  obtain ⟨hchunks, rfl, rfl, rfl⟩ := h
  unfold flushCurrent
  dsimp only
  split <;> simp [withoutIds, hchunks, DocumentChunk.withoutId]

theorem readLine_withoutIds (h : s.withoutIds = t.withoutIds) (line : Bytes) :
    (s.readLine sourcePath category first line).withoutIds =
      (t.readLine sourcePath category first' line).withoutIds := by
  by_cases hline : headingLevel line = 0
  · rw [readLine_text _ _ _ hline, readLine_text _ _ _ hline]
    obtain ⟨chunks, title, headings, body⟩ := s
    obtain ⟨chunks', title', headings', body'⟩ := t
    simp only [withoutIds, mk.injEq] at h ⊢
    obtain ⟨hchunks, rfl, rfl, rfl⟩ := h
    exact ⟨hchunks, rfl, rfl, rfl⟩
  · rw [readLine_heading _ _ _ hline, readLine_heading _ _ _ hline]
    have hflush := flushCurrent_withoutIds sourcePath category first first' h
    generalize s.flushCurrent sourcePath category first = s at *
    generalize t.flushCurrent sourcePath category first' = t at *
    obtain ⟨chunks, title, headings, body⟩ := s
    obtain ⟨chunks', title', headings', body'⟩ := t
    simp only [withoutIds, mk.injEq] at hflush
    obtain ⟨hchunks, rfl, rfl, rfl⟩ := hflush
    simp [enterHeading, withoutIds, hchunks]

theorem readLines_withoutIds (h : s.withoutIds = t.withoutIds) (lines : List Bytes) :
    (lines.foldl (readLine sourcePath category first) s).withoutIds =
      (lines.foldl (readLine sourcePath category first') t).withoutIds := by
  induction lines generalizing s t with
  | nil => exact h
  | cons line lines ih => exact ih (readLine_withoutIds sourcePath category first first' h line)

theorem finish_withoutIds (h : s.withoutIds = t.withoutIds) :
    (s.finish sourcePath category first).map DocumentChunk.withoutId =
      (t.finish sourcePath category first').map DocumentChunk.withoutId := by
  have hflush := flushCurrent_withoutIds sourcePath category first first' h
  unfold finish
  generalize s.flushCurrent sourcePath category first = s at *
  generalize t.flushCurrent sourcePath category first' = t at *
  obtain ⟨chunks, title, headings, body⟩ := s
  obtain ⟨chunks', title', headings', body'⟩ := t
  simp only [withoutIds, mk.injEq] at hflush
  obtain ⟨hchunks, rfl, rfl, rfl⟩ := hflush
  dsimp only
  split_ifs <;> simp [hchunks, DocumentChunk.withoutId]

end Chunker

theorem chunks_withoutId (document : DirectoryEntry) (first first' : Nat) :
    (document.chunks first).map DocumentChunk.withoutId =
      (document.chunks first').map DocumentChunk.withoutId :=
  Chunker.finish_withoutIds _ _ _ _ (Chunker.readLines_withoutIds _ _ _ _ rfl _)

theorem blocks_withoutId {documents : List DirectoryEntry} {chunks : List DocumentChunk}
    (h : InBlocks Loader.Owns documents chunks) :
    chunks.map DocumentChunk.withoutId =
      documents.flatMap fun document => (document.chunks 0).map DocumentChunk.withoutId := by
  obtain ⟨blocks, rfl, hblocks⟩ := h
  induction hblocks with
  | nil => rfl
  | cons hfirst _ ih =>
    obtain ⟨⟨first, rfl⟩, -⟩ := hfirst
    rw [List.flatten_cons, List.map_append, ih, List.flatMap_cons, chunks_withoutId _ first 0]

section

variable {R : Type*} [Field R] [LinearOrder R] (std : StandardLibrary R)

theorem matching_withoutId (chunks : List DocumentChunk) (query : Bytes) :
    (matching std chunks query).map SearchResult.withoutId =
      matching std (chunks.map DocumentChunk.withoutId) query := by
  have hfrequency : ∀ term, documentFrequency (chunks.map DocumentChunk.withoutId) term =
      documentFrequency chunks term := by
    intro term
    rw [documentFrequency, List.filter_map, List.length_map]
    rfl
  rw [matching, matching, List.filter_map, List.map_map, List.map_map]
  refine List.map_congr_left fun chunk _ => ?_
  simp only [Function.comp, SearchResult.withoutId, bruteForceResult, hfrequency, List.length_map]
  rfl

theorem matching_perm {chunks chunks' : List DocumentChunk} (h : chunks.Perm chunks')
    (query : Bytes) : (matching std chunks query).Perm (matching std chunks' query) := by
  have hfrequency : ∀ term, documentFrequency chunks term = documentFrequency chunks' term :=
    fun term => (h.filter _).length_eq
  have hresult : bruteForceResult std chunks query = bruteForceResult std chunks' query := by
    funext chunk
    simp only [bruteForceResult, hfrequency, h.length_eq]
  rw [matching, matching, hresult]
  exact (h.filter _).map _

end

def scoreKey {R : Type*} (result : SearchResult R) : ℕᵒᵈ ×ₗ Rᵒᵈ :=
  toLex (OrderDual.toDual result.matchedTerms, OrderDual.toDual result.score)

theorem scoreKey_le {R : Type*} [LinearOrder R] (a b : SearchResult R)
    (h : ¬ranksHigher b a = true) : scoreKey a ≤ scoreKey b := by
  rw [ranksHigher_iff, not_lt, rankKey, rankKey, Prod.Lex.toLex_le_toLex] at h
  rw [scoreKey, scoreKey, Prod.Lex.toLex_le_toLex]
  refine h.imp_right fun hrest => ⟨hrest.1, ?_⟩
  rcases Prod.Lex.toLex_le_toLex.mp hrest.2 with hlt | ⟨heq, -⟩
  · exact le_of_lt hlt
  · exact le_of_eq heq

/-- The same ranking, and the same passages where none is left out. -/
structure SameRanking {R : Type*} (topK : Nat) (results results' : List (SearchResult R)) :
    Prop where
  scores : results.map (fun result => (result.matchedTerms, result.score)) =
    results'.map fun result => (result.matchedTerms, result.score)
  passages : results.length < topK →
    (results.map SearchResult.withoutId).Perm (results'.map SearchResult.withoutId)

namespace SearchApplication

variable {R : Type*} [Field R] [LinearOrder R] {platform platform' app app' : SearchApplication R}
  {order order' : DocumentChunk → IterationOrder (Bytes × Nat)} {rootName fileError : Bytes}
  {entries entries' : List DirectoryEntry}

/-- Neither the order of the directory nor that of any container shows in the ranking. -/
theorem search_sameRanking
    (h : new platform order rootName fileError (.directory entries) = .ok app)
    (h' : new platform' order' rootName fileError (.directory entries') = .ok app')
    (hstd : platform'.std = platform.std) (hentries : entries.Perm entries') (query : Bytes)
    (topK : Nat) : SameRanking topK (app.search query topK) (app'.search query topK) := by
  obtain ⟨s, rest, hsound, -, htop⟩ := search_loaded h query topK
  obtain ⟨s', rest', hsound', -, htop'⟩ := search_loaded h' query topK
  rw [hstd] at htop'
  have hchunks : (s.chunks.map DocumentChunk.withoutId).Perm
      (s'.chunks.map DocumentChunk.withoutId) := by
    rw [blocks_withoutId hsound.blocks, blocks_withoutId hsound'.blocks]
    exact (hentries.filter _).flatMap_right _
  have hmatching : ((matching platform.std s.chunks query).map SearchResult.withoutId).Perm
      ((matching platform.std s'.chunks query).map SearchResult.withoutId) := by
    rw [matching_withoutId, matching_withoutId]
    exact matching_perm platform.std hchunks query
  have hkeys : (app.search query topK).map scoreKey = (app'.search query topK).map scoreKey := by
    refine htop.map_eq scoreKey_le htop' ?_
    have hperm := hmatching.map scoreKey
    rwa [List.map_map, List.map_map] at hperm
  refine ⟨?_, fun hshort => ?_⟩
  · have hpairs := congrArg (List.map fun key : ℕᵒᵈ ×ₗ Rᵒᵈ =>
      (OrderDual.ofDual (ofLex key).1, OrderDual.ofDual (ofLex key).2)) hkeys
    rwa [List.map_map, List.map_map] at hpairs
  · have hlength : (app'.search query topK).length < topK := by
      have heq := congrArg List.length hkeys
      rw [List.length_map, List.length_map] at heq
      omega
    exact ((htop.all hshort).map _).trans (hmatching.trans ((htop'.all hlength).map _).symm)

theorem sampleLoaded_sameRanking :
    ((sampleLoaded sampleEntries.reverse).search (ascii "cache lru") 5).map (·.chunk.id) = [2, 0] ∧
      SameRanking 5 ((sampleLoaded sampleEntries).search (ascii "cache lru") 5)
        ((sampleLoaded sampleEntries.reverse).search (ascii "cache lru") 5) :=
  ⟨by decide +kernel, @search_sameRanking ℚ _ _ samplePlatform samplePlatform _ _
    (fun _ => SearchService.sampleOrder _) (fun _ => SearchService.sampleOrder _) [] []
    sampleEntries sampleEntries.reverse rfl rfl rfl sampleEntries.reverse_perm.symm _ _⟩

end SearchApplication

end CppSearchServer.Search
