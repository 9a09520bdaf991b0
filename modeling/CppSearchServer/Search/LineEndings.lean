import CppSearchServer.Library.LineBreaks
import CppSearchServer.Search.Retrieval

/-! Documents saved with other line ends. `std::getline` cuts at the line feed alone, so the
lines of a file with CRLF keep a carriage return; it is no space that ends a heading's mark,
it is trimmed off the headings and the ends of the texts, and it is no letter. So what is
loaded, indexed and found is the same, but for the carriage returns inside the texts. -/

namespace CppSearchServer.Search

open Library Library.Words Library.Sorting

def carriageReturn : Byte := 0x0d

/-- The same text, with CRLF for some of the line feeds. -/
abbrev CrlfCopy (text copy : Bytes) : Prop := PaddedBreaks carriageReturn newline text copy

def withCrlf (text : Bytes) : Bytes :=
  text.flatMap fun c => if c = newline then [carriageReturn, newline] else [c]

theorem withCrlf_copy (text : Bytes) : CrlfCopy text (withCrlf text) := by
  induction text with
  | nil => exact .nil
  | cons c text ih =>
    rw [withCrlf, List.flatMap_cons]
    split
    · rename_i hc
      subst hc
      exact .padded ih
    · exact .cons c ih

def LineCopy (line copy : Bytes) : Prop := copy = line ∨ copy = line ++ [carriageReturn]

theorem getlines_copy {content copy : Bytes} (h : CrlfCopy content copy) :
    List.Forall₂ LineCopy (getlines content) (getlines copy) := by
  induction h with
  | nil => exact .nil
  | cons c _ ih =>
    rw [getlines, getlines]
    split
    · exact .cons (.inl rfl) ih
    · revert ih
      generalize getlines _ = lines
      generalize getlines _ = copies
      rintro (- | ⟨hline, hlines⟩)
      · exact .cons (.inl rfl) .nil
      · refine .cons ?_ hlines
        exact hline.imp (congrArg (c :: ·)) (congrArg (c :: ·))
  | padded _ ih =>
    rw [getlines, if_pos rfl, getlines, if_neg (by decide), getlines, if_pos rfl]
    exact .cons (.inr rfl) ih

theorem headingLevel_return (line : Bytes) :
    headingLevel (line ++ [carriageReturn]) = headingLevel line := by
  have hlevel : (line ++ [carriageReturn]).takeWhile (· = 0x23) = line.takeWhile (· = 0x23) := by
    rw [List.takeWhile_append]
    split
    · rename_i hall
      rw [(List.takeWhile_prefix _).eq_of_length hall]
      simp [carriageReturn]
    · rfl
  have hle := (List.takeWhile_prefix (l := line) (· = 0x23)).length_le
  unfold headingLevel
  dsimp only
  rw [hlevel]
  generalize (line.takeWhile (· = 0x23)).length = level at *
  rcases hle.lt_or_eq with hlt | rfl
  · have hne : level ≠ (line ++ [carriageReturn]).length := by
      rw [List.length_append]
      omega
    rw [List.getElem?_append_left hlt, decide_eq_false hlt.ne, decide_eq_false hne]
  · simp [carriageReturn]

theorem headingLevel_copy {line copy : Bytes} (h : LineCopy line copy) :
    headingLevel copy = headingLevel line := by
  obtain rfl | rfl := h
  · rfl
  · exact headingLevel_return line

theorem headingLevel_lt {line : Bytes} (h : headingLevel line ≠ 0) :
    headingLevel line < line.length := by
  have hle := (List.takeWhile_prefix (l := line) (· = 0x23)).length_le
  unfold headingLevel at h ⊢
  dsimp only at h ⊢
  split at h
  · exact absurd rfl h
  · rename_i hmark
    rw [if_neg hmark]
    simp only [Bool.or_eq_true, decide_eq_true_eq, not_or] at hmark
    omega

theorem heading_copy {line copy : Bytes} (h : LineCopy line copy) (hline : headingLevel line ≠ 0) :
    trim (copy.drop (headingLevel line + 1)) = trim (line.drop (headingLevel line + 1)) := by
  obtain rfl | rfl := h
  · rfl
  · rw [List.drop_append_of_le_length (headingLevel_lt hline),
      trim_concat _ (by decide)]

theorem trim_copy {text copy : Bytes} (h : CrlfCopy text copy) : CrlfCopy (trim text) (trim copy) :=
  (h.dropWhile (by decide) (by decide)).rdropWhile (by decide) (by decide)

theorem analyzeTerms_copy {text copy : Bytes} (h : CrlfCopy text copy) :
    analyzeTerms copy = analyzeTerms text := by
  rw [analyzeTerms, analyzeTerms, tokenize_eq, tokenize_eq, words, words,
    h.wordsFrom_eq (by decide) (by decide)]

theorem line_copy {line copy : Bytes} (h : LineCopy line copy) :
    CrlfCopy (line ++ [newline]) (copy ++ [newline]) := by
  obtain rfl | rfl := h
  · exact .refl _
  · rw [List.append_assoc]
    exact (PaddedBreaks.refl line).append (.padded .nil)

structure DocumentChunk.Copy (chunk copy : DocumentChunk) : Prop where
  id : copy.id = chunk.id
  sourcePath : copy.sourcePath = chunk.sourcePath
  category : copy.category = chunk.category
  title : copy.title = chunk.title
  headingPath : copy.headingPath = chunk.headingPath
  rawText : CrlfCopy chunk.rawText copy.rawText

namespace Chunker

structure Copy (s t : Chunker) : Prop where
  chunks : List.Forall₂ DocumentChunk.Copy s.chunks t.chunks
  documentTitle : t.documentTitle = s.documentTitle
  headings : t.headings = s.headings
  currentBody : CrlfCopy s.currentBody t.currentBody

variable (sourcePath category : Bytes) (firstChunkId : Nat) {s t : Chunker}

theorem Copy.flushCurrent (h : Copy s t) :
    Copy (s.flushCurrent sourcePath category firstChunkId)
      (t.flushCurrent sourcePath category firstChunkId) := by
  have hbody := trim_copy h.currentBody
  unfold Chunker.flushCurrent
  dsimp only
  rw [hbody.isEmpty_eq, h.headings]
  split
  · exact ⟨h.chunks, h.documentTitle, rfl, hbody⟩
  · refine ⟨List.rel_append h.chunks (.cons ⟨?_, rfl, rfl, h.documentTitle, rfl, hbody⟩ .nil),
      h.documentTitle, rfl, .nil⟩
    rw [h.chunks.length_eq]

theorem Copy.readLine (h : Copy s t) {line copy : Bytes} (hline : LineCopy line copy) :
    Copy (s.readLine sourcePath category firstChunkId line)
      (t.readLine sourcePath category firstChunkId copy) := by
  have hlevel := headingLevel_copy hline
  by_cases hzero : headingLevel line = 0
  · rw [readLine_text _ _ _ hzero, readLine_text _ _ _ (hlevel.trans hzero)]
    refine ⟨h.chunks, h.documentTitle, h.headings, ?_⟩
    dsimp only
    rw [List.append_assoc, List.append_assoc]
    exact h.currentBody.append (line_copy hline)
  · rw [readLine_heading _ _ _ hzero, readLine_heading _ _ _ (hlevel ▸ hzero), hlevel]
    have hflush := h.flushCurrent sourcePath category firstChunkId
    have htext := heading_copy hline hzero
    refine ⟨hflush.chunks, ?_, ?_, hflush.currentBody⟩
    · simp only [enterHeading, htext, hflush.documentTitle]
    · simp only [enterHeading, htext, hflush.headings]

theorem Copy.readLines (h : Copy s t) {lines copies : List Bytes}
    (hlines : List.Forall₂ LineCopy lines copies) :
    Copy (lines.foldl (Chunker.readLine sourcePath category firstChunkId) s)
      (copies.foldl (Chunker.readLine sourcePath category firstChunkId) t) :=
  List.rel_foldl (fun _ _ h _ _ hline => h.readLine sourcePath category firstChunkId hline) h hlines

theorem Copy.finish (h : Copy s t) :
    List.Forall₂ DocumentChunk.Copy (s.finish sourcePath category firstChunkId)
      (t.finish sourcePath category firstChunkId) := by
  have hflush := h.flushCurrent sourcePath category firstChunkId
  have hbody := trim_copy hflush.currentBody
  unfold Chunker.finish
  dsimp only
  generalize s.flushCurrent sourcePath category firstChunkId = s at *
  generalize t.flushCurrent sourcePath category firstChunkId = t at *
  rw [hbody.isEmpty_eq, hflush.headings]
  split
  · split
    · exact hflush.chunks
    · exact List.rel_append hflush.chunks (.cons ⟨rfl, rfl, rfl, rfl, rfl, hbody⟩ .nil)
  · exact hflush.chunks

end Chunker

theorem chunkMarkdown_copy (sourcePath category : Bytes) (firstChunkId : Nat)
    {content copy : Bytes} (h : CrlfCopy content copy) :
    List.Forall₂ DocumentChunk.Copy (chunkMarkdown sourcePath category content firstChunkId)
      (chunkMarkdown sourcePath category copy firstChunkId) := by
  have hstart : Chunker.Copy ⟨[], [], [], []⟩ ⟨[], [], [], []⟩ := ⟨.nil, rfl, rfl, .nil⟩
  exact (hstart.readLines _ _ _ (getlines_copy h)).finish _ _ _

structure DirectoryEntry.Copy (entry copy : DirectoryEntry) : Prop where
  path : copy.path = entry.path
  isRegularFile : copy.isRegularFile = entry.isRegularFile
  relativePath : copy.relativePath = entry.relativePath
  content : CrlfCopy entry.content copy.content

namespace Loader

structure Copy (s t : Loader) : Prop where
  chunks : List.Forall₂ DocumentChunk.Copy s.chunks t.chunks
  nextChunkId : t.nextChunkId = s.nextChunkId

variable {s t : Loader}

theorem Copy.loadEntry (h : Copy s t) {entry copy : DirectoryEntry} (hentry : entry.Copy copy) :
    Copy (s.loadEntry entry) (t.loadEntry copy) := by
  have hdocument : copy.isDocument = entry.isDocument := by
    rw [DirectoryEntry.isDocument, DirectoryEntry.isDocument, hentry.isRegularFile, hentry.path]
  have hchunks : List.Forall₂ DocumentChunk.Copy (entry.chunks s.nextChunkId)
      (copy.chunks t.nextChunkId) := by
    rw [DirectoryEntry.chunks, DirectoryEntry.chunks, DirectoryEntry.category,
      DirectoryEntry.category, hentry.relativePath, h.nextChunkId]
    exact chunkMarkdown_copy _ _ _ hentry.content
  unfold Loader.loadEntry
  rw [hdocument, hentry.content.isEmpty_eq]
  split
  · exact h
  · split
    · exact h
    · refine ⟨List.rel_append h.chunks hchunks, ?_⟩
      dsimp only
      rw [h.nextChunkId] at hchunks ⊢
      rw [hchunks.length_eq]

theorem Copy.loadEntries (h : Copy s t) {entries copies : List DirectoryEntry}
    (hentries : List.Forall₂ DirectoryEntry.Copy entries copies) :
    Copy (entries.foldl Loader.loadEntry s) (copies.foldl Loader.loadEntry t) :=
  List.rel_foldl (fun _ _ h _ _ hentry => h.loadEntry hentry) h hentries

end Loader

theorem loadDocuments_copy {entries copies : List DirectoryEntry}
    (h : List.Forall₂ DirectoryEntry.Copy entries copies) :
    List.Forall₂ DocumentChunk.Copy (loadDocuments (some entries)) (loadDocuments (some copies)) :=
  (Loader.Copy.loadEntries ⟨.nil, rfl⟩ h).chunks

structure SearchResult.Copy {R : Type*} (result copy : SearchResult R) : Prop where
  chunk : result.chunk.Copy copy.chunk
  matchedTerms : copy.matchedTerms = result.matchedTerms
  score : copy.score = result.score

theorem SearchResult.Copy.rankKey_eq {R : Type*} {result copy : SearchResult R}
    (h : result.Copy copy) : rankKey copy = rankKey result := by
  rw [rankKey, rankKey, h.matchedTerms, h.score, h.chunk.id]

section

variable {R : Type*} [Field R] [LinearOrder R] (std : StandardLibrary R)
  {chunks copies : List DocumentChunk}

theorem documentFrequency_copy (h : List.Forall₂ DocumentChunk.Copy chunks copies) (term : Bytes) :
    documentFrequency copies term = documentFrequency chunks term := by
  refine (List.Forall₂.length_eq (List.rel_filter (R := DocumentChunk.Copy) ?_ h)).symm
  intro chunk copy hchunk
  dsimp only
  rw [analyzeTerms_copy hchunk.rawText]

theorem sharedTerms_copy {chunk copy : DocumentChunk} (h : chunk.Copy copy) (query : Bytes) :
    sharedTerms query copy = sharedTerms query chunk := by
  rw [sharedTerms, sharedTerms, analyzeTerms_copy h.rawText]

theorem bruteForceResult_copy (h : List.Forall₂ DocumentChunk.Copy chunks copies)
    {chunk copy : DocumentChunk} (hchunk : chunk.Copy copy) (query : Bytes) :
    (bruteForceResult std chunks query chunk).Copy (bruteForceResult std copies query copy) := by
  refine ⟨hchunk, ?_, ?_⟩
  · simp only [bruteForceResult, sharedTerms_copy hchunk]
  · simp only [bruteForceResult, sharedTerms_copy hchunk, analyzeTerms_copy hchunk.rawText,
      documentFrequency_copy h, h.length_eq]

theorem matching_copy (h : List.Forall₂ DocumentChunk.Copy chunks copies) (query : Bytes) :
    List.Forall₂ SearchResult.Copy (matching std chunks query) (matching std copies query) := by
  have hkept : List.Forall₂ DocumentChunk.Copy
      (chunks.filter fun chunk => (sharedTerms query chunk).Nonempty)
      (copies.filter fun chunk => (sharedTerms query chunk).Nonempty) := by
    refine List.rel_filter (fun chunk copy hchunk => ?_) h
    dsimp only
    rw [sharedTerms_copy hchunk]
  rw [matching, matching, List.forall₂_map_left_iff, List.forall₂_map_right_iff]
  exact hkept.imp fun _ _ hchunk => bruteForceResult_copy std h hchunk query

end

namespace SearchApplication

variable {R : Type*} [Field R] [LinearOrder R] {platform platform' app app' : SearchApplication R}
  {order order' : DocumentChunk → IterationOrder (Bytes × Nat)}
  {rootName rootName' fileError fileError' : Bytes} {entries copies : List DirectoryEntry}

/-- What is loaded from the copies, and what is found in them. -/
structure SameWithReturns (entries copies : List DirectoryEntry)
    (results found : List (SearchResult R)) : Prop where
  loaded : List.Forall₂ DocumentChunk.Copy (loadDocuments (some entries))
    (loadDocuments (some copies))
  results : List.Forall₂ SearchResult.Copy results found

theorem search_lineEndings
    (h : new platform order rootName fileError (.directory entries) = .ok app)
    (h' : new platform' order' rootName' fileError' (.directory copies) = .ok app')
    (hstd : platform'.std = platform.std)
    (hcopies : List.Forall₂ DirectoryEntry.Copy entries copies) (query : Bytes) (topK : Nat) :
    SameWithReturns entries copies (app.search query topK) (app'.search query topK) := by
  obtain ⟨s, rest, -, hchunks, htop⟩ := search_loaded h query topK
  obtain ⟨s', rest', hsound', hchunks', htop'⟩ := search_loaded h' query topK
  rw [hstd] at htop'
  have hmatching : List.Forall₂ SearchResult.Copy (matching platform.std s.chunks query)
      (matching platform.std s'.chunks query) := by
    rw [hchunks, hchunks']
    exact matching_copy platform.std (loadDocuments_copy hcopies) query
  have hkeys : (app.search query topK).map rankKey = (app'.search query topK).map rankKey := by
    refine htop.map_eq (fun a b hab => ?_) htop' (List.Perm.of_eq ?_)
    · rwa [ranksHigher_iff, not_lt] at hab
    · rw [← List.forall₂_eq_eq_eq]
      exact List.rel_map (fun _ _ hcopy => hcopy.rankKey_eq.symm) hmatching
  rw [← List.forall₂_eq_eq_eq, List.forall₂_map_left_iff, List.forall₂_map_right_iff] at hkeys
  refine ⟨loadDocuments_copy hcopies, List.forall₂_iff_zip.mpr
    ⟨hkeys.length_eq, fun {result found} hzip => ?_⟩⟩
  -- in the copies, the counterpart of a result is the only one with its key
  have hkey := List.forall₂_zip hkeys hzip
  obtain ⟨hresult, hfound⟩ := List.of_mem_zip hzip
  obtain ⟨i, hi, rfl⟩ := List.getElem_of_mem (htop.subset hresult)
  have hi' := hmatching.length_eq ▸ hi
  have hcopy := hmatching.get hi hi'
  have hrank := hcopy.rankKey_eq.trans hkey
  have heq := SearchService.tieFree platform.std hsound'.numbered.nodup query _
    (List.getElem_mem hi') _ (htop'.subset hfound)
    (fun h => hrank.not_lt ((ranksHigher_iff _ _).mp h))
    (fun h => hrank.not_gt ((ranksHigher_iff _ _).mp h))
  exact heq ▸ hcopy

def sampleCopies : List DirectoryEntry :=
  sampleEntries.map fun entry => { entry with content := withCrlf entry.content }

theorem sampleCopies_lineEndings :
    ((sampleLoaded sampleCopies).search (ascii "cache lru") 5).map (·.chunk.id) = [1, 2] ∧
      SameWithReturns sampleEntries sampleCopies
        ((sampleLoaded sampleEntries).search (ascii "cache lru") 5)
        ((sampleLoaded sampleCopies).search (ascii "cache lru") 5) := by
  have hcopies : List.Forall₂ DirectoryEntry.Copy sampleEntries sampleCopies := by
    rw [sampleCopies, List.forall₂_map_right_iff, List.forall₂_same]
    exact fun entry _ => ⟨rfl, rfl, rfl, withCrlf_copy entry.content⟩
  exact ⟨by decide +kernel,
    @search_lineEndings ℚ _ _ samplePlatform samplePlatform _ _
      (fun _ => SearchService.sampleOrder _) (fun _ => SearchService.sampleOrder _) [] [] [] []
      sampleEntries sampleCopies rfl rfl rfl hcopies _ _⟩

end SearchApplication

end CppSearchServer.Search
