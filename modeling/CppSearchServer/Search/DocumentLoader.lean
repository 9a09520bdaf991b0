import CppSearchServer.Library.Numbering
import CppSearchServer.Search.SearchService

/-! `search::loadDocuments`. A directory is what the iteration over it yields, in
whatever order; `std::filesystem::relative` follows links, so an entry's relative path
is a field of its own. Ids run through over all documents, because each one is numbered
from the number of chunks before it. -/

namespace CppSearchServer.Search

open Library

abbrev Path := List Bytes

/-- `path.extension().string()`: a period at the front of the file name begins none. -/
def Path.extension (path : Path) : Bytes :=
  let filename := path.getLast?.getD []
  if filename = ascii "." ∨ filename = ascii ".." then []
  else
    match findLastOf 0x2e filename with
    | none | some 0 => []
    | some dot => filename.drop dot

def Path.genericString (path : Path) : Bytes := (ascii "/").intercalate path

def isSupportedDocument (path : Path) : Bool :=
  path.extension = ascii ".md" || path.extension = ascii ".txt"

structure DirectoryEntry where
  path : Path
  isRegularFile : Bool
  /-- What `readFile` returns; nothing if the file cannot be opened. -/
  content : Bytes
  /-- The path relative to the root of the documents. -/
  relativePath : Path
deriving DecidableEq, Repr

namespace DirectoryEntry

def category (entry : DirectoryEntry) : Bytes :=
  match entry.relativePath with
  | first :: _ :: _ => first
  | _ => ascii "uncategorized"

def isDocument (entry : DirectoryEntry) : Bool :=
  entry.isRegularFile && isSupportedDocument entry.path

def chunks (entry : DirectoryEntry) (firstChunkId : Nat) : List DocumentChunk :=
  chunkMarkdown entry.relativePath.genericString entry.category entry.content firstChunkId

end DirectoryEntry

structure Loader where
  chunks : List DocumentChunk
  nextChunkId : Nat

def Loader.loadEntry (s : Loader) (entry : DirectoryEntry) : Loader :=
  if !entry.isDocument then s
  else if entry.content.isEmpty then s
  else
    let documentChunks := entry.chunks s.nextChunkId
    { nextChunkId := s.nextChunkId + documentChunks.length
      chunks := s.chunks ++ documentChunks }

def loadDocuments (documentsRoot : Option (List DirectoryEntry)) : List DocumentChunk :=
  match documentsRoot with
  | none => []
  | some entries => (entries.foldl Loader.loadEntry ⟨[], 0⟩).chunks

def Trimmed (text : Bytes) : Prop :=
  (∃ c, text.head? = some c ∧ isspace c = false) ∧
    ∃ c, text.getLast? = some c ∧ isspace c = false

theorem trim_trimmed {value : Bytes} (h : trim value ≠ []) : Trimmed (trim value) := by
  constructor
  · have hprefix : trim value <+: value.dropWhile isspace := List.rdropWhile_prefix _ _
    have hbody : value.dropWhile isspace ≠ [] := hprefix.ne_nil h
    refine ⟨(value.dropWhile isspace).head hbody, ?_, ?_⟩
    · rw [List.head?_eq_some_head h, hprefix.head h]
    · simpa using List.head_dropWhile_not isspace hbody
  · refine ⟨(trim value).getLast h, List.getLast?_eq_some_getLast h, ?_⟩
    exact Bool.eq_false_iff.mpr (List.rdropWhile_last_not isspace _ h)

/-- The chunks of one document: numbered through, labelled with the document, trimmed. -/
structure DocumentChunks (sourcePath category : Bytes) (firstChunkId : Nat)
    (chunks : List DocumentChunk) : Prop where
  numbered : NumberedFrom DocumentChunk.id firstChunkId chunks
  labelled : ∀ chunk ∈ chunks, chunk.sourcePath = sourcePath ∧ chunk.category = category
  trimmed : ∀ chunk ∈ chunks, Trimmed chunk.rawText

section

variable {sourcePath category : Bytes} {firstChunkId : Nat} {chunks : List DocumentChunk}

theorem DocumentChunks.concat (h : DocumentChunks sourcePath category firstChunkId chunks)
    {title headingPath rawText : Bytes} (htext : Trimmed rawText) {id : Nat}
    (hid : id = firstChunkId + chunks.length) :
    DocumentChunks sourcePath category firstChunkId
      (chunks ++ [⟨id, sourcePath, category, title, headingPath, rawText⟩]) := by
  refine ⟨h.numbered.concat hid, ?_, ?_⟩
  · exact List.forall_mem_append.mpr ⟨h.labelled, by simp⟩
  · exact List.forall_mem_append.mpr ⟨h.trimmed, by simpa using htext⟩

namespace Chunker

/-- What the chunker keeps: without a heading it has made no chunk. -/
structure Sound (sourcePath category : Bytes) (firstChunkId : Nat) (s : Chunker) : Prop where
  chunks : DocumentChunks sourcePath category firstChunkId s.chunks
  none_before : s.headings = [] → s.chunks = []

variable {s : Chunker}

theorem Sound.flushCurrent (h : Sound sourcePath category firstChunkId s) :
    Sound sourcePath category firstChunkId (s.flushCurrent sourcePath category firstChunkId) := by
  refine ⟨?_, fun hnone => ?_⟩
  · unfold Chunker.flushCurrent
    dsimp only
    split
    · exact h.chunks
    · rename_i hkeep
      have htext : trim s.currentBody ≠ [] := by
        intro hnil
        simp [hnil] at hkeep
      exact h.chunks.concat (trim_trimmed htext) rfl
  · rw [flushCurrent_headings] at hnone
    rw [flushCurrent_preamble _ _ _ hnone]
    exact h.none_before hnone

theorem Sound.readLine (h : Sound sourcePath category firstChunkId s) (line : Bytes) :
    Sound sourcePath category firstChunkId
      (s.readLine sourcePath category firstChunkId line) := by
  by_cases hline : headingLevel line = 0
  · rw [readLine_text _ _ _ hline]
    exact ⟨h.chunks, h.none_before⟩
  · rw [readLine_heading _ _ _ hline]
    exact ⟨h.flushCurrent.chunks, fun hnone => absurd hnone (enterHeading_headings _ _ _)⟩

theorem Sound.readLines (h : Sound sourcePath category firstChunkId s) (lines : List Bytes) :
    Sound sourcePath category firstChunkId
      (lines.foldl (Chunker.readLine sourcePath category firstChunkId) s) := by
  induction lines generalizing s with
  | nil => exact h
  | cons line lines ih => exact ih (h.readLine line)

theorem Sound.finish (h : Sound sourcePath category firstChunkId s) :
    DocumentChunks sourcePath category firstChunkId
      (s.finish sourcePath category firstChunkId) := by
  have hflush := h.flushCurrent
  unfold Chunker.finish
  dsimp only
  split
  · rename_i hheadings
    have hnone := hflush.none_before (List.isEmpty_iff.mp hheadings)
    split
    · exact hflush.chunks
    · rename_i hbody
      exact hflush.chunks.concat (trim_trimmed (by simpa using hbody)) (by simp [hnone])
  · exact hflush.chunks

end Chunker

theorem chunkMarkdown_chunks (sourcePath category content : Bytes) (firstChunkId : Nat) :
    DocumentChunks sourcePath category firstChunkId
      (chunkMarkdown sourcePath category content firstChunkId) := by
  have hstart : Chunker.Sound sourcePath category firstChunkId ⟨[], [], [], []⟩ :=
    ⟨⟨.nil, nofun, nofun⟩, fun _ => rfl⟩
  exact (hstart.readLines (getlines content)).finish

end

namespace Loader

def Owns (document : DirectoryEntry) (block : List DocumentChunk) : Prop :=
  (∃ firstChunkId, block = document.chunks firstChunkId) ∧
    ∀ chunk ∈ block, chunk.sourcePath = document.relativePath.genericString ∧
      chunk.category = document.category

theorem owns_chunks (document : DirectoryEntry) (firstChunkId : Nat) :
    Owns document (document.chunks firstChunkId) :=
  ⟨⟨firstChunkId, rfl⟩, (chunkMarkdown_chunks _ _ _ _).labelled⟩

/-- After the documents `read`. -/
structure Sound (read : List DirectoryEntry) (s : Loader) : Prop where
  next : s.nextChunkId = s.chunks.length
  numbered : NumberedFrom DocumentChunk.id 0 s.chunks
  blocks : InBlocks Owns read s.chunks
  trimmed : ∀ chunk ∈ s.chunks, Trimmed chunk.rawText

variable {s : Loader} {read : List DirectoryEntry}

theorem Sound.append (h : Sound read s) (entry : DirectoryEntry) :
    Sound (read ++ [entry]) ⟨s.chunks ++ entry.chunks s.nextChunkId,
      s.nextChunkId + (entry.chunks s.nextChunkId).length⟩ := by
  have hchunks : DocumentChunks _ _ s.nextChunkId (entry.chunks s.nextChunkId) :=
    chunkMarkdown_chunks _ _ _ _
  refine ⟨?_, ?_, h.blocks.concat (owns_chunks entry _), ?_⟩
  · rw [List.length_append, h.next]
  · refine h.numbered.append ?_
    rw [Nat.zero_add, ← h.next]
    exact hchunks.numbered
  · exact List.forall_mem_append.mpr ⟨h.trimmed, hchunks.trimmed⟩

theorem Sound.loadEntry (h : Sound read s) (entry : DirectoryEntry) :
    Sound (read ++ [entry].filter DirectoryEntry.isDocument) (s.loadEntry entry) := by
  unfold Loader.loadEntry
  by_cases hdocument : entry.isDocument
  · rw [if_neg (by simp [hdocument]), List.filter_cons_of_pos hdocument, List.filter_nil]
    by_cases hempty : entry.content = []
    · -- an empty file has no chunks, so that its block is empty
      have hnone : entry.chunks s.nextChunkId = [] := by
        rw [DirectoryEntry.chunks, hempty]
        rfl
      have happend := h.append entry
      rw [hnone] at happend
      simpa [hempty] using happend
    · rw [if_neg (by simpa using hempty)]
      exact h.append entry
  · rw [if_pos (by simp [hdocument]), List.filter_cons_of_neg hdocument, List.filter_nil,
      List.append_nil]
    exact h

theorem Sound.loadEntries (h : Sound read s) (entries : List DirectoryEntry) :
    Sound (read ++ entries.filter DirectoryEntry.isDocument)
      (entries.foldl Loader.loadEntry s) := by
  induction entries generalizing s read with
  | nil => simpa using h
  | cons entry entries ih =>
    have hrest := ih (h.loadEntry entry)
    rwa [List.append_assoc, ← List.filter_append] at hrest

end Loader

def documents (documentsRoot : Option (List DirectoryEntry)) : List DirectoryEntry :=
  (documentsRoot.getD []).filter DirectoryEntry.isDocument

theorem loadDocuments_sound (documentsRoot : Option (List DirectoryEntry)) :
    ∃ s : Loader, s.Sound (documents documentsRoot) ∧ s.chunks = loadDocuments documentsRoot := by
  have hstart : Loader.Sound [] ⟨[], 0⟩ := ⟨rfl, .nil, .nil, nofun⟩
  cases documentsRoot with
  | none => exact ⟨⟨[], 0⟩, hstart, rfl⟩
  | some entries => exact ⟨_, hstart.loadEntries entries, rfl⟩

/-- Dense ids, the documents one after the other, trimmed texts, and a service on these
chunks that finds every chunk and every posting's chunk. -/
structure WellLoaded (documents : List DirectoryEntry) (chunks : List DocumentChunk) : Prop where
  dense : ∀ i, (h : i < chunks.length) → chunks[i].id = i
  contiguous : InBlocks Loader.Owns documents chunks
  trimmed : ∀ chunk ∈ chunks, Trimmed chunk.rawText
  kept : ∀ index, ∀ chunk ∈ chunks,
    (SearchService.new chunks index).chunksById.find chunk.id = some chunk
  resolved : ∀ index, InvertedIndex.Filled chunks index →
    ∀ term postings, index.findTerm term = some postings → ∀ posting ∈ postings,
      ∃ chunk ∈ chunks, term ∈ analyzeTerms chunk.rawText ∧
        (SearchService.new chunks index).chunksById.find posting.chunkId = some chunk

theorem loadDocuments_wellLoaded (documentsRoot : Option (List DirectoryEntry)) :
    WellLoaded (documents documentsRoot) (loadDocuments documentsRoot) := by
  obtain ⟨s, h, heq⟩ := loadDocuments_sound documentsRoot
  rw [← heq]
  have hkept : ∀ index, ∀ chunk ∈ s.chunks,
      (SearchService.new s.chunks index).chunksById.find chunk.id = some chunk :=
    fun index chunk hmem =>
      (SearchService.find_chunksById_iff index h.numbered.nodup _ _).mpr ⟨hmem, rfl⟩
  refine ⟨?_, h.blocks, h.trimmed, hkept, ?_⟩
  · intro i hi
    rw [h.numbered.key_getElem hi, Nat.zero_add]
  · intro index hfilled term postings hfind posting hposting
    have hscan := hfilled.findTerm term
    rw [hfind, Option.getD_some, InvertedIndex.scan_eq] at hscan
    rw [hscan] at hposting
    obtain ⟨chunk, hchunk, rfl⟩ := List.mem_map.mp hposting
    obtain ⟨hmem, hterm⟩ := List.mem_filter.mp hchunk
    exact ⟨chunk, hmem, by simpa using hterm, hkept index chunk hmem⟩

/-- A document with two sections, a picture, and a text at the root. -/
example :
    (loadDocuments (some
      [⟨[ascii "docs", ascii "a", ascii "b.md"], true, ascii "# T\nx\n## U\n y \n",
          [ascii "a", ascii "b.md"]⟩,
        ⟨[ascii "docs", ascii "c.png"], true, ascii "...", [ascii "c.png"]⟩,
        ⟨[ascii "docs", ascii "d.txt"], true, ascii " z\n", [ascii "d.txt"]⟩])).map
      (fun chunk => (chunk.id, chunk.category, chunk.title, chunk.rawText)) =
    [(0, ascii "a", ascii "T", ascii "x"), (1, ascii "a", ascii "T", ascii "y"),
      (2, ascii "uncategorized", ascii "d", ascii "z")] := by
  decide +kernel

end CppSearchServer.Search
