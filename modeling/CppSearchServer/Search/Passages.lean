import CppSearchServer.Search.HeadingPath
import CppSearchServer.Search.Retrieval

/-! What is loaded, without the loops: every document is cut at its headings into passages,
and the passages of all documents are numbered through. A document without headings is one
passage, titled with its file name. -/

namespace CppSearchServer.Search

open Library

def stem (filename : Bytes) : Bytes :=
  match findLastOf 0x2e filename with
  | none => filename
  | some dot => filename.take dot

namespace DirectoryEntry

def textPassage (document : DirectoryEntry) : DocumentChunk where
  id := 0
  sourcePath := document.relativePath.genericString
  category := document.category
  title := stem (document.relativePath.getLast?.getD [])
  headingPath := stem (document.relativePath.getLast?.getD [])
  rawText := trim document.content

def passages (document : DirectoryEntry) : List DocumentChunk :=
  if (getlines document.content).all fun line => headingLevel line = 0 then
    if (trim document.content).isEmpty then [] else [document.textPassage]
  else
    (chunkedSections document.content).map
      (MarkdownSection.passage document.relativePath.genericString document.category)

/-- A relative path of the file system names something, and no name holds a slash. -/
def Named (entry : DirectoryEntry) : Prop :=
  entry.relativePath ≠ [] ∧ ∀ name ∈ entry.relativePath, 0x2f ∉ name

instance (entry : DirectoryEntry) : Decidable entry.Named :=
  inferInstanceAs (Decidable (_ ∧ ∀ name ∈ entry.relativePath, 0x2f ∉ name))

end DirectoryEntry

section

variable {c : Byte} {u v : Bytes}

theorem findLastOf_eq_none_iff : findLastOf c u = none ↔ c ∉ u := by
  rw [findLastOf, Option.map_eq_none_iff, List.findIdx?_eq_none_iff]
  simp only [List.mem_reverse, decide_eq_false_iff_not]
  exact ⟨fun h hmem => h c hmem rfl, fun h d hd heq => h (heq ▸ hd)⟩

theorem findLastOf_append_left (h : c ∉ v) : findLastOf c (u ++ v) = findLastOf c u := by
  have hv : v.reverse.findIdx? (· = c) = none := by
    simpa [findLastOf] using findLastOf_eq_none_iff.mpr h
  rw [findLastOf, findLastOf, List.reverse_append, List.findIdx?_append, hv, Option.none_or,
    Option.map_map]
  refine congrArg (Option.map · _) (funext fun i => ?_)
  simp only [Function.comp, List.length_append, List.length_reverse]
  omega

theorem findLastOf_append_right {i : Nat} (h : findLastOf c v = some i) :
    findLastOf c (u ++ v) = some (u.length + i) := by
  obtain ⟨j, hj, rfl⟩ := Option.map_eq_some_iff.mp h
  have hlt := (List.findIdx?_eq_some_iff_findIdx_eq.mp hj).1
  rw [findLastOf, List.reverse_append, List.findIdx?_append, hj, Option.some_or, Option.map_some,
    List.length_append]
  rw [List.length_reverse] at hlt
  congr 1
  omega

theorem findLastOf_lt {i : Nat} (h : findLastOf c u = some i) : i < u.length := by
  obtain ⟨j, hj, rfl⟩ := Option.map_eq_some_iff.mp h
  have hlt := (List.findIdx?_eq_some_iff_findIdx_eq.mp hj).1
  rw [List.length_reverse] at hlt
  omega

theorem findLastOf_concat (c : Byte) (u : Bytes) : findLastOf c (u ++ [c]) = some u.length := by
  simp [findLastOf, List.findIdx?_cons]

end

theorem stem_append (dir filename : Bytes) :
    ((dir ++ filename).drop dir.length).take ((match findLastOf 0x2e (dir ++ filename) with
      | none => (dir ++ filename).length
      | some dot => if dot < dir.length then (dir ++ filename).length else dot) - dir.length) =
      stem filename := by
  have hwhole : (dir ++ filename).length - dir.length = filename.length := by
    rw [List.length_append, Nat.add_sub_cancel_left]
  rw [List.drop_left' rfl, stem]
  cases hdot : findLastOf 0x2e filename with
  | some dot =>
    rw [findLastOf_append_right hdot]
    dsimp only
    rw [if_neg (by omega), Nat.add_sub_cancel_left]
  | none =>
    rw [findLastOf_append_left (findLastOf_eq_none_iff.mp hdot)]
    cases hdir : findLastOf 0x2e dir with
    | none =>
      dsimp only
      rw [hwhole, List.take_length]
    | some dot =>
      dsimp only
      rw [if_pos (findLastOf_lt hdir), hwhole, List.take_length]

theorem plainTextTitle_append {dir filename : Bytes} (hfile : 0x2f ∉ filename)
    (hdir : dir = [] ∨ ∃ rest, dir = rest ++ [0x2f]) :
    plainTextTitle (dir ++ filename) = stem filename := by
  have hslash := findLastOf_append_left (u := dir) hfile
  rw [← stem_append dir filename, plainTextTitle]
  rcases hdir with rfl | ⟨rest, rfl⟩
  · rw [hslash]
    rfl
  · rw [hslash, findLastOf_concat]
    dsimp only
    have hlength : (rest ++ [0x2f]).length = rest.length + 1 := by simp
    generalize (rest ++ [0x2f]).length = start at hlength ⊢
    subst hlength
    rfl

theorem intercalate_concat (sep : Bytes) (dirs : List Bytes) (filename : Bytes) :
    sep.intercalate (dirs ++ [filename]) = dirs.flatMap (· ++ sep) ++ filename := by
  induction dirs with
  | nil => simp [List.intercalate]
  | cons dir dirs ih =>
    rw [List.cons_append, List.flatMap_cons, List.append_assoc, ← ih]
    cases dirs <;> simp [List.intercalate]

theorem DirectoryEntry.Named.plainTextTitle_eq {entry : DirectoryEntry} (h : entry.Named) :
    plainTextTitle entry.relativePath.genericString =
      stem (entry.relativePath.getLast?.getD []) := by
  obtain ⟨hne, hnames⟩ := h
  have hsplit := List.dropLast_append_getLast hne
  have hlast := hnames _ (List.getLast_mem hne)
  rw [List.getLast?_eq_some_getLast hne, Option.getD_some, Path.genericString]
  generalize entry.relativePath.getLast hne = filename at *
  generalize entry.relativePath.dropLast = dirs at *
  rw [← hsplit, intercalate_concat]
  refine plainTextTitle_append hlast ?_
  rcases List.eq_nil_or_concat dirs with rfl | ⟨dirs, dir, rfl⟩
  · exact .inl rfl
  · exact .inr ⟨dirs.flatMap (· ++ ascii "/") ++ dir, by simp [ascii]⟩

theorem trim_eq_self {text : Bytes} (h : Trimmed text) : trim text = text := by
  obtain ⟨⟨c, hhead, hc⟩, d, hlast, hd⟩ := h
  have hne : text ≠ [] := by
    rintro rfl
    cases hhead
  have hfront : text.dropWhile isspace = text := by
    obtain ⟨rest, rfl⟩ := List.head?_eq_some_iff.mp hhead
    rw [List.dropWhile_cons_of_neg (by simp [hc])]
  rw [trim, hfront, List.rdropWhile_eq_self_iff]
  intro hne
  rw [List.getLast?_eq_some_getLast hne, Option.some.injEq] at hlast
  simp [hlast, hd]

theorem trim_trim (text : Bytes) : trim (trim text) = trim text := by
  by_cases h : trim text = []
  · rw [h]
    rfl
  · exact trim_eq_self (trim_trimmed h)

theorem getlines_joined (content : Bytes) :
    (getlines content).flatMap (· ++ [newline]) = content ∨
      (getlines content).flatMap (· ++ [newline]) = content ++ [newline] := by
  induction content with
  | nil => exact .inl rfl
  | cons c content ih =>
    rw [getlines]
    split
    · rename_i hc
      subst hc
      exact ih.imp (congrArg (newline :: ·)) (congrArg (newline :: ·))
    · revert ih
      cases getlines content with
      | nil =>
        rintro (h | h)
        · exact .inr (by simpa using h)
        · simp at h
      | cons line lines => exact Or.imp (congrArg (c :: ·)) (congrArg (c :: ·))

theorem trim_getlines (content : Bytes) :
    trim ((getlines content).flatMap (· ++ [newline])) = trim content := by
  rcases getlines_joined content with h | h
  · rw [h]
  · rw [h, trim_concat content (by decide)]

theorem DirectoryEntry.Named.chunks_eq {document : DirectoryEntry} (h : document.Named)
    (first : Nat) :
    (document.chunks first).map DocumentChunk.withoutId = document.passages := by
  rw [DirectoryEntry.passages]
  split
  · rename_i hnone
    have hnone : ∀ line ∈ getlines document.content, headingLevel line = 0 := by
      simpa using hnone
    rw [DirectoryEntry.chunks, chunkMarkdown, Chunker.foldl_preamble _ _ _ hnone, Chunker.finish,
      Chunker.flushCurrent_preamble _ _ _ rfl]
    dsimp only
    rw [if_pos List.isEmpty_nil, trim_trim, List.nil_append, trim_getlines, h.plainTextTitle_eq]
    split <;> rfl
  · rename_i hsome
    have hsome : ∃ line ∈ getlines document.content, headingLevel line ≠ 0 := by
      simpa using hsome
    exact chunkMarkdown_passages _ _ first hsome

/-- The passages of the documents, numbered through. -/
theorem loadDocuments_eq_passages {entries : List DirectoryEntry}
    (h : ∀ entry ∈ entries, entry.Named) :
    loadDocuments (some entries) =
      ((documents (some entries)).flatMap DirectoryEntry.passages).mapIdx fun i passage =>
        { passage with id := i } := by
  obtain ⟨s, hsound, hchunks⟩ := loadDocuments_sound (some entries)
  have hpassages : s.chunks.map DocumentChunk.withoutId =
      (documents (some entries)).flatMap DirectoryEntry.passages := by
    rw [blocks_withoutId hsound.blocks]
    refine List.flatMap_congr fun document hmem => ?_
    exact (h document (List.mem_filter.mp hmem).1).chunks_eq 0
  rw [← hchunks, ← hpassages]
  refine List.ext_getElem (by simp) fun i hi _ => ?_
  have hid := hsound.numbered.key_getElem hi
  rw [Nat.zero_add] at hid
  rw [List.getElem_mapIdx, List.getElem_map]
  generalize s.chunks[i] = chunk at hid ⊢
  cases chunk
  cases hid
  rfl

theorem sampleEntries_passages :
    (loadDocuments (some SearchApplication.sampleEntries)).map (·.title) =
        [ascii "T", ascii "T", ascii "d"] ∧
      loadDocuments (some SearchApplication.sampleEntries) =
        ((documents (some SearchApplication.sampleEntries)).flatMap
          DirectoryEntry.passages).mapIdx fun i passage => { passage with id := i } :=
  ⟨by decide +kernel, loadDocuments_eq_passages (by decide +kernel)⟩

end CppSearchServer.Search
