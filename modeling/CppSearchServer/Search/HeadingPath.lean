import CppSearchServer.Library.Framing
import CppSearchServer.Library.Outline
import CppSearchServer.Search.MarkdownChunker

/-! The sections of a document with headings, and the heading path of a chunk against the
headings that enclose its section. The vector `headings` is cut by depth, so a heading
stays in it although a later one has closed its section by level. -/

namespace CppSearchServer.Search

open Library

structure Heading where
  level : Nat
  text : Bytes
  level_pos : 0 < level

def headingOf (line : Bytes) (h : headingLevel line ≠ 0) : Heading where
  level := headingLevel line
  text := trim (line.drop (headingLevel line + 1))
  level_pos := Nat.pos_of_ne_zero h

structure MarkdownSection where
  headings : List Heading
  body : Bytes

/-- The text before the first heading is counted to the section of that heading. -/
def sectionsFrom (headings : List Heading) (body : Bytes) : List Bytes → List MarkdownSection
  | [] => [⟨headings, body⟩]
  | line :: lines =>
    if h : headingLevel line = 0 then sectionsFrom headings (body ++ line ++ [newline]) lines
    else
      ⟨headings, body⟩ ::
        sectionsFrom (headingOf line h :: headings) (if headings.isEmpty then trim body else [])
          lines

namespace MarkdownSection

def yieldsChunk (s : MarkdownSection) : Bool := !s.headings.isEmpty && !(trim s.body).isEmpty

/-- The heading of the section and those that enclose it, outermost first. -/
def chain (s : MarkdownSection) : List Heading := (Outline.chain Heading.level s.headings).reverse

def path (s : MarkdownSection) : Bytes :=
  (ascii " > ").intercalate ((s.chain.map Heading.text).filter (· ≠ []))

/-- Every heading with a text whose section a later one has closed by level has also been
cut off by depth. -/
def CutsClosed (s : MarkdownSection) : Prop :=
  ∀ after heading before, s.headings = after ++ heading :: before → heading.text ≠ [] →
    (∃ later ∈ after, later.level ≤ heading.level) →
    ∃ later ∈ after, Outline.Within Heading.level later.level (heading :: before)

end MarkdownSection

def chunkedSections (content : Bytes) : List MarkdownSection :=
  (sectionsFrom [] [] (getlines content)).filter MarkdownSection.yieldsChunk

theorem joinHeadings_eq (headings : List Bytes) :
    joinHeadings headings = (ascii " > ").intercalate (headings.filter (· ≠ [])) := by
  have hfrom : ∀ first rest, first ≠ [] → List.foldl (fun path heading =>
      if heading.isEmpty then path
      else (if path.isEmpty then path else path ++ ascii " > ") ++ heading) first rest =
      (ascii " > ").intercalate (first :: rest.filter (· ≠ [])) := by
    intro first rest hfirst
    induction rest generalizing first with
    | nil => simp [List.intercalate]
    | cons heading rest ih =>
      rw [List.foldl_cons]
      by_cases hheading : heading = []
      · simpa [hheading] using ih first hfirst
      · rw [if_neg (by simpa using hheading), if_neg (by simpa using hfirst),
          ih _ (by simp [hfirst]), List.filter_cons_of_pos (by simpa using hheading)]
        cases rest.filter (· ≠ []) <;> simp [List.intercalate]
  unfold joinHeadings
  induction headings with
  | nil => simp [List.intercalate]
  | cons heading rest ih =>
    by_cases hheading : heading = []
    · simpa [hheading] using ih
    · rw [List.foldl_cons, if_neg (by simpa using hheading),
        List.filter_cons_of_pos (by simpa using hheading)]
      simpa using hfrom heading rest hheading

def headingVector (headings : List Heading) : List Bytes :=
  (Outline.stack Heading.level headings).map Heading.text

def titleOf (headings : List Heading) : Bytes :=
  ((headings.find? fun heading => heading.level = 1).map Heading.text).getD []

/-- The chunk of a section, but for its id. -/
def MarkdownSection.passage (sourcePath category : Bytes) (s : MarkdownSection) :
    DocumentChunk where
  id := 0
  sourcePath := sourcePath
  category := category
  title := titleOf s.headings
  headingPath := joinHeadings (headingVector s.headings)
  rawText := trim s.body

theorem headingVector_ne_nil {headings : List Heading} (h : headings ≠ []) :
    headingVector headings ≠ [] := by
  cases headings with
  | nil => exact absurd rfl h
  | cons heading before => simp [headingVector, Outline.stack]

theorem headingVector_isEmpty (headings : List Heading) :
    (headingVector headings).isEmpty = headings.isEmpty := by
  cases headings <;> simp [headingVector, Outline.stack]

namespace Chunker

/-- A run that has read `headings`. -/
structure Reads (headings : List Heading) (s : Chunker) : Prop where
  vector : s.headings = headingVector headings
  documentTitle : s.documentTitle = titleOf headings

variable (sourcePath category : Bytes) (firstChunkId : Nat) {s : Chunker}
  {headings : List Heading}

theorem Reads.flushed (h : Reads headings s) :
    Reads headings (s.flushCurrent sourcePath category firstChunkId) :=
  ⟨(flushCurrent_headings _ _ _).trans h.vector,
    (flushCurrent_documentTitle _ _ _).trans h.documentTitle⟩

theorem Reads.flushCurrent (h : Reads headings s) :
    (s.flushCurrent sourcePath category firstChunkId).chunks.map DocumentChunk.withoutId =
      s.chunks.map DocumentChunk.withoutId ++
        ([⟨headings, s.currentBody⟩].filter MarkdownSection.yieldsChunk).map
          (MarkdownSection.passage sourcePath category) := by
  unfold Chunker.flushCurrent
  dsimp only
  rw [h.vector, headingVector_isEmpty]
  split
  · rename_i hskip
    rw [List.filter_cons_of_neg (by simp only [MarkdownSection.yieldsChunk]; grind)]
    simp
  · rename_i hkeep
    rw [List.filter_cons_of_pos (by simp only [MarkdownSection.yieldsChunk]; grind)]
    simp [DocumentChunk.withoutId, MarkdownSection.passage, h.documentTitle]

theorem Reads.flushCurrent_leaves (h : Reads headings s) :
    (s.flushCurrent sourcePath category firstChunkId).currentBody =
      if headings.isEmpty then trim s.currentBody else [] := by
  cases headings with
  | nil => rw [flushCurrent_preamble _ _ _ h.vector, List.isEmpty_nil, if_pos rfl]
  | cons heading before =>
    rw [flushCurrent_body _ _ _ (h.vector ▸ headingVector_ne_nil (by simp))]
    rfl

theorem Reads.enterHeading (h : Reads headings s) {line : Bytes} (hline : headingLevel line ≠ 0) :
    Reads (headingOf line hline :: headings) (s.enterHeading (headingLevel line) line) := by
  have hcut : (if s.headings.length ≥ headingLevel line
      then s.headings.take (headingLevel line - 1) else s.headings) =
      s.headings.take (headingLevel line - 1) := by
    split
    · rfl
    · rw [List.take_of_length_le (by omega)]
  constructor
  · rw [Chunker.enterHeading]
    dsimp only
    rw [hcut, h.vector, headingVector, headingVector, Outline.stack, List.map_append,
      List.map_take]
    rfl
  · rw [Chunker.enterHeading, titleOf, List.find?_cons]
    dsimp only [headingOf]
    by_cases hfirst : headingLevel line = 1
    · simp [hfirst]
    · simp [hfirst, h.documentTitle, titleOf]

/-- The chunks of a run are the passages of the sections it reads. -/
theorem Reads.foldl (lines : List Bytes) (h : Reads headings s)
    (hsome : headings ≠ [] ∨ ∃ line ∈ lines, headingLevel line ≠ 0) :
    ((lines.foldl (readLine sourcePath category firstChunkId) s).finish
        sourcePath category firstChunkId).map DocumentChunk.withoutId =
      s.chunks.map DocumentChunk.withoutId ++ ((sectionsFrom headings s.currentBody lines).filter
        MarkdownSection.yieldsChunk).map (MarkdownSection.passage sourcePath category) := by
  induction lines generalizing s headings with
  | nil =>
    have hheadings : (s.flushCurrent sourcePath category firstChunkId).headings ≠ [] := by
      rw [flushCurrent_headings, h.vector]
      exact headingVector_ne_nil (by simpa using hsome)
    rw [List.foldl_nil, finish]
    dsimp only
    rw [if_neg (by simpa using hheadings), h.flushCurrent, sectionsFrom]
  | cons line lines ih =>
    rw [List.foldl_cons, sectionsFrom]
    by_cases hline : headingLevel line = 0
    · rw [dif_pos hline, readLine_text _ _ _ hline]
      refine ih ⟨h.vector, h.documentTitle⟩ (hsome.imp_right ?_)
      rintro ⟨heading, hmem, hheading⟩
      rcases List.mem_cons.mp hmem with rfl | hmem
      · exact absurd hline hheading
      · exact ⟨heading, hmem, hheading⟩
    · have hnext := (h.flushed sourcePath category firstChunkId).enterHeading hline
      rw [dif_neg hline, readLine_heading _ _ _ hline, ih hnext (.inl (by simp)),
        ← h.flushCurrent_leaves sourcePath category firstChunkId, Chunker.enterHeading]
      dsimp only
      rw [h.flushCurrent, List.append_assoc, ← List.map_append, ← List.filter_append,
        List.singleton_append]

end Chunker

theorem sectionsFrom_text {lines : List Bytes} (h : ∀ line ∈ lines, headingLevel line = 0)
    (body : Bytes) : ∃ text, sectionsFrom [] body lines = [⟨[], text⟩] := by
  induction lines generalizing body with
  | nil => exact ⟨body, rfl⟩
  | cons line lines ih =>
    rw [sectionsFrom, dif_pos (h line (by simp))]
    exact ih (fun l hl => h l (by simp [hl])) _

theorem chunkedSections_text {content : Bytes}
    (h : ∀ line ∈ getlines content, headingLevel line = 0) : chunkedSections content = [] := by
  obtain ⟨text, htext⟩ := sectionsFrom_text h []
  rw [chunkedSections, htext]
  rfl

theorem chunkMarkdown_passages (sourcePath category : Bytes) {content : Bytes} (firstChunkId : Nat)
    (h : ∃ line ∈ getlines content, headingLevel line ≠ 0) :
    (chunkMarkdown sourcePath category content firstChunkId).map DocumentChunk.withoutId =
      (chunkedSections content).map (MarkdownSection.passage sourcePath category) := by
  have hreads : Chunker.Reads [] ⟨[], [], [], []⟩ := ⟨rfl, rfl⟩
  exact hreads.foldl sourcePath category firstChunkId _ (.inr h)

/-- The vector and the chain are written alike exactly when they differ in headings
without a text. -/
theorem joinHeadings_vector_iff (s : MarkdownSection) :
    joinHeadings (headingVector s.headings) = s.path ↔
      s.CutsClosed := by
  have hfilter : ∀ headings : List Heading, (headings.map Heading.text).filter (· ≠ []) =
      (headings.filter fun heading => heading.text ≠ []).map Heading.text := fun headings => by
    rw [List.filter_map]
    rfl
  have hiff := Outline.filter_stack_eq_iff Heading.level_pos
    (fun heading => heading.text ≠ []) s.headings
  refine Iff.trans ?_ hiff
  rw [joinHeadings_eq, MarkdownSection.path, headingVector, hfilter, hfilter, ← List.filter_reverse]
  change _ ↔ _ = s.chain.filter _
  have hsub := (Outline.chain_sublist_stack Heading.level_pos s.headings).filter
    (fun heading => heading.text ≠ [])
  constructor
  · intro heq
    have htexts := Framing.eq_of_intercalate_eq (hsub.map Heading.text) ?_ heq.symm
    · have hlength := congrArg List.length htexts
      rw [List.length_map, List.length_map] at hlength
      exact (hsub.eq_of_length hlength).symm
    · intro text htext
      obtain ⟨heading, hmem, rfl⟩ := List.mem_map.mp htext
      simpa using (List.mem_filter.mp hmem).2
  · intro heq
    rw [heq]

theorem forall_mem_zip_iff {α β γ : Type*} {xs : List α} {ys : List β} {f : β → γ} {g : α → γ}
    (h : ys.map f = xs.map g) (value : α → γ) :
    (∀ pair ∈ xs.zip ys, f pair.2 = value pair.1) ↔ ∀ x ∈ xs, g x = value x := by
  induction xs generalizing ys with
  | nil => simp
  | cons x xs ih =>
    cases ys with
    | nil => cases h
    | cons y ys =>
      obtain ⟨hhead, htail⟩ := List.cons.inj h
      rw [List.zip_cons_cons, List.forall_mem_cons, List.forall_mem_cons, ih htail, hhead]

/-- With a heading in the document there is one chunk for each section with a text. Each
shows the chain of its headings if and only if none of these sections keeps a closed heading. -/
theorem headingPath_eq_chain_iff (sourcePath category content : Bytes) (firstChunkId : Nat) :
    ((∃ line ∈ getlines content, headingLevel line ≠ 0) →
      (chunkMarkdown sourcePath category content firstChunkId).map (·.rawText) =
        (chunkedSections content).map fun s => trim s.body) ∧
    ((∀ pair ∈ (chunkedSections content).zip
        (chunkMarkdown sourcePath category content firstChunkId),
      pair.2.headingPath = pair.1.path) ↔
      ∀ s ∈ chunkedSections content, s.CutsClosed) := by
  have hview : ∀ {α : Type} (view : DocumentChunk → α),
      (∀ chunk, view chunk.withoutId = view chunk) →
      (∃ line ∈ getlines content, headingLevel line ≠ 0) →
      (chunkMarkdown sourcePath category content firstChunkId).map view =
        (chunkedSections content).map fun s => view (s.passage sourcePath category) := by
    intro α view hid hsome
    have hpassages := congrArg (List.map view)
      (chunkMarkdown_passages sourcePath category firstChunkId hsome)
    rw [List.map_map, List.map_map] at hpassages
    simpa only [Function.comp_def, hid] using hpassages
  refine ⟨hview (·.rawText) fun _ => rfl, ?_⟩
  by_cases hsome : ∃ line ∈ getlines content, headingLevel line ≠ 0
  · have hpaths := hview (·.headingPath) (fun _ => rfl) hsome
    refine (forall_mem_zip_iff hpaths MarkdownSection.path).trans ?_
    exact forall₂_congr fun s _ => joinHeadings_vector_iff s
  · have hnone : ∀ line ∈ getlines content, headingLevel line = 0 := by
      simpa using hsome
    simp [chunkedSections_text hnone]

/-- Two headings of one level, where the document has none of the first level. -/
theorem headingPath_nests_siblings :
    (chunkMarkdown [] [] (ascii "## B\nx\n## C\ny") 0).map (·.headingPath) =
        [ascii "B", ascii "B > C"] ∧
      ¬∀ pair ∈ (chunkedSections (ascii "## B\nx\n## C\ny")).zip
          (chunkMarkdown [] [] (ascii "## B\nx\n## C\ny") 0),
        pair.2.headingPath = pair.1.path := by
  decide +kernel

end CppSearchServer.Search
