import CppSearchServer.Search.Tokenizer

/-! `search::chunkMarkdown`, and what it keeps of a document's terms.
`flushCurrent` trims the body also where it does not turn it into a chunk. Before
the first heading that takes the line break off the preamble, and the first line of
the first section is appended to its last word. -/

namespace CppSearchServer.Search

open Library.Words

def newline : Byte := 0x0a

/-- The lines `std::getline` reads; a final line break starts no further line. -/
def getlines : Bytes → List Bytes
  | [] => []
  | c :: rest =>
    if c = newline then [] :: getlines rest
    else
      match getlines rest with
      | [] => [[c]]
      | line :: lines => (c :: line) :: lines

def headingLevel (line : Bytes) : Nat :=
  let level := (line.takeWhile (· = 0x23)).length
  if level = 0 || level > 6 || level = line.length || getElem? line level ≠ some 0x20 then 0
  else level

def trim (value : Bytes) : Bytes := (value.dropWhile isspace).rdropWhile isspace

def joinHeadings (headings : List Bytes) : Bytes :=
  headings.foldl (fun path heading =>
    if heading.isEmpty then path
    else (if path.isEmpty then path else path ++ ascii " > ") ++ heading) []

def findLastOf (c : Byte) (s : Bytes) : Option Nat :=
  (s.reverse.findIdx? (· = c)).map fun i => s.length - 1 - i

def plainTextTitle (sourcePath : Bytes) : Bytes :=
  let nameBegin := match findLastOf 0x2f sourcePath with
    | none => 0
    | some slash => slash + 1
  let nameEnd := match findLastOf 0x2e sourcePath with
    | none => sourcePath.length
    | some dot => if dot < nameBegin then sourcePath.length else dot
  (sourcePath.drop nameBegin).take (nameEnd - nameBegin)

structure DocumentChunk where
  id : Nat
  sourcePath : Bytes
  category : Bytes
  title : Bytes
  headingPath : Bytes
  rawText : Bytes
deriving DecidableEq, Repr

/-- The local variables of `chunkMarkdown`. -/
structure Chunker where
  chunks : List DocumentChunk
  documentTitle : Bytes
  headings : List Bytes
  currentBody : Bytes

namespace Chunker

section

variable (sourcePath category : Bytes) (firstChunkId : Nat)

def flushCurrent (s : Chunker) : Chunker :=
  let s := { s with currentBody := trim s.currentBody }
  if s.currentBody.isEmpty || s.headings.isEmpty then s
  else
    let chunk : DocumentChunk :=
      { id := firstChunkId + s.chunks.length
        sourcePath := sourcePath
        category := category
        title := s.documentTitle
        headingPath := joinHeadings s.headings
        rawText := s.currentBody }
    { s with chunks := s.chunks ++ [chunk], currentBody := [] }

def enterHeading (level : Nat) (line : Bytes) (s : Chunker) : Chunker :=
  let heading := trim (line.drop (level + 1))
  let headings := if s.headings.length ≥ level then s.headings.take (level - 1) else s.headings
  { s with
    headings := headings ++ [heading]
    documentTitle := if level = 1 then heading else s.documentTitle }

def readLine (s : Chunker) (line : Bytes) : Chunker :=
  let level := headingLevel line
  if level = 0 then { s with currentBody := s.currentBody ++ line ++ [newline] }
  else (s.flushCurrent sourcePath category firstChunkId).enterHeading level line

def finish (s : Chunker) : List DocumentChunk :=
  let s := s.flushCurrent sourcePath category firstChunkId
  if s.headings.isEmpty then
    let body := trim s.currentBody
    if body.isEmpty then s.chunks
    else
      let title := plainTextTitle sourcePath
      s.chunks ++ [⟨firstChunkId, sourcePath, category, title, title, body⟩]
  else s.chunks

end

end Chunker

def chunkMarkdown (sourcePath category content : Bytes) (firstChunkId : Nat) :
    List DocumentChunk :=
  ((getlines content).foldl (Chunker.readLine sourcePath category firstChunkId)
    ⟨[], [], [], []⟩).finish sourcePath category firstChunkId

def DocumentChunk.withoutId (chunk : DocumentChunk) : DocumentChunk := { chunk with id := 0 }

theorem trim_concat (text : Bytes) {c : Byte} (hc : isspace c = true) :
    trim (text ++ [c]) = trim text := by
  rw [trim, trim, List.dropWhile_append]
  split
  · rename_i hempty
    rw [List.isEmpty_iff.mp hempty, List.dropWhile_cons_of_pos hc]
    rfl
  · exact List.rdropWhile_concat_pos _ _ _ hc

theorem analyzeTerms_trim (value : Bytes) : analyzeTerms (trim value) = analyzeTerms value := by
  have hspace := isTokenCharacter_of_isspace
  simp [analyzeTerms, tokenize_eq, trim, words_rdropWhile hspace, words_dropWhile hspace]

theorem analyzeTerms_newline (text : Bytes) :
    analyzeTerms (text ++ [newline]) = analyzeTerms text := by
  have hnewline : isTokenCharacter newline = false := by decide
  rw [analyzeTerms_append (by simp [Separated, hnewline])]
  simp [analyzeTerms, tokenize_eq, words_of_none, hnewline]

def bodyTerms (lines : List Bytes) : List Bytes :=
  (lines.filter fun line => headingLevel line = 0).flatMap analyzeTerms

def chunkTerms (chunks : List DocumentChunk) : List Bytes :=
  chunks.flatMap fun chunk => analyzeTerms chunk.rawText

namespace Chunker

def terms (s : Chunker) : List Bytes := chunkTerms s.chunks ++ analyzeTerms s.currentBody

def Sealed (body : Bytes) : Prop := body.getLast?.any isTokenCharacter = false

theorem sealed_newline (text : Bytes) : Sealed (text ++ [newline]) := by
  simp [Sealed, show isTokenCharacter newline = false by decide]

theorem enterHeading_terms (level : Nat) (line : Bytes) (s : Chunker) :
    (s.enterHeading level line).terms = s.terms := rfl

theorem enterHeading_headings (level : Nat) (line : Bytes) (s : Chunker) :
    (s.enterHeading level line).headings ≠ [] := by
  simp [enterHeading]

variable (sourcePath category : Bytes) (firstChunkId : Nat) {s : Chunker}

theorem flushCurrent_terms :
    (s.flushCurrent sourcePath category firstChunkId).terms = s.terms := by
  unfold flushCurrent
  dsimp only
  split
  · simp [terms, analyzeTerms_trim]
  · simp [terms, chunkTerms, analyzeTerms_trim]

theorem flushCurrent_headings :
    (s.flushCurrent sourcePath category firstChunkId).headings = s.headings := by
  unfold flushCurrent
  dsimp only
  split <;> rfl

theorem flushCurrent_documentTitle :
    (s.flushCurrent sourcePath category firstChunkId).documentTitle = s.documentTitle := by
  unfold flushCurrent
  dsimp only
  split <;> rfl

theorem flushCurrent_body (h : s.headings ≠ []) :
    (s.flushCurrent sourcePath category firstChunkId).currentBody = [] := by
  unfold flushCurrent
  dsimp only
  split
  · rename_i hempty
    simpa [h] using hempty
  · rfl

theorem flushCurrent_preamble (h : s.headings = []) :
    s.flushCurrent sourcePath category firstChunkId =
      { s with currentBody := trim s.currentBody } := by
  simp [flushCurrent, h]

theorem readLine_text {line : Bytes} (hline : headingLevel line = 0) :
    s.readLine sourcePath category firstChunkId line =
      { s with currentBody := s.currentBody ++ line ++ [newline] } := by
  simp [readLine, hline]

theorem readLine_heading {line : Bytes} (hline : headingLevel line ≠ 0) :
    s.readLine sourcePath category firstChunkId line =
      (s.flushCurrent sourcePath category firstChunkId).enterHeading (headingLevel line) line := by
  simp [readLine, hline]

theorem readLine_text_terms {line : Bytes} (hline : headingLevel line = 0)
    (hsealed : Separated isTokenCharacter s.currentBody line) :
    (s.readLine sourcePath category firstChunkId line).terms = s.terms ++ analyzeTerms line := by
  rw [readLine_text _ _ _ hline, terms, terms, analyzeTerms_newline, analyzeTerms_append hsealed]
  exact (List.append_assoc _ _ _).symm

theorem Sealed.separated {body : Bytes} (h : Sealed body) (line : Bytes) :
    Separated isTokenCharacter body line := fun hboth => by
  simp [Sealed, hboth.1] at h

theorem foldl_preamble {lines : List Bytes} (h : ∀ line ∈ lines, headingLevel line = 0) :
    lines.foldl (readLine sourcePath category firstChunkId) s =
      { s with currentBody := s.currentBody ++ lines.flatMap (· ++ [newline]) } := by
  induction lines generalizing s with
  | nil => simp
  | cons line lines ih =>
    rw [List.foldl_cons, readLine_text _ _ _ (h line (by simp)), ih fun l hl => h l (by simp [hl])]
    simp

theorem foldl_preamble_terms {lines : List Bytes} (h : ∀ line ∈ lines, headingLevel line = 0)
    (hsealed : Sealed s.currentBody) :
    (lines.foldl (readLine sourcePath category firstChunkId) s).terms =
      s.terms ++ lines.flatMap analyzeTerms := by
  induction lines generalizing s with
  | nil => simp
  | cons line lines ih =>
    have hline := h line (by simp)
    have hnext : Sealed (s.readLine sourcePath category firstChunkId line).currentBody := by
      rw [readLine_text _ _ _ hline]
      exact sealed_newline _
    rw [List.foldl_cons, ih (fun l hl => h l (by simp [hl])) hnext,
      readLine_text_terms _ _ _ hline (hsealed.separated line), List.flatMap_cons,
      List.append_assoc]

theorem foldl_section_terms (lines : List Bytes) (h : s.headings ≠ [])
    (hsealed : Sealed s.currentBody) :
    (lines.foldl (readLine sourcePath category firstChunkId) s).headings ≠ [] ∧
      (lines.foldl (readLine sourcePath category firstChunkId) s).terms =
        s.terms ++ bodyTerms lines := by
  induction lines generalizing s with
  | nil => exact ⟨h, by simp [bodyTerms]⟩
  | cons line lines ih =>
    rw [List.foldl_cons]
    by_cases hline : headingLevel line = 0
    · have hterms := readLine_text_terms sourcePath category firstChunkId hline
        (hsealed.separated line)
      have hread := readLine_text sourcePath category firstChunkId (s := s) hline
      obtain ⟨hheadings, hrest⟩ := ih (s := s.readLine sourcePath category firstChunkId line)
        (by rw [hread]; exact h) (by rw [hread]; exact sealed_newline _)
      refine ⟨hheadings, ?_⟩
      rw [hrest, hterms]
      simp [bodyTerms, hline]
    · have hread := readLine_heading sourcePath category firstChunkId (s := s) hline
      have hbody : (s.readLine sourcePath category firstChunkId line).currentBody = [] := by
        rw [hread]
        exact flushCurrent_body _ _ _ h
      obtain ⟨hheadings, hrest⟩ := ih (s := s.readLine sourcePath category firstChunkId line)
        (by rw [hread]; exact enterHeading_headings _ _ _) (by rw [hbody]; rfl)
      refine ⟨hheadings, ?_⟩
      rw [hrest, hread, enterHeading_terms, flushCurrent_terms]
      simp [bodyTerms, hline]

theorem finish_terms (s : Chunker) :
    chunkTerms (s.finish sourcePath category firstChunkId) = s.terms := by
  have hterms := flushCurrent_terms sourcePath category firstChunkId (s := s)
  rw [← hterms]
  unfold finish
  by_cases h : s.headings = []
  · rw [flushCurrent_preamble _ _ _ h]
    dsimp only
    rw [if_pos (by simp [h])]
    split
    · rename_i hempty
      have hbody : analyzeTerms (trim s.currentBody) = [] := by
        rw [← analyzeTerms_trim, List.isEmpty_iff.mp hempty, analyzeTerms_nil]
      simp [terms, hbody]
    · simp [terms, chunkTerms, analyzeTerms_trim]
  · have hkeep : (s.flushCurrent sourcePath category firstChunkId).headings ≠ [] := by
      rwa [flushCurrent_headings]
    dsimp only
    rw [if_neg (by simpa using hkeep)]
    simp [terms, flushCurrent_body _ _ _ h]

end Chunker

/-- The text before the first heading, as it is when that heading is read. -/
def preamble (lines : List Bytes) : Bytes :=
  trim ((lines.takeWhile fun line => headingLevel line = 0).flatMap (· ++ [newline]))

def runsOnFrom (body : Bytes) : List Bytes → Bool
  | [] => false
  | line :: _ =>
    headingLevel line = 0 && body.getLast?.any isTokenCharacter &&
      line.head?.any isTokenCharacter

/-- The preamble ends with a letter, and the line after the first heading is text
that begins with one. -/
def runsOn (content : Bytes) : Bool :=
  let lines := getlines content
  runsOnFrom (preamble lines) (lines.dropWhile fun line => headingLevel line = 0).tail

namespace Chunker

variable (sourcePath category : Bytes) (firstChunkId : Nat) {s : Chunker}

theorem foldl_afterHeading (lines : List Bytes) (h : s.headings ≠ []) :
    (lines.foldl (readLine sourcePath category firstChunkId) s).terms =
        s.terms ++ bodyTerms lines ↔ runsOnFrom s.currentBody lines = false := by
  cases lines with
  | nil => simp [bodyTerms, runsOnFrom]
  | cons line lines =>
    rw [List.foldl_cons]
    by_cases hline : headingLevel line = 0
    · have hread := readLine_text sourcePath category firstChunkId (s := s) hline
      have hrest := (foldl_section_terms sourcePath category firstChunkId lines
        (s := s.readLine sourcePath category firstChunkId line) (by rw [hread]; exact h)
        (by rw [hread]; exact sealed_newline _)).2
      have hkept : runsOnFrom s.currentBody (line :: lines) = false ↔
          Separated isTokenCharacter s.currentBody line := by
        simp [runsOnFrom, hline, Separated]
      have hterms : bodyTerms (line :: lines) = analyzeTerms line ++ bodyTerms lines := by
        simp [bodyTerms, hline]
      rw [hkept, ← analyzeTerms_append_iff, hrest, hread, hterms]
      simp only [terms, List.append_assoc, List.append_cancel_left_eq]
      rw [← List.append_assoc (analyzeTerms s.currentBody), List.append_cancel_right_eq,
        ← List.append_assoc s.currentBody, analyzeTerms_newline]
    · have hread := readLine_heading sourcePath category firstChunkId (s := s) hline
      have hbody : (s.readLine sourcePath category firstChunkId line).currentBody = [] := by
        rw [hread]
        exact flushCurrent_body _ _ _ h
      have hrest := (foldl_section_terms sourcePath category firstChunkId lines
        (s := s.readLine sourcePath category firstChunkId line)
        (by rw [hread]; exact enterHeading_headings _ _ _) (by rw [hbody]; rfl)).2
      rw [hrest, hread, enterHeading_terms, flushCurrent_terms]
      simp [bodyTerms, runsOnFrom, hline]

end Chunker

/-- The terms of a document are those of its lines, except where the first section
runs on from the preamble. -/
theorem chunkMarkdown_terms_iff (sourcePath category content : Bytes) (firstChunkId : Nat) :
    chunkTerms (chunkMarkdown sourcePath category content firstChunkId) =
      bodyTerms (getlines content) ↔ runsOn content = false := by
  rw [chunkMarkdown, Chunker.finish_terms, runsOn, preamble]
  have hpre : ∀ line ∈ (getlines content).takeWhile fun line => headingLevel line = 0,
      headingLevel line = 0 := fun line hmem => by simpa using List.mem_takeWhile_imp hmem
  have hsplit := List.takeWhile_append_dropWhile (p := fun line => headingLevel line = 0)
    (l := getlines content)
  have hfold := Chunker.foldl_preamble sourcePath category firstChunkId
    (s := ⟨[], [], [], []⟩) hpre
  have hterms := Chunker.foldl_preamble_terms sourcePath category firstChunkId
    (s := ⟨[], [], [], []⟩) hpre rfl
  generalize (getlines content).takeWhile _ = pre at *
  have hbody : ∀ rest, bodyTerms (pre ++ rest) = pre.flatMap analyzeTerms ++ bodyTerms rest := by
    intro rest
    have hkeep : pre.filter (fun line => headingLevel line = 0) = pre :=
      List.filter_eq_self.mpr fun line hmem => by simpa using hpre line hmem
    simp [bodyTerms, hkeep]
  cases hrest : (getlines content).dropWhile fun line => headingLevel line = 0 with
  | nil =>
    rw [hrest] at hsplit
    rw [← hsplit, hbody, List.append_nil, hterms]
    simp [Chunker.terms, chunkTerms, bodyTerms, runsOnFrom]
  | cons heading rest =>
    have hheading : headingLevel heading ≠ 0 := by
      have hnot := List.head_dropWhile_not (fun line => decide (headingLevel line = 0))
        (l := getlines content) (by simp [hrest])
      simpa [hrest] using hnot
    rw [hrest] at hsplit
    have hskip : bodyTerms (heading :: rest) = bodyTerms rest := by simp [bodyTerms, hheading]
    rw [← hsplit, hbody, hskip, List.foldl_append, List.foldl_cons,
      Chunker.readLine_heading _ _ _ hheading]
    have hstart : ((Chunker.flushCurrent sourcePath category firstChunkId
        (pre.foldl (Chunker.readLine sourcePath category firstChunkId)
          ⟨[], [], [], []⟩)).enterHeading (headingLevel heading) heading).terms =
        pre.flatMap analyzeTerms := by
      rw [Chunker.enterHeading_terms, Chunker.flushCurrent_terms, hterms]
      simp [Chunker.terms, chunkTerms]
    rw [← hstart, Chunker.foldl_afterHeading _ _ _ rest (Chunker.enterHeading_headings _ _ _),
      Chunker.flushCurrent_preamble _ _ _ (by rw [hfold]), hfold]
    rfl

theorem chunkMarkdown_merges_preamble :
    chunkTerms (chunkMarkdown [] [] (ascii "intro\n# T\nbody") 0) = [ascii "introbody"] ∧
      chunkTerms (chunkMarkdown [] [] (ascii "intro\n# T\nbody") 0) ≠
        bodyTerms (getlines (ascii "intro\n# T\nbody")) := by
  decide

end CppSearchServer.Search
