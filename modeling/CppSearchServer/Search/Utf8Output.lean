import CppSearchServer.Library.Utf8
import CppSearchServer.Search.JsonOutput

/-! The JSON of a search as UTF-8. Escaping keeps characters whole, whatever they are;
`makeSnippet` counts bytes, so it may cut one. -/

namespace CppSearchServer.Search

open Library Library.Utf8

structure DocumentChunk.IsUtf8 (chunk : DocumentChunk) : Prop where
  title : Valid chunk.title
  category : Valid chunk.category
  sourcePath : Valid chunk.sourcePath
  headingPath : Valid chunk.headingPath
  rawText : Valid chunk.rawText

/-- The byte after the last one of a snippet belongs to a character begun before. -/
def SplitsCharacter (text : Bytes) : Prop :=
  ∃ b, text[kMaxSnippetLength]? = some b ∧ ¬b.IsUTF8FirstByte

theorem ascii_of_isdigit {c : Byte} (h : isdigit c = true) : c < 0x80 := by
  simp only [isdigit, Bool.and_eq_true, decide_eq_true_eq] at h
  exact UInt8.lt_of_le_of_lt h.2 (by decide)

theorem decimal_ascii (n : Nat) : Ascii (decimal n) := fun c hc =>
  ascii_of_isdigit (isdigit_decimal n c hc)

theorem FiniteDouble.print_ascii (score : FiniteDouble) : Ascii score.print := by
  intro c hc
  simp only [print, sixDigits, List.mem_append, List.mem_replicate] at hc
  rcases hc with (hsign | hint) | hpoint | hzero | hdigit
  · split at hsign
    · rw [show c = 0x2d by simpa [ascii] using hsign]
      decide
    · cases hsign
  · exact decimal_ascii _ c hint
  · rw [show c = 0x2e by simpa [ascii] using hpoint]
    decide
  · rw [hzero.2]
    decide
  · exact decimal_ascii _ c hdigit

theorem escapeCharacter_ascii {c : Byte} (hc : c < 0x80) :
    Ascii (escapeCharacter c) ∧ escapeCharacter c ≠ [] :=
  forall_byte (P := fun c => c < 0x80 → Ascii (escapeCharacter c) ∧ escapeCharacter c ≠ [])
    (by decide +kernel) c hc

theorem escapeCharacter_other {c : Byte} (hc : ¬c < 0x80) : escapeCharacter c = [c] :=
  forall_byte (P := fun c => ¬c < 0x80 → escapeCharacter c = [c]) (by decide +kernel) c hc

theorem escapeJson_valid_iff (value : Bytes) : Valid (escapeJson value) ↔ Valid value :=
  valid_flatMap (fun _ hc => escapeCharacter_ascii hc) (fun _ hc => escapeCharacter_other hc) value

theorem makeSnippet_valid_iff {text : Bytes} (h : Valid text) :
    Valid (makeSnippet text) ↔ ¬SplitsCharacter text := by
  unfold makeSnippet SplitsCharacter
  split
  · rename_i hle
    simp [h, List.getElem?_eq_none hle]
  · rw [valid_append_ascii_iff (by decide), h.take_iff]
    simp

section

variable {R : Type*} {printScore : R → Bytes}

theorem valid_append_literal {name : String} (hascii : Ascii (ascii name))
    (hne : ascii name ≠ []) {xs ys : Bytes} :
    Valid (xs ++ (ascii name ++ ys)) ↔ Valid xs ∧ Valid ys :=
  valid_append_ascii hascii hne

theorem valid_append_literal_iff {name : String} (hascii : Ascii (ascii name)) {xs : Bytes} :
    Valid (xs ++ ascii name) ↔ Valid xs :=
  valid_append_ascii_iff hascii

theorem valid_literal_append {name : String} (hascii : Ascii (ascii name)) {ys : Bytes} :
    Valid (ascii name ++ ys) ↔ Valid ys :=
  hascii.valid.append_iff

theorem resultJson_valid_iff (hprint : ∀ score, Ascii (printScore score))
    (result : SearchResult R) :
    Valid (resultJson printScore result) ↔ Valid result.chunk.title ∧
      Valid result.chunk.category ∧ Valid result.chunk.sourcePath ∧
      Valid result.chunk.headingPath ∧ Valid (makeSnippet result.chunk.rawText) := by
  have hid := (decimal_ascii result.chunk.id).valid
  have hterms := (decimal_ascii result.matchedTerms).valid
  have hscore := (hprint result.score).valid
  delta resultJson
  simp only [List.append_assoc]
  simp (disch := decide) only [valid_literal_append, valid_append_literal, escapeJson_valid_iff,
    hid, hterms, hscore, valid_append_literal_iff, true_and, and_true]

theorem toJson_valid_iff (query : Bytes) (results : List (SearchResult R)) :
    Valid (toJson printScore query results) ↔
      Valid query ∧ ∀ result ∈ results, Valid (resultJson printScore result) := by
  have hresults := valid_intercalate 0x2c (by decide)
    (results.map (resultJson printScore))
  rw [List.forall_mem_map] at hresults
  simp only [toJson, List.append_assoc]
  simp (disch := decide) only [valid_literal_append, valid_append_literal, escapeJson_valid_iff,
    valid_append_literal_iff]
  exact and_congr_right fun _ => hresults

/-- The answer is UTF-8 unless a character of a text runs over the end of its snippet. -/
theorem toJson_utf8_iff (hprint : ∀ score, Ascii (printScore score)) {query : Bytes}
    {results : List (SearchResult R)} (hquery : Valid query)
    (hchunks : ∀ result ∈ results, result.chunk.IsUtf8) :
    Valid (toJson printScore query results) ↔
      ∀ result ∈ results, ¬SplitsCharacter result.chunk.rawText := by
  rw [toJson_valid_iff]
  refine (and_iff_right hquery).trans (forall₂_congr fun result hresult => ?_)
  have hchunk := hchunks result hresult
  rw [resultJson_valid_iff hprint, makeSnippet_valid_iff hchunk.rawText]
  simp only [hchunk.title, hchunk.category, hchunk.sourcePath, hchunk.headingPath, true_and]

end

def sampleText (count : Nat) : List Char := List.replicate count (Char.ofNat 0x4e2d)

def sampleResult (text : List Char) : SearchResult FiniteDouble where
  chunk := ⟨1, ascii "a.md", ascii "docs", ascii "A", ascii "A",
    text.flatMap String.utf8EncodeChar⟩
  matchedTerms := 1
  score := ⟨false, 1, 0⟩

theorem sampleResult_isUtf8 (text : List Char) : (sampleResult text).chunk.IsUtf8 where
  title := (by decide : Ascii (ascii "A")).valid
  category := (by decide : Ascii (ascii "docs")).valid
  sourcePath := (by decide : Ascii (ascii "a.md")).valid
  headingPath := (by decide : Ascii (ascii "A")).valid
  rawText := ⟨text, rfl⟩

/-- A snippet of 80 whole characters. -/
theorem sampleText_utf8 :
    Valid (toJson FiniteDouble.print (ascii "a") [sampleResult (sampleText 81)]) := by
  refine (toJson_utf8_iff FiniteDouble.print_ascii (Ascii.valid (by decide)) ?_).mpr ?_
  · simpa using sampleResult_isUtf8 _
  · rw [List.forall_mem_singleton]
    rintro ⟨b, hb, hnot⟩
    have hlead : (sampleResult (sampleText 81)).chunk.rawText[kMaxSnippetLength]? = some 0xe4 := by
      decide +kernel
    rw [hlead, Option.some.injEq] at hb
    subst hb
    exact hnot (by decide)

/-- One letter before them, and the last character of the snippet loses its last byte. -/
theorem sampleText_not_utf8 :
    Valid (ascii "a") ∧ (sampleResult ('a' :: sampleText 80)).chunk.IsUtf8 ∧
      ¬Valid (toJson FiniteDouble.print (ascii "a") [sampleResult ('a' :: sampleText 80)]) := by
  refine ⟨Ascii.valid (by decide), sampleResult_isUtf8 _, fun hvalid => ?_⟩
  have hresult := ((toJson_valid_iff _ _).mp hvalid).2 _ (List.mem_singleton_self _)
  have hsnippet := ((resultJson_valid_iff FiniteDouble.print_ascii _).mp hresult).2.2.2.2
  refine (makeSnippet_valid_iff (sampleResult_isUtf8 _).rawText).mp hsnippet ⟨0xad, ?_, by decide⟩
  decide +kernel

end CppSearchServer.Search
