import CppSearchServer.Library.Json
import CppSearchServer.Search.SearchApplication

/-! The JSON of a search, read back. Scores are printed as `std::fixed` with a
precision of six prints a finite `double`. -/

namespace CppSearchServer.Search

open Library Library.Json

/-- `mantissa * 2 ^ exponent`, and the sign bit. -/
structure FiniteDouble where
  negative : Bool
  mantissa : Nat
  exponent : Int
deriving DecidableEq, Repr

namespace FiniteDouble

def millionths (score : FiniteDouble) : Nat :=
  let numerator := score.mantissa * 10 ^ 6 * 2 ^ score.exponent.toNat
  let denominator := 2 ^ (-score.exponent).toNat
  let quotient := numerator / denominator
  let remainder := numerator % denominator
  if 2 * remainder < denominator ∨ 2 * remainder = denominator ∧ quotient % 2 = 0 then quotient
  else quotient + 1

def sixDigits (n : Nat) : Bytes := List.replicate (6 - (decimal n).length) 0x30 ++ decimal n

/-- `std::fixed << std::setprecision(6) << score`. -/
def print (score : FiniteDouble) : Bytes :=
  (if score.negative then ascii "-" else []) ++ decimal (score.millionths / 10 ^ 6) ++
    (ascii "." ++ sixDigits (score.millionths % 10 ^ 6))

theorem print_isNumber (score : FiniteDouble) : Reads score.print (.number score.print) := by
  refine reads_number ?_ (decimal_ne_nil _) (isdigit_decimal _) (decimal_lead _) (.inr ?_)
  · split
    · exact .inr rfl
    · exact .inl rfl
  · refine ⟨sixDigits (score.millionths % 10 ^ 6), by simp [sixDigits, decimal_ne_nil], ?_, rfl⟩
    intro c hc
    rcases List.mem_append.mp hc with hc | hc
    · rw [(List.mem_replicate.mp hc).2]
      rfl
    · exact isdigit_decimal _ c hc

end FiniteDouble

theorem codeUnit_hexDigit {c : Byte} (hc : c < 0x20) :
    codeUnit 0x30 0x30 (hexDigit (c >>> 4)) (hexDigit (c &&& 0x0f)) = some c.toNat ∧
      utf8 c.toNat = [c] :=
  forall_byte (P := fun c => c < 0x20 →
    codeUnit 0x30 0x30 (hexDigit (c >>> 4)) (hexDigit (c &&& 0x0f)) = some c.toNat ∧
      utf8 c.toNat = [c]) (by decide +kernel) c hc

theorem readEscape_control {c : Byte} (hc : c < 0x20) (rest : Bytes) :
    readEscape (0x75 :: 0x30 :: 0x30 :: hexDigit (c >>> 4) :: hexDigit (c &&& 0x0f) :: rest) =
      some ([c], rest) := by
  obtain ⟨hunit, hutf8⟩ := codeUnit_hexDigit hc
  have hsmall : c.toNat < 0x20 := UInt8.lt_iff_toNat_lt.mp hc
  have hhigh : isHighSurrogate c.toNat = false := by
    simp [isHighSurrogate]
    omega
  have hlow : isLowSurrogate c.toNat = false := by
    simp [isLowSurrogate]
    omega
  simp [readEscape, readUnicode, readCodeUnit, hunit, hhigh, hlow, hutf8]

theorem readString_letter (letter : Byte) {value : Byte} (hletter : letter ≠ 0x75)
    (h : escaped letter = some value) (rest : Bytes) :
    readString ([0x5c, letter] ++ rest) = (readString rest).map fun r => (value :: r.1, r.2) := by
  have hread : readEscape (letter :: rest) = some ([value], rest) := by
    simp [readEscape, hletter, h]
  exact readString_escape hread

theorem readString_escapeCharacter (c : Byte) (rest : Bytes) :
    readString (escapeCharacter c ++ rest) = (readString rest).map fun r => (c :: r.1, r.2) := by
  unfold escapeCharacter
  split_ifs with hquote hbackslash hb hf hn hr ht hcontrol
  · exact hquote ▸ readString_letter 0x22 (by decide) rfl rest
  · exact hbackslash ▸ readString_letter 0x5c (by decide) rfl rest
  · exact hb ▸ readString_letter 0x62 (by decide) rfl rest
  · exact hf ▸ readString_letter 0x66 (by decide) rfl rest
  · exact hn ▸ readString_letter 0x6e (by decide) rfl rest
  · exact hr ▸ readString_letter 0x72 (by decide) rfl rest
  · exact ht ▸ readString_letter 0x74 (by decide) rfl rest
  · exact readString_escape (readEscape_control hcontrol rest)
  · exact readString_plain hquote hbackslash hcontrol rest

theorem escapeJson_readsString (value : Bytes) : ReadsString (escapeJson value) value := by
  intro rest
  induction value with
  | nil => exact readString_quote rest
  | cons c value ih =>
    rw [escapeJson, List.flatMap_cons, ← escapeJson, List.append_assoc,
      readString_escapeCharacter, ih, Option.map_some]

def quoted (value : Bytes) : Bytes := 0x22 :: (escapeJson value ++ [0x22])

theorem reads_quoted (value : Bytes) : Reads (quoted value) (.string value) :=
  reads_string (escapeJson_readsString value)

def resultValue (result : SearchResult FiniteDouble) : Value :=
  .object [(ascii "chunk_id", .number (decimal result.chunk.id)),
    (ascii "title", .string result.chunk.title),
    (ascii "category", .string result.chunk.category),
    (ascii "source_path", .string result.chunk.sourcePath),
    (ascii "heading_path", .string result.chunk.headingPath),
    (ascii "snippet", .string (makeSnippet result.chunk.rawText)),
    (ascii "matched_terms", .number (decimal result.matchedTerms)),
    (ascii "score", .number result.score.print)]

def answerValue (query : Bytes) (results : List (SearchResult FiniteDouble)) : Value :=
  .object [(ascii "query", .string query), (ascii "results", .array (results.map resultValue))]

theorem resultJson_eq (result : SearchResult FiniteDouble) :
    resultJson FiniteDouble.print result =
      0x7b :: ([0x2c].intercalate ([(ascii "chunk_id", decimal result.chunk.id),
        (ascii "title", quoted result.chunk.title),
        (ascii "category", quoted result.chunk.category),
        (ascii "source_path", quoted result.chunk.sourcePath),
        (ascii "heading_path", quoted result.chunk.headingPath),
        (ascii "snippet", quoted (makeSnippet result.chunk.rawText)),
        (ascii "matched_terms", decimal result.matchedTerms),
        (ascii "score", result.score.print)].map memberText) ++ [0x7d]) := by
  -- the equation of so long a definition is slow to make
  delta resultJson
  simp only [quoted, memberText, List.map_cons, List.map_nil,
    List.intercalate_cons_cons, List.intercalate_singleton, List.append_assoc, List.cons_append,
    List.nil_append]
  rfl

theorem reads_resultJson (result : SearchResult FiniteDouble) :
    Reads (resultJson FiniteDouble.print result) (resultValue result) := by
  rw [resultJson_eq]
  refine reads_object (.cons ?_ (.cons ?_ (.cons ?_ (.cons ?_ (.cons ?_ (.cons ?_ (.cons ?_
    (.cons ?_ .nil))))))))
  · exact readsMember_ascii (by decide) (reads_decimal _)
  · exact readsMember_ascii (by decide) (reads_quoted _)
  · exact readsMember_ascii (by decide) (reads_quoted _)
  · exact readsMember_ascii (by decide) (reads_quoted _)
  · exact readsMember_ascii (by decide) (reads_quoted _)
  · exact readsMember_ascii (by decide) (reads_quoted _)
  · exact readsMember_ascii (by decide) (reads_decimal _)
  · exact readsMember_ascii (by decide) result.score.print_isNumber

theorem toJson_eq (query : Bytes) (results : List (SearchResult FiniteDouble)) :
    toJson FiniteDouble.print query results =
      0x7b :: ([0x2c].intercalate ([(ascii "query", quoted query), (ascii "results",
        0x5b :: ([0x2c].intercalate (results.map (resultJson FiniteDouble.print)) ++
          [0x5d]))].map memberText) ++ [0x7d]) ++ [0x0a] := by
  simp only [toJson, quoted, memberText, List.map_cons, List.map_nil, List.intercalate_cons_cons,
    List.intercalate_singleton, List.append_assoc, List.cons_append, List.nil_append]
  rfl

/-- No field breaks out of its string: a reader finds the query and the results, and
nothing else. -/
theorem readJson_toJson (query : Bytes) (results : List (SearchResult FiniteDouble)) :
    readJson (toJson FiniteDouble.print query results) = some (answerValue query results) := by
  rw [toJson_eq]
  refine readJson_append (reads_object (.cons ?_ (.cons ?_ .nil)))
    (List.forall_mem_singleton.mpr rfl)
  · exact readsMember_ascii (by decide) (reads_quoted _)
  · refine readsMember_ascii (by decide) (reads_array ?_)
    rw [List.forall₂_map_left_iff, List.forall₂_map_right_iff]
    exact List.forall₂_same.mpr fun result _ => reads_resultJson result

end CppSearchServer.Search
