import CppSearchServer.Http.RequestGrammar

/-! `findHeader` against the header lines of the request.
The parser keeps one entry for each spelling of a field name, the lookup takes the first
entry in iteration order whose name matches ignoring case. Both agree for every order
exactly where the spellings of the name agree on the value. -/

namespace CppSearchServer.Http

open Library Library.Framing

/-- The lines behind the request line, up to the first blank one. -/
def requestHeaderLines (rawRequest : Bytes) : List Bytes :=
  (split crlf rawRequest).tail.takeWhile (· ≠ [])

def headerFields (rawRequest : Bytes) : List (Bytes × Bytes) :=
  (requestHeaderLines rawRequest).filterMap field

def firstField (rawRequest name : Bytes) : Option Bytes :=
  ((headerFields rawRequest).find? fun pair => equalsIgnoreCase pair.1 name).map Prod.snd

def asksToClose (rawRequest : Bytes) : Bool :=
  (firstField rawRequest (ascii "Connection")).any fun value =>
    equalsIgnoreCase value (ascii "close")

/-- Some spelling of `name` occurs, and `value` is the first one under that spelling. -/
def SpelledValue (rawRequest name value : Bytes) : Prop :=
  ∃ spelling, equalsIgnoreCase spelling name = true ∧
    UnorderedMap.firstValue spelling (headerFields rawRequest) = some value

def Unambiguous (rawRequest name : Bytes) : Prop :=
  ∀ v w, SpelledValue rawRequest name v → SpelledValue rawRequest name w → v = w

def CloseUnambiguous (rawRequest : Bytes) : Prop :=
  ∀ v w, SpelledValue rawRequest (ascii "Connection") v →
    SpelledValue rawRequest (ascii "Connection") w →
    equalsIgnoreCase v (ascii "close") = equalsIgnoreCase w (ascii "close")

/-! The parsed headers. -/

theorem headerLoop_empty_line (rest : Bytes) (headers : UnorderedMap Bytes Bytes) :
    headerLoop (crlf ++ rest) headers = .blankLine headers (crlf ++ rest) := by
  have hfind : find crlf (crlf ++ rest) = some 0 := by simp [crlf, ascii, find]
  rw [headerLoop, if_neg (by simp [crlf, ascii]), hfind]
  rfl

theorem headerLoop_fields {rest : Bytes} {headers result : UnorderedMap Bytes Bytes}
    (h : (headerLoop rest headers).headers = some result) :
    result = (((split crlf rest).takeWhile (· ≠ [])).filterMap field).foldl
      (fun headers pair => headers.emplace pair.1 pair.2) headers := by
  induction hn : rest.length using Nat.strong_induction_on generalizing rest headers with
  | h n ih =>
    by_cases hnil : rest = []
    · subst hnil
      rw [headerLoop, if_pos rfl] at h
      rw [split_of_find_none (by decide) rfl]
      exact (Option.some.inj h).symm
    cases hfind : find crlf rest with
    | none =>
      rw [headerLoop, if_neg hnil, hfind] at h
      cases h
    | some p =>
      have hpiece := isPiece_take hfind
      have hrest := eq_of_find hfind
      rw [split_of_find (by decide) hfind]
      rw [hrest] at h
      by_cases hblank : rest.take p = []
      · rw [hblank, List.nil_append, headerLoop_empty_line] at h
        rw [hblank]
        exact (Option.some.inj h).symm
      · have hlength : (rest.drop (p + crlf.length)).length < n := by
          have hpos := List.length_pos_of_ne_nil hnil
          have hcrlf : crlf.length = 2 := rfl
          rw [List.length_drop]
          omega
        rw [headerLoop_line hblank hpiece] at h
        rw [List.takeWhile_cons_of_pos (by simpa using hblank), List.filterMap_cons]
        cases hfield : field (rest.take p) with
        | none =>
          rw [hfield] at h
          cases h
        | some pair =>
          rw [hfield] at h
          exact ih _ hlength h rfl

theorem find_headers {rawRequest : Bytes} {parsed : HttpRequest}
    (h : parseRequest rawRequest = some parsed) (spelling : Bytes) :
    parsed.headers.find spelling =
      UnorderedMap.firstValue spelling (headerFields rawRequest) := by
  cases hfind : find crlf rawRequest with
  | none =>
    rw [parseRequest_of_find_none hfind] at h
    cases h
  | some p =>
    have hraw := eq_of_find hfind
    rw [hraw, parseRequest_line (isPiece_take hfind)] at h
    obtain ⟨head, -, h⟩ := Option.bind_eq_some_iff.mp h
    obtain ⟨headers, hheaders, rfl⟩ := Option.map_eq_some_iff.mp h
    rw [headerLoop_fields hheaders, headerFields, requestHeaderLines,
      split_of_find (by decide) hfind,
      List.tail_cons, UnorderedMap.find_foldl_emplace, UnorderedMap.find_empty, Option.none_or]

/-! The lookup. -/

section Lookup
variable {rawRequest : Bytes} {parsed : HttpRequest}

theorem spelledValue_of_findHeader (h : parseRequest rawRequest = some parsed)
    {order : IterationOrder (Bytes × Bytes)} {name value : Bytes}
    (hfound : findHeader order parsed name = some value) : SpelledValue rawRequest name value := by
  obtain ⟨⟨spelling, value'⟩, hfind, rfl⟩ := Option.map_eq_some_iff.mp hfound
  refine ⟨spelling, by simpa using List.find?_some hfind, ?_⟩
  rw [← find_headers h, ← UnorderedMap.mem_visit_iff parsed.headers order]
  exact List.mem_of_find?_eq_some hfind

theorem findHeader_isSome (h : parseRequest rawRequest = some parsed)
    (order : IterationOrder (Bytes × Bytes)) {name value : Bytes}
    (hvalue : SpelledValue rawRequest name value) :
    (findHeader order parsed name).isSome = true := by
  obtain ⟨spelling, hname, hfirst⟩ := hvalue
  rw [← find_headers h, ← UnorderedMap.mem_visit_iff parsed.headers order] at hfirst
  rw [findHeader, Option.isSome_map, List.find?_isSome]
  exact ⟨_, hfirst, hname⟩

theorem exists_findHeader (h : parseRequest rawRequest = some parsed) {name value : Bytes}
    (hvalue : SpelledValue rawRequest name value) :
    ∃ order, findHeader order parsed name = some value := by
  obtain ⟨spelling, hname, hfirst⟩ := hvalue
  refine ⟨.startingWith (spelling, value), ?_⟩
  rw [← find_headers h, ← UnorderedMap.mem_entries_iff] at hfirst
  rw [findHeader, IterationOrder.startingWith_visit hfirst]
  simp [hname]

theorem spelledValue_of_firstField {name value : Bytes}
    (hfirst : firstField rawRequest name = some value) : SpelledValue rawRequest name value := by
  obtain ⟨⟨spelling, value'⟩, hfind, rfl⟩ := Option.map_eq_some_iff.mp hfirst
  have hname : equalsIgnoreCase spelling name = true := by simpa using List.find?_some hfind
  obtain ⟨-, before, behind, hfields, hbefore⟩ := List.find?_eq_some_iff_append.mp hfind
  refine ⟨spelling, hname, ?_⟩
  have hnone : before.find? (fun pair => decide (pair.1 = spelling)) = none := by
    rw [List.find?_eq_none]
    intro pair hmem heq
    have hnot := hbefore pair hmem
    rw [of_decide_eq_true heq, hname] at hnot
    cases hnot
  rw [UnorderedMap.firstValue, hfields, List.find?_append, hnone]
  simp

theorem firstField_isSome {name value : Bytes} (hvalue : SpelledValue rawRequest name value) :
    (firstField rawRequest name).isSome = true := by
  obtain ⟨spelling, hname, hfirst⟩ := hvalue
  obtain ⟨pair, hfind, -⟩ := Option.map_eq_some_iff.mp hfirst
  have hspelling : pair.1 = spelling := by simpa using List.find?_some hfind
  rw [firstField, Option.isSome_map, List.find?_isSome]
  exact ⟨pair, List.mem_of_find?_eq_some hfind, hspelling ▸ hname⟩

/-- What is seen of the value depends on no order exactly where it is the same for all
spellings. -/
theorem seen_iff {α : Type*} (seen : Option Bytes → α) (h : parseRequest rawRequest = some parsed)
    (name : Bytes) :
    (∀ order, seen (findHeader order parsed name) = seen (firstField rawRequest name)) ↔
      ∀ v w, SpelledValue rawRequest name v → SpelledValue rawRequest name w →
        seen (some v) = seen (some w) := by
  constructor
  · intro hall v w hv hw
    obtain ⟨order, hfound⟩ := exists_findHeader h hv
    obtain ⟨order', hfound'⟩ := exists_findHeader h hw
    rw [← hfound, ← hfound', hall order, hall order']
  · intro hsame order
    cases hfound : findHeader order parsed name with
    | some v =>
      have hv := spelledValue_of_findHeader h hfound
      obtain ⟨w, hw⟩ := Option.isSome_iff_exists.mp (firstField_isSome hv)
      rw [hw, hsame v w hv (spelledValue_of_firstField hw)]
    | none =>
      cases hw : firstField rawRequest name with
      | none => rfl
      | some w =>
        have hsome := findHeader_isSome h order (spelledValue_of_firstField hw)
        rw [hfound] at hsome
        cases hsome

theorem findHeader_iff (h : parseRequest rawRequest = some parsed) (name : Bytes) :
    (∀ order, findHeader order parsed name = firstField rawRequest name) ↔
      Unambiguous rawRequest name := by
  simpa only [Unambiguous, id, Option.some.injEq] using seen_iff id h name

theorem shouldCloseConnection_eq (order : IterationOrder (Bytes × Bytes)) (parsed : HttpRequest) :
    shouldCloseConnection order parsed =
      (findHeader order parsed (ascii "Connection")).any fun value =>
        equalsIgnoreCase value (ascii "close") := by
  rw [shouldCloseConnection]
  cases findHeader order parsed (ascii "Connection") <;> rfl

theorem shouldCloseConnection_iff (h : parseRequest rawRequest = some parsed) :
    (∀ order, shouldCloseConnection order parsed = asksToClose rawRequest) ↔
      CloseUnambiguous rawRequest := by
  simp only [shouldCloseConnection_eq, asksToClose]
  exact seen_iff (fun value => value.any fun text => equalsIgnoreCase text (ascii "close")) h _

end Lookup

/-- Every iteration order finds the first matching line exactly where all spellings of the
name agree, and whether to close depends on no order exactly where they agree on that. -/
theorem headerLookup_iff {rawRequest : Bytes} {parsed : HttpRequest}
    (h : parseRequest rawRequest = some parsed) :
    (∀ name, (∀ order, findHeader order parsed name = firstField rawRequest name) ↔
      Unambiguous rawRequest name) ∧
    ((∀ order, shouldCloseConnection order parsed = asksToClose rawRequest) ↔
      CloseUnambiguous rawRequest) :=
  ⟨fun name => findHeader_iff h name, shouldCloseConnection_iff h⟩

def closeLine : Bytes := ascii "Connection: close"

def keepLine : Bytes := ascii "connection: keep"

def twoSpellings : Bytes :=
  plainLine ++ (crlf ++ (closeLine ++ (crlf ++ (keepLine ++ (crlf ++ crlf)))))

theorem twoSpellings_lines :
    IsPiece crlf plainLine ∧ IsPiece crlf closeLine ∧ IsPiece crlf keepLine := ⟨rfl, rfl, rfl⟩

theorem twoSpellings_fields : headerFields twoSpellings =
    [(ascii "Connection", ascii "close"), (ascii "connection", ascii "keep")] := by
  obtain ⟨hline, hclose, hkeep⟩ := twoSpellings_lines
  have hend : split crlf crlf = [[], []] := by
    have hnil : IsPiece crlf ([] : Bytes) := rfl
    have hlast : split crlf [] = [[]] := split_of_find_none (by decide) rfl
    have hsplit := split_piece (by decide) hnil []
    rwa [List.nil_append, List.append_nil, hlast] at hsplit
  have hsplit : split crlf twoSpellings = [plainLine, closeLine, keepLine, [], []] := by
    rw [twoSpellings, split_piece (by decide) hline, split_piece (by decide) hclose,
      split_piece (by decide) hkeep, hend]
  rw [headerFields, requestHeaderLines, hsplit]
  decide +kernel

theorem twoSpellings_accepted : ∃ parsed, parseRequest twoSpellings = some parsed := by
  obtain ⟨hline, hclose, hkeep⟩ := twoSpellings_lines
  have hcloseField : field closeLine = some (ascii "Connection", ascii "close") := rfl
  have hkeepField : field keepLine = some (ascii "connection", ascii "keep") := rfl
  apply Option.isSome_iff_exists.mp
  rw [twoSpellings, parseRequest_line_isSome hline, headerLoop_line (by decide) hclose, hcloseField]
  dsimp only
  rw [headerLoop_line (by decide) hkeep, hkeepField]
  dsimp only
  rw [headerLoop_blank]
  exact ⟨plainLine_parses, rfl⟩

theorem twoSpellings_spelled : SpelledValue twoSpellings (ascii "Connection") (ascii "close") ∧
    SpelledValue twoSpellings (ascii "Connection") (ascii "keep") := by
  constructor
  · exact ⟨ascii "Connection", by decide +kernel, by rw [twoSpellings_fields]; decide +kernel⟩
  · exact ⟨ascii "connection", by decide +kernel, by rw [twoSpellings_fields]; decide +kernel⟩

theorem twoSpellings_lookup : ∃ parsed, parseRequest twoSpellings = some parsed ∧
    (∀ name, (∀ order, findHeader order parsed name = firstField twoSpellings name) ↔
      Unambiguous twoSpellings name) ∧
    ((∀ order, shouldCloseConnection order parsed = asksToClose twoSpellings) ↔
      CloseUnambiguous twoSpellings) := by
  obtain ⟨parsed, hparsed⟩ := twoSpellings_accepted
  exact ⟨parsed, hparsed, headerLookup_iff hparsed⟩

/-- The order of the container decides which spelling is found, and whether to close. -/
theorem twoSpellings_orderDependent :
    (¬∀ rawRequest parsed, parseRequest rawRequest = some parsed →
      ∀ name order, findHeader order parsed name = firstField rawRequest name) ∧
    ¬∀ rawRequest parsed, parseRequest rawRequest = some parsed → ∀ order order',
      shouldCloseConnection order parsed = shouldCloseConnection order' parsed := by
  obtain ⟨parsed, hparsed⟩ := twoSpellings_accepted
  obtain ⟨hclose, hkeep⟩ := twoSpellings_spelled
  constructor
  · intro hall
    have hlookup := hall twoSpellings parsed hparsed (ascii "Connection")
    have hsame := (findHeader_iff hparsed _).mp hlookup _ _ hclose hkeep
    exact absurd hsame (by decide +kernel)
  · intro hall
    obtain ⟨order, hfound⟩ := exists_findHeader hparsed hclose
    obtain ⟨order', hfound'⟩ := exists_findHeader hparsed hkeep
    have hsame := hall twoSpellings parsed hparsed order order'
    rw [shouldCloseConnection_eq, shouldCloseConnection_eq, hfound, hfound'] at hsame
    exact absurd hsame (by decide +kernel)

end CppSearchServer.Http
