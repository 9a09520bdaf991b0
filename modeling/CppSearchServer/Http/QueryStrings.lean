import CppSearchServer.Http.RequestGrammar

/-! Query strings, written and read back.
Every byte of a key or a value may be written in several ways, and none of them
contains a separator: the query falls apart at the `&` and `=` that join it, and the
decoder undoes each byte's encoding. -/

namespace CppSearchServer.Http

open Library Library.Framing

/-- What stands for something else in a query, or ends the target or its line. -/
def isReserved (c : Byte) : Bool := [0x25, 0x2b, 0x26, 0x3d, 0x20, 0x0d, 0x0a].contains c

def isxdigit (c : Byte) : Bool :=
  isdigit c || (0x61 ≤ c && c ≤ 0x66) || (0x41 ≤ c && c ≤ 0x46)

/-- `encoded` writes the bytes of `text`, each in a way of its own. -/
inductive QueryEncoding : Bytes → Bytes → Prop where
  | nil : QueryEncoding [] []
  | plain {c : Byte} {text encoded : Bytes} : isReserved c = false →
      QueryEncoding text encoded → QueryEncoding (c :: text) (c :: encoded)
  | plus {text encoded : Bytes} :
      QueryEncoding text encoded → QueryEncoding (0x20 :: text) (0x2b :: encoded)
  | escape {high low h l : Byte} {text encoded : Bytes} :
      hexValue high = some h → hexValue low = some l → QueryEncoding text encoded →
      QueryEncoding ((16 * h + l) :: text) (0x25 :: high :: low :: encoded)

def EncodesPair (pair encoded : Bytes × Bytes) : Prop :=
  QueryEncoding pair.1 encoded.1 ∧ QueryEncoding pair.2 encoded.2

def queryItem (encoded : Bytes × Bytes) : Bytes := encoded.1 ++ 0x3d :: encoded.2

def queryText (encoded : List (Bytes × Bytes)) : Bytes :=
  ([0x26] : Bytes).intercalate (encoded.map queryItem)

def queryLine (path : Bytes) (encoded : List (Bytes × Bytes)) (version : Bytes) : Bytes :=
  ascii "GET" ++ 0x20 :: (path ++ 0x3f :: queryText encoded) ++ 0x20 :: version

def queryRequest (path : Bytes) (encoded : List (Bytes × Bytes)) (version : Bytes)
    (fields : List Bytes) : Bytes :=
  queryLine path encoded version ++ (crlf ++ (fields.flatMap (· ++ crlf) ++ crlf))

/-- Some `%` is not followed by two hexadecimal digits. Such a digit is no `%`, so that
every `%` up to the first of these begins an escape of its own. -/
def StrayPercent (s : Bytes) : Prop :=
  ∃ before behind, s = before ++ 0x25 :: behind ∧
    ¬∃ high low rest, behind = high :: low :: rest ∧ isxdigit high = true ∧ isxdigit low = true

/-! The encoding of one text. -/

theorem isxdigit_iff (c : Byte) : isxdigit c = true ↔ (hexValue c).isSome = true :=
  forall_byte (P := fun c => isxdigit c = true ↔ (hexValue c).isSome = true)
    (by decide +kernel) c

theorem hexValue_percent : hexValue 0x25 = none := by decide

theorem QueryEncoding.percentEncoded {text encoded : Bytes} (h : QueryEncoding text encoded) :
    PercentEncoded encoded text := by
  induction h with
  | nil => exact .nil
  | plain hc _ ih =>
    refine .plain ?_ ?_ ih
    · rintro rfl
      cases hc
    · rintro rfl
      cases hc
  | plus _ ih => exact .plus ih
  | escape hhigh hlow _ ih => exact .escape hhigh hlow ih

theorem QueryEncoding.ne_nil {text encoded : Bytes} (h : QueryEncoding text encoded)
    (hne : text ≠ []) : encoded ≠ [] := by
  cases h with
  | nil => exact absurd rfl hne
  | plain => simp
  | plus => simp
  | escape => simp

def separators : Bytes := [0x26, 0x3d, 0x20, 0x0d, 0x0a]

theorem notMem_separators_of_plain (c : Byte) : isReserved c = false → c ∉ separators :=
  forall_byte (P := fun c => isReserved c = false → c ∉ separators) (by decide +kernel) c

theorem notMem_separators_of_hex (c : Byte) : (hexValue c).isSome = true → c ∉ separators :=
  forall_byte (P := fun c => (hexValue c).isSome = true → c ∉ separators) (by decide +kernel) c

theorem QueryEncoding.notMem_separators {text encoded : Bytes} (h : QueryEncoding text encoded) :
    ∀ c ∈ encoded, c ∉ separators := by
  induction h with
  | nil => simp
  | plain hc _ ih => exact List.forall_mem_cons.mpr ⟨notMem_separators_of_plain _ hc, ih⟩
  | plus _ ih => exact List.forall_mem_cons.mpr ⟨by decide, ih⟩
  | escape hhigh hlow _ ih =>
    have hhigh' := notMem_separators_of_hex _ (Option.isSome_of_eq_some hhigh)
    have hlow' := notMem_separators_of_hex _ (Option.isSome_of_eq_some hlow)
    simp only [List.forall_mem_cons]
    exact ⟨by decide, hhigh', hlow', ih⟩

theorem QueryEncoding.notMem {text encoded : Bytes} (h : QueryEncoding text encoded) {c : Byte}
    (hc : c ∈ separators) : c ∉ encoded :=
  fun hmem => h.notMem_separators c hmem hc

/-! The query. -/

theorem sides_append {separator : Byte} {left : Bytes} (h : separator ∉ left) (right : Bytes) :
    sides separator (left ++ separator :: right) = (left, right) := by
  rw [sides, cutAt_eq_some_iff.mpr ⟨h, rfl⟩, Option.getD_some]

theorem parameter_queryItem {pair encoded : Bytes × Bytes} (h : EncodesPair pair encoded)
    (hkey : pair.1 ≠ []) : parameter (queryItem encoded) = some encoded := by
  have hcut : cutAt 0x3d (queryItem encoded) = some encoded :=
    cutAt_eq_some_iff.mpr ⟨h.1.notMem (by decide), rfl⟩
  rw [parameter, hcut]
  simpa [Option.filter] using h.1.ne_nil hkey

theorem queryItem_notMem {pair encoded : Bytes × Bytes} (h : EncodesPair pair encoded) {c : Byte}
    (hc : c ∈ separators) (hne : c ≠ 0x3d) : c ∉ queryItem encoded := by
  simp [queryItem, h.1.notMem hc, h.2.notMem hc, hne]

theorem filterMap_queryItem {pairs encoded : List (Bytes × Bytes)}
    (h : List.Forall₂ EncodesPair pairs encoded) (hkeys : ∀ pair ∈ pairs, pair.1 ≠ []) :
    (encoded.map queryItem).filterMap parameter = encoded := by
  induction h with
  | nil => rfl
  | cons hpair _ ih =>
    rw [List.map_cons, List.filterMap_cons, parameter_queryItem hpair (hkeys _ (by simp)),
      ih fun pair hmem => hkeys pair (by simp [hmem])]

theorem queryItems_notMem {pairs encoded : List (Bytes × Bytes)}
    (h : List.Forall₂ EncodesPair pairs encoded) {c : Byte} (hc : c ∈ separators)
    (hne : c ≠ 0x3d) : ∀ item ∈ encoded.map queryItem, c ∉ item := by
  induction h with
  | nil => simp
  | cons hpair _ ih => exact List.forall_mem_cons.mpr ⟨queryItem_notMem hpair hc hne, ih⟩

theorem split_queryText {pairs encoded : List (Bytes × Bytes)}
    (h : List.Forall₂ EncodesPair pairs encoded) (hkeys : ∀ pair ∈ pairs, pair.1 ≠ []) :
    (split [0x26] (queryText encoded)).filterMap parameter = encoded := by
  by_cases hnil : encoded = []
  · subst hnil
    rw [queryText, List.map_nil, List.intercalate_nil, split_of_find_none (by simp) rfl]
    rfl
  · have hpieces : ∀ item ∈ encoded.map queryItem, IsPiece [0x26] item := fun item hitem =>
      isPiece_of_notMem (queryItems_notMem h (by decide) (by decide) item hitem) []
    rw [queryText, split_intercalate (by simp) (by simpa using hnil) hpieces,
      filterMap_queryItem h hkeys]

theorem queryText_notMem {pairs encoded : List (Bytes × Bytes)}
    (h : List.Forall₂ EncodesPair pairs encoded) {c : Byte} (hc : c ∈ separators)
    (hne : c ≠ 0x3d) (hne' : c ≠ 0x26) : c ∉ queryText encoded :=
  notMem_intercalate (by simpa using hne') (queryItems_notMem h hc hne)

theorem decodes_of_encodes {pairs encoded : List (Bytes × Bytes)}
    (h : List.Forall₂ EncodesPair pairs encoded) : List.Forall₂ Decodes encoded pairs := by
  induction h with
  | nil => exact .nil
  | cons hpair _ ih => exact .cons ⟨hpair.1.percentEncoded, hpair.2.percentEncoded⟩ ih

/-! The request line. -/

section Line
variable {path version : Bytes} {pairs encoded : List (Bytes × Bytes)}

theorem queryLine_piece (h : List.Forall₂ EncodesPair pairs encoded) (hpath : 0x0d ∉ path)
    (hversion : IsPiece crlf version) : IsPiece crlf (queryLine path encoded version) := by
  have hbefore : (0x0d : Byte) ∉
      ascii "GET" ++ 0x20 :: (path ++ 0x3f :: queryText encoded) ++ [0x20] := by
    have hquery := queryText_notMem h (c := 0x0d) (by decide) (by decide) (by decide)
    simp [hpath, hquery, ascii]
  have hpiece := hversion.append_of_notMem hbefore
  rwa [List.append_assoc, List.singleton_append] at hpiece

theorem sides_queryLine (encoded : List (Bytes × Bytes)) :
    sides 0x20 (queryLine path encoded version) =
      (ascii "GET", path ++ 0x3f :: queryText encoded ++ 0x20 :: version) := by
  rw [queryLine, List.append_assoc, List.cons_append, sides_append (by decide)]

theorem lineTarget_queryLine (h : List.Forall₂ EncodesPair pairs encoded) (hpath : 0x20 ∉ path) :
    lineTarget (queryLine path encoded version) = path ++ 0x3f :: queryText encoded := by
  have hquery := queryText_notMem h (c := 0x20) (by decide) (by decide) (by decide)
  rw [lineTarget, sides_queryLine, sides_append (by simp [hpath, hquery])]

theorem parseRequestLine_query (h : List.Forall₂ EncodesPair pairs encoded)
    (hkeys : ∀ pair ∈ pairs, pair.1 ≠ []) (hspace : 0x20 ∉ path) (hquestion : 0x3f ∉ path) :
    parseRequestLine (queryLine path encoded version) =
      some (ascii "GET", path,
        pairs.foldl (fun params pair => params.emplace pair.1 pair.2) .empty) := by
  have hspaces : 2 ≤ (queryLine path encoded version).count 0x20 := by
    simp [queryLine, List.count_append]
    omega
  have hitems : (split [0x26] (queryText encoded)).foldlM
      (fun params item => addItem item params) .empty =
        some (pairs.foldl (fun params pair => params.emplace pair.1 pair.2) .empty) := by
    apply addItems_eq_some_iff.mpr
    rw [split_queryText h hkeys]
    exact ⟨pairs, decodes_of_encodes h, rfl⟩
  rw [parseRequestLine, if_pos hspaces, lineTarget_queryLine h hspace, sides_append hquestion,
    hitems, sides_queryLine]
  rfl

end Line

theorem parseRequest_query {path version : Bytes} {pairs encoded : List (Bytes × Bytes)}
    {fields : List Bytes} (h : List.Forall₂ EncodesPair pairs encoded)
    (hkeys : ∀ pair ∈ pairs, pair.1 ≠ [])
    (hpath : 0x3f ∉ path ∧ 0x20 ∉ path ∧ 0x0d ∉ path) (hversion : IsPiece crlf version)
    (hfields : ∀ line ∈ fields, IsPiece crlf line ∧ (field line).isSome = true) :
    ∃ parsed, parseRequest (queryRequest path encoded version fields) = some parsed ∧
      parsed.path = path ∧ ∀ key, parsed.queryParams.find key =
        UnorderedMap.firstValue key pairs := by
  have hlines : ∀ line ∈ fields, line ≠ [] ∧ IsPiece crlf line := by
    intro line hline
    refine ⟨?_, (hfields line hline).1⟩
    rintro rfl
    exact absurd (hfields [] hline).2 (by decide)
  have hall : ∀ line ∈ fields, (field line).isSome = true :=
    fun line hline => (hfields line hline).2
  rw [queryRequest, parseRequest_line (queryLine_piece h hpath.2.2 hversion),
    parseRequestLine_query h hkeys hpath.2.1 hpath.1, headerLoop_lines hlines, if_pos hall]
  refine ⟨_, rfl, rfl, fun key => ?_⟩
  simp [UnorderedMap.find_foldl_emplace]

/-! Escapes that are no escapes. -/

theorem not_strayPercent {s decoded : Bytes} (h : PercentEncoded s decoded) : ¬StrayPercent s := by
  rintro ⟨before, behind, hs, hstray⟩
  induction h generalizing before with
  | nil => simp at hs
  | plus _ ih =>
    cases before with
    | nil => simp at hs
    | cons b before =>
      rw [List.cons_append, List.cons.injEq] at hs
      exact ih before hs.2
  | plain _ hpercent _ ih =>
    cases before with
    | nil => exact hpercent (by simpa using congrArg List.head? hs)
    | cons b before =>
      rw [List.cons_append, List.cons.injEq] at hs
      exact ih before hs.2
  | escape hhigh hlow _ ih =>
    -- neither digit is the stray `%`, so it is the one at the front or one behind the escape
    match before, hs with
    | [], hs =>
      rw [List.nil_append, List.cons.injEq] at hs
      exact hstray ⟨_, _, _, hs.2.symm, (isxdigit_iff _).mpr (Option.isSome_of_eq_some hhigh),
        (isxdigit_iff _).mpr (Option.isSome_of_eq_some hlow)⟩
    | [_], hs =>
      simp only [List.cons_append, List.nil_append, List.cons.injEq] at hs
      rw [hs.2.1, hexValue_percent] at hhigh
      cases hhigh
    | [_, _], hs =>
      simp only [List.cons_append, List.nil_append, List.cons.injEq] at hs
      rw [hs.2.2.1, hexValue_percent] at hlow
      cases hlow
    | _ :: _ :: _ :: before, hs =>
      simp only [List.cons_append, List.cons.injEq] at hs
      exact ih before hs.2.2.2

theorem StrayPercent.append {s : Bytes} (h : StrayPercent s) (before : Bytes) :
    StrayPercent (before ++ s) := by
  obtain ⟨between, behind, rfl, hstray⟩ := h
  exact ⟨before ++ between, behind, by rw [List.append_assoc], hstray⟩

theorem urlDecode_eq_none_iff {s : Bytes} : urlDecode s = none ↔ StrayPercent s := by
  constructor
  · intro h
    fun_induction urlDecode s with
    | case1 => cases h
    | case2 rest ih => exact (ih (Option.map_eq_none_iff.mp h)).append [_]
    | case3 c rest _ _ ih => exact (ih (Option.map_eq_none_iff.mp h)).append [c]
    | case4 c _ _ high low rest _ _ _ _ ih =>
      exact (ih (Option.map_eq_none_iff.mp h)).append [c, high, low]
    | case5 c _ hpercent high low rest hnot =>
      refine ⟨[], high :: low :: rest, by rw [not_not.mp hpercent]; rfl, ?_⟩
      rintro ⟨high', low', rest', heq, hhigh, hlow⟩
      simp only [List.cons.injEq] at heq
      obtain ⟨rfl, rfl, rfl⟩ := heq
      obtain ⟨h', hh'⟩ := Option.isSome_iff_exists.mp ((isxdigit_iff _).mp hhigh)
      obtain ⟨l', hl'⟩ := Option.isSome_iff_exists.mp ((isxdigit_iff _).mp hlow)
      exact hnot h' l' hh' hl'
    | case6 c rest _ hpercent hshort =>
      refine ⟨[], rest, by rw [not_not.mp hpercent]; rfl, ?_⟩
      rintro ⟨high, low, rest', rfl, -⟩
      exact hshort high low rest' rfl
  · intro h
    cases hdecode : urlDecode s with
    | none => rfl
    | some decoded => exact absurd h (not_strayPercent (urlDecode_eq_some_iff.mp hdecode))

/-- However the pairs are encoded, the parser reads them back, the first value of each key;
and only a `%` without two hexadecimal digits behind it makes the decoder fail. -/
theorem queryString_roundTrip {path version : Bytes} {pairs encoded : List (Bytes × Bytes)}
    {fields : List Bytes} (h : List.Forall₂ EncodesPair pairs encoded)
    (hkeys : ∀ pair ∈ pairs, pair.1 ≠ [])
    (hpath : 0x3f ∉ path ∧ 0x20 ∉ path ∧ 0x0d ∉ path) (hversion : IsPiece crlf version)
    (hfields : ∀ line ∈ fields, IsPiece crlf line ∧ (field line).isSome = true) :
    (∃ parsed, parseRequest (queryRequest path encoded version fields) = some parsed ∧
      parsed.path = path ∧ ∀ key, parsed.queryParams.find key =
        UnorderedMap.firstValue key pairs) ∧
    ∀ s, urlDecode s = none ↔ StrayPercent s :=
  ⟨parseRequest_query h hkeys hpath hversion hfields, fun _ => urlDecode_eq_none_iff⟩

def samplePairs : List (Bytes × Bytes) := [(ascii "q", ascii "& "), (ascii "q", ascii "+")]

def sampleEncoded : List (Bytes × Bytes) :=
  [(ascii "q", ascii "%26+"), (ascii "%71", ascii "%2b")]

theorem sampleEncoded_encodes : List.Forall₂ EncodesPair samplePairs sampleEncoded :=
  .cons ⟨.plain rfl .nil, .escape (h := 2) (l := 6) rfl rfl (.plus .nil)⟩
    (.cons ⟨.escape (h := 7) (l := 1) rfl rfl .nil, .escape (h := 2) (l := 11) rfl rfl .nil⟩ .nil)

theorem sampleEncoded_roundTrip :
    (∃ parsed, parseRequest (queryRequest (ascii "/search") sampleEncoded (ascii "HTTP/1.1")
        [ascii "Host: a"]) = some parsed ∧ parsed.path = ascii "/search" ∧
      ∀ key, parsed.queryParams.find key = UnorderedMap.firstValue key samplePairs) ∧
    ∀ s, urlDecode s = none ↔ StrayPercent s :=
  queryString_roundTrip sampleEncoded_encodes (by decide +kernel) (by decide +kernel) rfl
    (List.forall_mem_singleton.mpr ⟨rfl, rfl⟩)

end CppSearchServer.Http
