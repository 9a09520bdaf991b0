import CppSearchServer.Http.HttpRequest

/-! The grammar of requests, and `parseRequest` against it.
A request as the connection extracts it ends at its first blank line. Cutting it
into lines once is what the parser does by looking for the next line end from where
it stands, and both find the same end. -/

namespace CppSearchServer.Http

open Library Library.Framing

/-- `decoded` is what the percent-encoded `encoded` stands for. -/
inductive PercentEncoded : Bytes → Bytes → Prop where
  | nil : PercentEncoded [] []
  | plus {encoded decoded : Bytes} :
      PercentEncoded encoded decoded → PercentEncoded (0x2b :: encoded) (0x20 :: decoded)
  | plain {c : Byte} {encoded decoded : Bytes} : c ≠ 0x2b → c ≠ 0x25 →
      PercentEncoded encoded decoded → PercentEncoded (c :: encoded) (c :: decoded)
  | escape {high low h l : Byte} {encoded decoded : Bytes} :
      hexValue high = some h → hexValue low = some l → PercentEncoded encoded decoded →
      PercentEncoded (0x25 :: high :: low :: encoded) ((16 * h + l) :: decoded)

section Grammar
variable (request : Bytes)

def requestLines : List Bytes := split crlf (request.take (request.length - headerEnd.length))

def firstLine : Bytes := (requestLines request).headD []

def fieldLines : List Bytes := (requestLines request).tail

/-- Both sides of the first `separator`; without one, nothing is behind it. -/
def sides (separator : Byte) (text : Bytes) : Bytes × Bytes :=
  (cutAt separator text).getD (text, [])

def method : Bytes := (sides 0x20 (firstLine request)).1

def target : Bytes := (sides 0x20 (sides 0x20 (firstLine request)).2).1

def path : Bytes := (sides 0x3f (target request)).1

def queryItems : List Bytes := split [0x26] (sides 0x3f (target request)).2

def parameter (item : Bytes) : Option (Bytes × Bytes) :=
  (cutAt 0x3d item).filter fun pair => pair.1 ≠ []

def isBlank (c : Byte) : Bool := c = 0x20 || c = 0x09

def field (line : Bytes) : Option (Bytes × Bytes) :=
  ((cutAt 0x3a line).filter fun pair => pair.1 ≠ []).map fun pair =>
    (pair.1, pair.2.dropWhile isBlank)

def Decodes (encoded decoded : Bytes × Bytes) : Prop :=
  PercentEncoded encoded.1 decoded.1 ∧ PercentEncoded encoded.2 decoded.2

structure WellFormed : Prop where
  two_spaces : 2 ≤ (firstLine request).count 0x20
  parameters : ∀ item ∈ queryItems request, ∀ encoded, parameter item = some encoded →
    ∃ decoded, Decodes encoded decoded
  fields : ∀ line ∈ fieldLines request, (field line).isSome = true

/-- What a well-formed request says. -/
structure Denotes (parsed : HttpRequest) : Prop where
  method : parsed.method = method request
  path : parsed.path = path request
  queryParams : ∃ decoded, List.Forall₂ Decodes ((queryItems request).filterMap parameter) decoded ∧
    ∀ key, parsed.queryParams.find key = UnorderedMap.firstValue key decoded
  headers : ∀ name, parsed.headers.find name =
    UnorderedMap.firstValue name ((fieldLines request).filterMap field)

end Grammar

theorem hexValue_lt {c value : Byte} (h : hexValue c = some value) : value < 16 :=
  forall_byte (P := fun c => ∀ value ∈ hexValue c, value < 16) (by decide +kernel) c value h

theorem shiftLeft_or {high low : Byte} (hhigh : high < 16) (hlow : low < 16) :
    high <<< 4 ||| low = 16 * high + low := by
  refine forall_nibble (P := fun high => high <<< 4 ||| low = 16 * high + low) ?_ hhigh
  exact fun n => forall_nibble
    (P := fun low => n.val.toUInt8 <<< 4 ||| low = 16 * n.val.toUInt8 + low)
    (by revert n; decide +kernel) hlow

theorem urlDecode_of_percentEncoded {encoded decoded : Bytes} (h : PercentEncoded encoded decoded) :
    urlDecode encoded = some decoded := by
  induction h with
  | nil => rfl
  | plus _ ih =>
    rw [urlDecode.eq_def]
    simp [ih]
  | plain hplus hpercent _ ih =>
    rw [urlDecode.eq_def]
    simp [hplus, hpercent, ih]
  | escape hhigh hlow _ ih =>
    rw [urlDecode.eq_def]
    simp [hhigh, hlow, ih, shiftLeft_or (hexValue_lt hhigh) (hexValue_lt hlow)]

theorem urlDecode_eq_some_iff {encoded decoded : Bytes} :
    urlDecode encoded = some decoded ↔ PercentEncoded encoded decoded := by
  refine ⟨fun h => ?_, urlDecode_of_percentEncoded⟩
  fun_induction urlDecode encoded generalizing decoded with
  | case1 =>
    cases h
    exact .nil
  | case2 rest ih =>
    obtain ⟨decoded', hrest, rfl⟩ := Option.map_eq_some_iff.mp h
    exact .plus (ih hrest)
  | case3 c rest hplus hpercent ih =>
    obtain ⟨decoded', hrest, rfl⟩ := Option.map_eq_some_iff.mp h
    exact .plain hplus hpercent (ih hrest)
  | case4 c _ hpercent high low rest h' l' hlow hhigh ih =>
    obtain ⟨decoded', hrest, rfl⟩ := Option.map_eq_some_iff.mp h
    rw [not_not.mp hpercent, shiftLeft_or (hexValue_lt hhigh) (hexValue_lt hlow)]
    exact .escape hhigh hlow (ih hrest)
  | case5 => cases h
  | case6 => cases h

/-! The query string. -/

theorem addItem_eq (item : Bytes) (params : UnorderedMap Bytes Bytes) :
    addItem item params =
      match parameter item with
      | none => some params
      | some encoded => (urlDecode encoded.1).bind fun key =>
          (urlDecode encoded.2).map fun value => params.emplace key value := by
  unfold addItem
  cases hcut : cutAt 0x3d item with
  | none =>
    rw [findIdx?_of_cutAt_none hcut]
    simp [parameter, hcut]
  | some pair =>
    obtain ⟨key, value⟩ := pair
    obtain ⟨hfind, htake, hdrop⟩ := findIdx?_of_cutAt hcut
    rw [hfind]
    cases key with
    | nil => simp [parameter, hcut, Option.filter]
    | cons c key =>
      simp only [List.length_cons] at htake hdrop ⊢
      rw [htake, hdrop]
      simp only [parameter, hcut, Option.filter_some, ne_eq, reduceCtorEq, not_false_eq_true,
        decide_true, if_true]
      cases urlDecode (c :: key) <;> cases urlDecode value <;> rfl

theorem parseQueryString_eq (query : Bytes) (params : UnorderedMap Bytes Bytes) :
    parseQueryString query params =
      (split [0x26] query).foldlM (fun params item => addItem item params) params := by
  fun_induction parseQueryString query params with
  | case1 params =>
    rw [split_of_find_none (by simp) rfl]
    simp [addItem]
  | case2 query params _ hitem =>
    rw [split_singleton, List.foldlM_cons, hitem]
    rfl
  | case3 query params _ params' hitem hrest =>
    rw [split_singleton, List.foldlM_cons, hitem, hrest]
    rfl
  | case4 query params _ params' hitem c rest hrest ih =>
    rw [split_singleton, List.foldlM_cons, hitem, hrest]
    exact ih

theorem addItems_eq_some_iff {items : List Bytes} {params result : UnorderedMap Bytes Bytes} :
    items.foldlM (fun params item => addItem item params) params = some result ↔
      ∃ decoded, List.Forall₂ Decodes (items.filterMap parameter) decoded ∧
        result = decoded.foldl (fun params pair => params.emplace pair.1 pair.2) params := by
  induction items generalizing params with
  | nil => simp [eq_comm]
  | cons item items ih =>
    rw [List.foldlM_cons, addItem_eq, List.filterMap_cons]
    cases parameter item with
    | none => exact ih
    | some encoded =>
      constructor
      · intro h
        obtain ⟨next, hnext, hrest⟩ := Option.bind_eq_some_iff.mp h
        obtain ⟨key, hkey, hnext⟩ := Option.bind_eq_some_iff.mp hnext
        obtain ⟨value, hvalue, rfl⟩ := Option.map_eq_some_iff.mp hnext
        obtain ⟨decoded, hdecoded, rfl⟩ := ih.mp hrest
        refine ⟨(key, value) :: decoded, .cons ?_ hdecoded, rfl⟩
        exact ⟨urlDecode_eq_some_iff.mp hkey, urlDecode_eq_some_iff.mp hvalue⟩
      · rintro ⟨_, _ | ⟨hpair, hdecoded⟩, rfl⟩
        have hrest := ih.mpr ⟨_, hdecoded, rfl⟩
        simpa [urlDecode_eq_some_iff.mpr hpair.1, urlDecode_eq_some_iff.mpr hpair.2] using hrest

/-! The header lines. -/

/-- How the loop over the header lines ends: at a blank line that is still unread, at
the end of the request, or by a rejection. -/
inductive HeaderExit where
  | blankLine (headers : UnorderedMap Bytes Bytes) (unread : Bytes)
  | endOfRequest (headers : UnorderedMap Bytes Bytes)
  | rejected

def headerLoop (rest : Bytes) (headers : UnorderedMap Bytes Bytes) : HeaderExit :=
  if rest = [] then .endOfRequest headers
  else
    match find crlf rest with
    | none => .rejected
    | some headerEnd =>
      let headerLine := rest.take headerEnd
      if headerLine = [] then .blankLine headers rest
      else
        match headerLine.findIdx? (· = 0x3a) with
        | none | some 0 => .rejected
        | some colon =>
          let key := headerLine.take colon
          let value := (headerLine.drop (colon + 1)).dropWhile fun c => c = 0x20 || c = 0x09
          headerLoop (rest.drop (headerEnd + 2)) (headers.emplace key value)
termination_by rest.length
decreasing_by
  have hpos := List.length_pos_of_ne_nil ‹¬rest = []›
  rw [List.length_drop]
  omega

def HeaderExit.headers : HeaderExit → Option (UnorderedMap Bytes Bytes)
  | .blankLine headers _ | .endOfRequest headers => some headers
  | .rejected => none

theorem parseHeaders_eq_headerLoop (rest : Bytes) (headers : UnorderedMap Bytes Bytes) :
    parseHeaders rest headers = (headerLoop rest headers).headers := by
  fun_induction headerLoop rest headers with
  | case1 headers =>
    rw [parseHeaders, if_pos rfl]
    rfl
  | case2 rest headers hne hfind =>
    rw [parseHeaders, if_neg hne, hfind]
    rfl
  | case3 rest headers hne headerEnd hfind headerLine hblank =>
    rw [parseHeaders, if_neg hne, hfind]
    exact if_pos hblank
  | case4 rest headers hne headerEnd hfind headerLine hline hcolon =>
    rw [parseHeaders, if_neg hne, hfind]
    refine (if_neg hline).trans ?_
    rw [hcolon]
    rfl
  | case5 rest headers hne headerEnd hfind headerLine hline hcolon =>
    rw [parseHeaders, if_neg hne, hfind]
    refine (if_neg hline).trans ?_
    rw [hcolon]
    rfl
  | case6 rest headers hne headerEnd hfind headerLine hline colon hpos hcolon key value ih =>
    rw [parseHeaders, if_neg hne, hfind]
    refine (if_neg hline).trans ?_
    rw [hcolon]
    obtain ⟨colon, rfl⟩ := Nat.exists_eq_succ_of_ne_zero hpos
    exact ih

theorem headerLoop_blank (headers : UnorderedMap Bytes Bytes) :
    headerLoop crlf headers = .blankLine headers crlf := by
  rw [headerLoop, if_neg (by decide)]
  rfl

theorem headerLoop_line {line : Bytes} (hline : line ≠ []) (hpiece : IsPiece crlf line)
    (rest : Bytes) (headers : UnorderedMap Bytes Bytes) :
    headerLoop (line ++ (crlf ++ rest)) headers =
      match field line with
      | none => .rejected
      | some pair => headerLoop rest (headers.emplace pair.1 pair.2) := by
  have hne : line ++ (crlf ++ rest) ≠ [] := by simp [hline]
  have hbehind : (line ++ (crlf ++ rest)).drop (line.length + 2) = rest := by
    rw [← List.append_assoc]
    exact List.drop_left' (by simp [crlf, ascii])
  rw [headerLoop, if_neg hne, hpiece.find_append]
  dsimp only
  rw [List.take_left, if_neg hline, hbehind]
  cases hcut : cutAt 0x3a line with
  | none =>
    rw [findIdx?_of_cutAt_none hcut]
    simp [field, hcut]
  | some pair =>
    obtain ⟨key, value⟩ := pair
    obtain ⟨hfind, htake, hdrop⟩ := findIdx?_of_cutAt hcut
    rw [hfind]
    cases key with
    | nil => simp [field, hcut, Option.filter]
    | cons c key =>
      simp only [List.length_cons] at htake hdrop ⊢
      rw [htake, hdrop]
      simp [field, hcut, Option.filter]
      rfl

theorem headerLoop_lines {lines : List Bytes}
    (hlines : ∀ line ∈ lines, line ≠ [] ∧ IsPiece crlf line) (headers : UnorderedMap Bytes Bytes) :
    headerLoop (lines.flatMap (· ++ crlf) ++ crlf) headers =
      if ∀ line ∈ lines, (field line).isSome = true then
        .blankLine ((lines.filterMap field).foldl
          (fun headers pair => headers.emplace pair.1 pair.2) headers) crlf
      else .rejected := by
  induction lines generalizing headers with
  | nil => simpa using headerLoop_blank headers
  | cons line lines ih =>
    obtain ⟨hline, hpiece⟩ := hlines line (by simp)
    rw [List.flatMap_cons, List.append_assoc, List.append_assoc, headerLoop_line hline hpiece]
    cases hfield : field line with
    | none => simp [hfield]
    | some pair =>
      have hrest := ih (fun l hl => hlines l (by simp [hl])) (headers.emplace pair.1 pair.2)
      simpa [hfield] using hrest

/-! The request as a whole. -/

theorem request_lines {request : Bytes} (h : IsFrame headerEnd request) :
    ∃ lineEnd, find crlf request = some lineEnd ∧ request.take lineEnd = firstLine request ∧
      request.drop (lineEnd + 2) = (fieldLines request).flatMap (· ++ crlf) ++ crlf ∧
      ∀ line ∈ fieldLines request, line ≠ [] ∧ IsPiece crlf line := by
  obtain ⟨lineEnd, hfind, hrequest, hframe⟩ := exists_first_line crlf h
  obtain ⟨lines, hrest, hlines⟩ := @exists_lines _ _ 0x0d [0x0a] (by decide) _ hframe
  have hbody : request = crlf.intercalate (request.take lineEnd :: lines) ++ headerEnd := by
    have hend : headerEnd = crlf ++ crlf := rfl
    rw [hend, ← List.append_assoc, intercalate_append]
    conv_lhs => rw [hrequest, hrest]
    simp only [List.append_assoc]
    rfl
  have hsplit : requestLines request = request.take lineEnd :: lines := by
    have hcut : request.take (request.length - headerEnd.length) =
        crlf.intercalate (request.take lineEnd :: lines) := by
      generalize crlf.intercalate (request.take lineEnd :: lines) = body at hbody ⊢
      rw [hbody, List.length_append, Nat.add_sub_cancel, List.take_left]
    rw [requestLines, hcut]
    refine split_intercalate (by decide) (by simp) fun piece hpiece => ?_
    rcases List.mem_cons.mp hpiece with rfl | hpiece
    · exact isPiece_take hfind
    · exact (hlines piece hpiece).2
  have hfields : fieldLines request = lines := by rw [fieldLines, hsplit, List.tail_cons]
  refine ⟨lineEnd, hfind, by rw [firstLine, hsplit, List.headD_cons], ?_, hfields ▸ hlines⟩
  rw [hfields]
  exact hrest

theorem parseTarget_eq (text : Bytes) :
    parseTarget text = (parseQueryString (sides 0x3f text).2 .empty).map fun queryParams =>
      ((sides 0x3f text).1, queryParams) := by
  unfold parseTarget
  cases hcut : cutAt 0x3f text with
  | none =>
    rw [findIdx?_of_cutAt_none hcut]
    simp [sides, hcut, parseQueryString]
  | some pair =>
    obtain ⟨hfind, htake, hdrop⟩ := findIdx?_of_cutAt hcut
    rw [hfind]
    simp [sides, hcut, htake, hdrop]

theorem exists_forall₂_iff {α β : Type*} {P : α → β → Prop} {l : List α} :
    (∃ l', List.Forall₂ P l l') ↔ ∀ a ∈ l, ∃ b, P a b := by
  induction l with
  | nil => simp
  | cons a l ih =>
    rw [List.forall_mem_cons, ← ih]
    constructor
    · rintro ⟨_, _ | ⟨hb, hl'⟩⟩
      exact ⟨⟨_, hb⟩, _, hl'⟩
    · rintro ⟨⟨b, hb⟩, l', hl'⟩
      exact ⟨b :: l', .cons hb hl'⟩

def lineTarget (line : Bytes) : Bytes := (sides 0x20 (sides 0x20 line).2).1

def parseRequestLine (line : Bytes) : Option (Bytes × Bytes × UnorderedMap Bytes Bytes) :=
  if 2 ≤ line.count 0x20 then
    ((split [0x26] (sides 0x3f (lineTarget line)).2).foldlM
      (fun params item => addItem item params) .empty).map fun queryParams =>
        ((sides 0x20 line).1, (sides 0x3f (lineTarget line)).1, queryParams)
  else none

/-- The parser on a string that begins with a complete line, whatever is behind it. -/
theorem parseRequest_line {line : Bytes} (hline : IsPiece crlf line) (rest : Bytes) :
    parseRequest (line ++ (crlf ++ rest)) =
      (parseRequestLine line).bind fun head =>
        (headerLoop rest .empty).headers.map fun headers =>
          ⟨head.1, head.2.1, head.2.2, headers⟩ := by
  have hbehind : (line ++ (crlf ++ rest)).drop (line.length + 2) = rest := by
    rw [← List.append_assoc]
    exact List.drop_left' (by simp [crlf, ascii])
  unfold parseRequest
  rw [hline.find_append]
  dsimp only
  rw [List.take_left, hbehind, parseHeaders_eq_headerLoop]
  cases hfirstCut : cutAt 0x20 line with
  | none =>
    rw [findIdx?_of_cutAt_none hfirstCut, parseRequestLine, count_of_cutAt_none hfirstCut]
    rfl
  | some pair =>
    obtain ⟨methodText, behindMethod⟩ := pair
    obtain ⟨hspace, htake, hdrop⟩ := findIdx?_of_cutAt hfirstCut
    rw [hspace, parseRequestLine, count_of_cutAt hfirstCut]
    dsimp only
    rw [htake, hdrop]
    cases hsecondCut : cutAt 0x20 behindMethod with
    | none =>
      rw [findIdx?_of_cutAt_none hsecondCut, count_of_cutAt_none hsecondCut]
      rfl
    | some pair =>
      obtain ⟨targetText, behindTarget⟩ := pair
      obtain ⟨hspace', htake', -⟩ := findIdx?_of_cutAt hsecondCut
      have htarget : lineTarget line = targetText := by
        simp [lineTarget, sides, hfirstCut, hsecondCut]
      rw [hspace', count_of_cutAt hsecondCut, if_pos (by omega)]
      dsimp only
      rw [htake', parseTarget_eq, parseQueryString_eq, htarget]
      cases (split [0x26] (sides 0x3f targetText).2).foldlM
        (fun params item => addItem item params) UnorderedMap.empty with
      | none => rfl
      | some queryParams => simp [sides, hfirstCut]

theorem parseRequestLine_isSome (line : Bytes) :
    (parseRequestLine line).isSome = true ↔ 2 ≤ line.count 0x20 ∧
      ∀ item ∈ split [0x26] (sides 0x3f (lineTarget line)).2, ∀ encoded,
        parameter item = some encoded → ∃ decoded, Decodes encoded decoded := by
  have hitems : (∃ params : UnorderedMap Bytes Bytes,
      (split [0x26] (sides 0x3f (lineTarget line)).2).foldlM
        (fun params item => addItem item params) .empty = some params) ↔
      ∀ item ∈ split [0x26] (sides 0x3f (lineTarget line)).2, ∀ encoded,
        parameter item = some encoded → ∃ decoded, Decodes encoded decoded := by
    simp only [addItems_eq_some_iff]
    constructor
    · rintro ⟨params, decoded, hdecoded, -⟩ item hitem encoded hencoded
      exact exists_forall₂_iff.mp ⟨decoded, hdecoded⟩ encoded
        (List.mem_filterMap.mpr ⟨item, hitem, hencoded⟩)
    · intro hparameters
      have hdecodes := exists_forall₂_iff.mpr fun encoded hmem => by
        obtain ⟨item, hitem, hencoded⟩ := List.mem_filterMap.mp hmem
        exact hparameters item hitem encoded hencoded
      obtain ⟨decoded, hdecoded⟩ := hdecodes
      exact ⟨_, decoded, hdecoded, rfl⟩
  rw [← hitems, parseRequestLine]
  split
  · rename_i hspaces
    rw [Option.isSome_map, Option.isSome_iff_exists]
    exact (and_iff_right hspaces).symm
  · rename_i hspaces
    simp [hspaces]

def plainLine : Bytes := ascii "GET / HTTP/1.1"

theorem plainLine_parses : (parseRequestLine plainLine).isSome = true := by
  have hitems : split [0x26] (sides 0x3f (lineTarget plainLine)).2 = [[]] :=
    split_of_find_none (by simp) rfl
  rw [parseRequestLine_isSome, hitems, List.forall_mem_singleton]
  exact ⟨by decide, by simp [parameter, cutAt]⟩

theorem parseRequest_of_find_none {rawRequest : Bytes} (h : find crlf rawRequest = none) :
    parseRequest rawRequest = none := by
  rw [parseRequest, h]

theorem request_split {request : Bytes} (h : IsFrame headerEnd request) :
    request = firstLine request ++ (crlf ++ ((fieldLines request).flatMap (· ++ crlf) ++ crlf)) ∧
      IsPiece crlf (firstLine request) ∧
      ∀ line ∈ fieldLines request, line ≠ [] ∧ IsPiece crlf line := by
  obtain ⟨lineEnd, hfind, hfirst, hrest, hlines⟩ := request_lines h
  obtain ⟨p, hp, hsplit, -⟩ := exists_first_line crlf h
  obtain rfl : p = lineEnd := by
    rw [hfind] at hp
    exact (Option.some.inj hp).symm
  have hlength : crlf.length = 2 := rfl
  rw [hlength, hfirst, hrest] at hsplit
  exact ⟨hsplit, hfirst ▸ isPiece_take hfind, hlines⟩

theorem parseRequest_eq {request : Bytes} (h : IsFrame headerEnd request) :
    parseRequest request =
      if 2 ≤ (firstLine request).count 0x20 then
        ((queryItems request).foldlM (fun params item => addItem item params) .empty).bind
          fun queryParams =>
            (headerLoop ((fieldLines request).flatMap (· ++ crlf) ++ crlf) .empty).headers.map
              fun headers => ⟨method request, path request, queryParams, headers⟩
      else none := by
  obtain ⟨hsplit, hpiece, -⟩ := request_split h
  conv_lhs => rw [hsplit]
  rw [parseRequest_line hpiece, parseRequestLine]
  by_cases hspaces : 2 ≤ (firstLine request).count 0x20
  · rw [if_pos hspaces, if_pos hspaces, Option.bind_map]
    rfl
  · rw [if_neg hspaces, if_neg hspaces]
    rfl

/-- `parseRequest` accepts the grammar, reads what it says, and leaves its loop at the
blank line that the connection found. -/
structure ParsesAsGrammar (request : Bytes) : Prop where
  accepts : (parseRequest request).isSome = true ↔ WellFormed request
  denotes : ∀ parsed, parseRequest request = some parsed → Denotes request parsed
  stops : ∀ parsed, parseRequest request = some parsed → ∃ lineEnd,
    find crlf request = some lineEnd ∧ headerLoop (request.drop (lineEnd + 2)) .empty =
      .blankLine parsed.headers (request.drop (request.length - 2)) ∧
    request.drop (request.length - 2) = crlf

theorem parseRequest_line_isSome {line : Bytes} (hline : IsPiece crlf line) (rest : Bytes) :
    (parseRequest (line ++ (crlf ++ rest))).isSome = true ↔
      (parseRequestLine line).isSome = true ∧ (headerLoop rest .empty).headers.isSome = true := by
  rw [parseRequest_line hline]
  cases parseRequestLine line <;> simp

theorem parseRequest_accepts {request : Bytes} (h : IsFrame headerEnd request) :
    (parseRequest request).isSome = true ↔ WellFormed request := by
  obtain ⟨hsplit, hpiece, hlines⟩ := request_split h
  have haccepts : (parseRequest request).isSome = true ↔
      (parseRequestLine (firstLine request)).isSome = true ∧
        ∀ line ∈ fieldLines request, (field line).isSome = true := by
    conv_lhs => rw [hsplit]
    rw [parseRequest_line_isSome hpiece, headerLoop_lines hlines]
    refine and_congr_right fun _ => ?_
    split
    · rename_i hfields
      exact iff_of_true rfl hfields
    · rename_i hfields
      exact iff_of_false (by simp [HeaderExit.headers]) hfields
  rw [haccepts, parseRequestLine_isSome]
  constructor
  · rintro ⟨⟨hspaces, hparameters⟩, hfields⟩
    exact ⟨hspaces, hparameters, hfields⟩
  · rintro ⟨hspaces, hparameters, hfields⟩
    exact ⟨⟨hspaces, hparameters⟩, hfields⟩

theorem parseRequest_denotes {request : Bytes} (h : IsFrame headerEnd request)
    {parsed : HttpRequest} (hparsed : parseRequest request = some parsed) :
    Denotes request parsed := by
  obtain ⟨-, -, -, -, hlines⟩ := request_lines h
  rw [parseRequest_eq h, headerLoop_lines hlines] at hparsed
  obtain ⟨-, hparsed⟩ := Option.ite_none_right_eq_some.mp hparsed
  obtain ⟨queryParams, hquery, hparsed⟩ := Option.bind_eq_some_iff.mp hparsed
  obtain ⟨headers, hheaders, rfl⟩ := Option.map_eq_some_iff.mp hparsed
  obtain ⟨decoded, hdecoded, rfl⟩ := addItems_eq_some_iff.mp hquery
  refine ⟨rfl, rfl, ⟨decoded, hdecoded, fun key => ?_⟩, fun name => ?_⟩
  · simp [UnorderedMap.find_foldl_emplace]
  · split at hheaders
    · cases hheaders
      simp [UnorderedMap.find_foldl_emplace]
    · cases hheaders

theorem parseRequest_stops {request : Bytes} (h : IsFrame headerEnd request)
    {parsed : HttpRequest} (hparsed : parseRequest request = some parsed) :
    ∃ lineEnd, find crlf request = some lineEnd ∧ headerLoop (request.drop (lineEnd + 2)) .empty =
      .blankLine parsed.headers (request.drop (request.length - 2)) ∧
    request.drop (request.length - 2) = crlf := by
  obtain ⟨lineEnd, hfind, -, hrest, hlines⟩ := request_lines h
  have hend : request.drop (request.length - 2) = crlf := by
    obtain ⟨p, hp, hlength⟩ := h
    obtain ⟨-, hmatch, -⟩ := (find_some_iff _ _ p).mp hp
    have hframe : request.drop p = headerEnd :=
      (hmatch.eq_of_length (by rw [List.length_drop]; omega)).symm
    have hlast : request.length - 2 = p + 2 := by
      have hfour : headerEnd.length = 4 := rfl
      omega
    rw [hlast, ← List.drop_drop, hframe]
    rfl
  rw [parseRequest_eq h, headerLoop_lines hlines] at hparsed
  obtain ⟨-, hparsed⟩ := Option.ite_none_right_eq_some.mp hparsed
  obtain ⟨queryParams, -, hparsed⟩ := Option.bind_eq_some_iff.mp hparsed
  obtain ⟨headers, hheaders, rfl⟩ := Option.map_eq_some_iff.mp hparsed
  refine ⟨lineEnd, hfind, ?_, hend⟩
  rw [hrest, headerLoop_lines hlines, hend]
  split at hheaders
  · rename_i hfields
    cases hheaders
    rw [if_pos hfields]
  · cases hheaders

theorem parseRequest_grammar {request : Bytes} (h : IsFrame headerEnd request) :
    ParsesAsGrammar request :=
  ⟨parseRequest_accepts h, fun _ => parseRequest_denotes h, fun _ => parseRequest_stops h⟩

/-- A stray line feed in the request line, an item without a key, a repeated header. -/
def sampleStray : Bytes :=
  ascii "GET /a\n?q=%41+b&=x&q=c&flag\r H\r\nA: \t1\r\nA:2\r\n\r\n"

theorem sampleStray_grammar : IsFrame headerEnd sampleStray ∧ ParsesAsGrammar sampleStray := by
  have hframe : IsFrame headerEnd sampleStray := ⟨42, by decide +kernel, by decide +kernel⟩
  exact ⟨hframe, parseRequest_grammar hframe⟩

end CppSearchServer.Http
