import CppSearchServer.Http.RequestGrammar

/-! What `parseRequest` makes of a request that is cut short.
The loop over the header lines also ends where the string does, so a request that is
cut right behind the end of a line passes for a complete one. -/

namespace CppSearchServer.Http

open Library Library.Framing

structure LineWellFormed (line : Bytes) : Prop where
  two_spaces : 2 ≤ line.count 0x20
  parameters : ∀ item ∈ split [0x26] (sides 0x3f (lineTarget line)).2, ∀ encoded,
    parameter item = some encoded → ∃ decoded, Decodes encoded decoded

/-- The first `cut` bytes are the request line and the field lines `seen`, each with its
line end, and nothing is wrong with any of them. -/
structure EndsBehindLine (request : Bytes) (cut : Nat) (seen : List Bytes) : Prop where
  front : seen <+: fieldLines request
  bytes : request.take cut = firstLine request ++ (crlf ++ seen.flatMap (· ++ crlf))
  line : LineWellFormed (firstLine request)
  fields : ∀ line ∈ seen, (field line).isSome = true

theorem find_take_eq_none {piece : Bytes} (hpiece : IsPiece crlf piece) (rest : Bytes) {cut : Nat}
    (hcut : cut < piece.length + 2) : find crlf ((piece ++ (crlf ++ rest)).take cut) = none := by
  cases hfind : find crlf ((piece ++ (crlf ++ rest)).take cut) with
  | none => rfl
  | some p =>
    have hbound := find_bound hfind
    have hwhole := Framing.find_append ((piece ++ (crlf ++ rest)).drop cut) hfind
    rw [List.take_append_drop, hpiece.find_append] at hwhole
    have hp : piece.length = p := Option.some.inj hwhole
    have hlength : crlf.length = 2 := rfl
    rw [List.length_take] at hbound
    omega

theorem take_line {line rest : Bytes} {cut : Nat} (hcut : line.length + 2 ≤ cut) :
    (line ++ (crlf ++ rest)).take cut = line ++ (crlf ++ rest.take (cut - (line.length + 2))) := by
  have hlength : (line ++ crlf).length = line.length + 2 := by simp [crlf, ascii]
  rw [← List.append_assoc, List.take_append, List.take_of_length_le (by omega), hlength,
    List.append_assoc]

theorem headerLoop_nil (headers : UnorderedMap Bytes Bytes) :
    headerLoop [] headers = .endOfRequest headers := by
  rw [headerLoop, if_pos rfl]

theorem headerLoop_of_find_none {rest : Bytes} (hne : rest ≠ []) (hfind : find crlf rest = none)
    (headers : UnorderedMap Bytes Bytes) : headerLoop rest headers = .rejected := by
  rw [headerLoop, if_neg hne, hfind]

theorem headerLoop_take_zero (lines : List Bytes) (headers : UnorderedMap Bytes Bytes) :
    (headerLoop ((lines.flatMap (· ++ crlf) ++ crlf).take 0) headers).headers.isSome = true ↔
      ∃ seen, seen <+: lines ∧
        (lines.flatMap (· ++ crlf) ++ crlf).take 0 = seen.flatMap (· ++ crlf) ∧
        ∀ line ∈ seen, (field line).isSome = true := by
  rw [List.take_zero, headerLoop_nil]
  exact iff_of_true rfl ⟨[], List.nil_prefix, rfl, by simp⟩

theorem headerLoop_take {lines : List Bytes}
    (hlines : ∀ line ∈ lines, line ≠ [] ∧ IsPiece crlf line) (headers : UnorderedMap Bytes Bytes)
    {cut : Nat} (hcut : cut < (lines.flatMap (· ++ crlf) ++ crlf).length) :
    (headerLoop ((lines.flatMap (· ++ crlf) ++ crlf).take cut) headers).headers.isSome = true ↔
      ∃ seen, seen <+: lines ∧
        (lines.flatMap (· ++ crlf) ++ crlf).take cut = seen.flatMap (· ++ crlf) ∧
        ∀ line ∈ seen, (field line).isSome = true := by
  have hcrlf : crlf.length = 2 := rfl
  induction lines generalizing headers cut with
  | nil =>
    by_cases hzero : cut = 0
    · subst hzero
      exact headerLoop_take_zero [] headers
    have hone : cut = 1 := by
      simp [hcrlf] at hcut
      omega
    subst hone
    have hloop : headerLoop (crlf.take 1) headers = .rejected :=
      headerLoop_of_find_none (by decide) (by decide) headers
    refine iff_of_false (by simp [hloop, HeaderExit.headers]) ?_
    rintro ⟨seen, hseen, htake, -⟩
    rw [List.prefix_nil.mp hseen] at htake
    exact absurd htake (by decide)
  | cons line lines ih =>
    obtain ⟨hline, hpiece⟩ := hlines line (by simp)
    by_cases hzero : cut = 0
    · subst hzero
      exact headerLoop_take_zero (line :: lines) headers
    rw [List.flatMap_cons, List.append_assoc, List.append_assoc] at hcut ⊢
    generalize hbody : lines.flatMap (· ++ crlf) ++ crlf = body at ih hcut ⊢
    by_cases hinside : cut < line.length + 2
    · -- the cut is in front of the first line end, where no line can be found
      have hne : (line ++ (crlf ++ body)).take cut ≠ [] := by
        simp [hzero, hline]
      have hnone := find_take_eq_none hpiece body hinside
      refine iff_of_false (by simp [headerLoop_of_find_none hne hnone, HeaderExit.headers]) ?_
      rintro ⟨seen, hseen, htake, -⟩
      cases seen with
      | nil => exact hne htake
      | cons l seen =>
        obtain rfl : l = line := (List.cons_prefix_cons.mp hseen).1
        have hlength := congrArg List.length htake
        simp [hcrlf] at hlength
        omega
    · rw [take_line (by omega), headerLoop_line hline hpiece]
      cases hfield : field line with
      | none =>
        refine iff_of_false (by simp [HeaderExit.headers]) ?_
        rintro ⟨seen, hseen, htake, hfields⟩
        cases seen with
        | nil => simp [hline] at htake
        | cons l seen =>
          obtain rfl : l = line := (List.cons_prefix_cons.mp hseen).1
          have hsome := hfields l (by simp)
          rw [hfield] at hsome
          cases hsome
      | some pair =>
        have hcut' : cut - (line.length + 2) < body.length := by
          simp [hcrlf] at hcut
          omega
        have hrest := ih (fun l hl => hlines l (by simp [hl])) (headers.emplace pair.1 pair.2) hcut'
        refine hrest.trans ?_
        constructor
        · rintro ⟨seen, hseen, htake, hfields⟩
          refine ⟨line :: seen, List.cons_prefix_cons.mpr ⟨rfl, hseen⟩, ?_, ?_⟩
          · rw [htake, List.flatMap_cons, List.append_assoc]
          · exact List.forall_mem_cons.mpr ⟨by rw [hfield]; rfl, hfields⟩
        · rintro ⟨seen, hseen, htake, hfields⟩
          cases seen with
          | nil => simp [hline] at htake
          | cons l seen =>
            obtain ⟨rfl, hfront⟩ := List.cons_prefix_cons.mp hseen
            refine ⟨seen, hfront, ?_, fun line hmem => hfields line (by simp [hmem])⟩
            rw [List.flatMap_cons, List.append_assoc] at htake
            exact List.append_cancel_left (List.append_cancel_left htake)

theorem request_take {request : Bytes} (h : IsFrame headerEnd request) {cut : Nat}
    (hcut : (firstLine request).length + 2 ≤ cut) :
    request.take cut = firstLine request ++ (crlf ++
      ((fieldLines request).flatMap (· ++ crlf) ++ crlf).take
        (cut - ((firstLine request).length + 2))) := by
  conv_lhs => rw [(request_split h).1]
  exact take_line hcut

theorem parseRequest_take_isSome {request : Bytes} (h : IsFrame headerEnd request) {cut : Nat}
    (hcut : cut < request.length) :
    (parseRequest (request.take cut)).isSome = true ↔ ∃ seen, EndsBehindLine request cut seen := by
  obtain ⟨hsplit, hpiece, hlines⟩ := request_split h
  have hcrlf : crlf.length = 2 := rfl
  by_cases hinside : cut < (firstLine request).length + 2
  · have hnone : find crlf (request.take cut) = none := by
      conv_lhs => rw [hsplit]
      exact find_take_eq_none hpiece _ hinside
    rw [parseRequest_of_find_none hnone]
    refine iff_of_false (by simp) ?_
    rintro ⟨seen, hseen⟩
    have hlength := congrArg List.length hseen.bytes
    simp [hcrlf] at hlength
    omega
  · have hbody : cut - ((firstLine request).length + 2) <
        ((fieldLines request).flatMap (· ++ crlf) ++ crlf).length := by
      rw [hsplit] at hcut
      simp only [List.length_append, hcrlf] at hcut ⊢
      omega
    have htake := request_take h (Nat.le_of_not_lt hinside)
    rw [htake, parseRequest_line_isSome hpiece, headerLoop_take hlines _ hbody,
      parseRequestLine_isSome]
    constructor
    · rintro ⟨⟨hspaces, hparameters⟩, seen, hfront, hbytes, hfields⟩
      exact ⟨seen, hfront, by rw [htake, hbytes], ⟨hspaces, hparameters⟩, hfields⟩
    · rintro ⟨seen, hfront, hbytes, ⟨hspaces, hparameters⟩, hfields⟩
      rw [htake] at hbytes
      exact ⟨⟨hspaces, hparameters⟩, seen, hfront,
        List.append_cancel_left (List.append_cancel_left hbytes), hfields⟩

theorem parseRequest_take_eq_none {request : Bytes} (h : IsFrame headerEnd request) {cut : Nat}
    (hcut : cut < request.length) :
    parseRequest (request.take cut) = none ↔ ¬∃ seen, EndsBehindLine request cut seen := by
  rw [← parseRequest_take_isSome h hcut, Bool.not_eq_true, Option.isSome_eq_false_iff,
    Option.isNone_iff_eq_none]

/-- The cut behind the request line is the one that decides. -/
theorem all_cuts_rejected {request : Bytes} (h : IsFrame headerEnd request) :
    (∀ cut < request.length, parseRequest (request.take cut) = none) ↔
      ¬LineWellFormed (firstLine request) := by
  obtain ⟨hsplit, -, -⟩ := request_split h
  have hcrlf : crlf.length = 2 := rfl
  have hlength := congrArg List.length hsplit
  simp only [List.length_append, hcrlf] at hlength
  constructor
  · intro hall hline
    have hcut := hall ((firstLine request).length + 2) (by omega)
    rw [parseRequest_take_eq_none h (by omega)] at hcut
    refine hcut ⟨[], List.nil_prefix, ?_, hline, by simp⟩
    rw [request_take h le_rfl, Nat.sub_self, List.take_zero]
    rfl
  · intro hline cut hcut
    rw [parseRequest_take_eq_none h hcut]
    rintro ⟨seen, hseen⟩
    exact hline hseen.line

/-- A cut request is rejected, except right behind the end of a line, where it passes if
nothing is wrong with the lines up to there; so no cut passes only if no request line does. -/
theorem truncated_rejected_iff {request : Bytes} (h : IsFrame headerEnd request) :
    (∀ cut < request.length,
      (parseRequest (request.take cut) = none ↔ ¬∃ seen, EndsBehindLine request cut seen)) ∧
    ((∀ cut < request.length, parseRequest (request.take cut) = none) ↔
      ¬LineWellFormed (firstLine request)) :=
  ⟨fun _ hcut => parseRequest_take_eq_none h hcut, all_cuts_rejected h⟩

def cutShort : Bytes := ascii "GET / HTTP/1.1\r\n\r\n"

theorem cutShort_frame : IsFrame headerEnd cutShort := ⟨14, by decide +kernel, by decide +kernel⟩

theorem cutShort_truncated :
    (∀ cut < cutShort.length,
      (parseRequest (cutShort.take cut) = none ↔ ¬∃ seen, EndsBehindLine cutShort cut seen)) ∧
    ((∀ cut < cutShort.length, parseRequest (cutShort.take cut) = none) ↔
      ¬LineWellFormed (firstLine cutShort)) :=
  truncated_rejected_iff cutShort_frame

/-- Without its blank line the request is accepted all the same. -/
theorem cutShort_accepted :
    ¬∀ request, IsFrame headerEnd request →
      ∀ cut < request.length, parseRequest (request.take cut) = none := by
  intro hall
  have hnone := hall cutShort cutShort_frame 16 (by decide)
  have hcut : cutShort.take 16 = plainLine ++ (crlf ++ []) := by decide
  have hloop : (headerLoop [] .empty).headers.isSome = true := by
    rw [headerLoop_nil]
    rfl
  have hpiece : IsPiece crlf plainLine := rfl
  have hsome := (parseRequest_line_isSome hpiece []).mpr ⟨plainLine_parses, hloop⟩
  rw [← hcut, hnone] at hsome
  cases hsome

end CppSearchServer.Http
