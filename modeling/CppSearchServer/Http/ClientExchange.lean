import CppSearchServer.Http.HeaderLookup
import CppSearchServer.Http.QueryStrings
import CppSearchServer.Http.ResponseReader

/-! The two ends of a client: requests written one after the other, which fall apart again
where each of them ends, and responses read off a stream that may break off anywhere. -/

namespace CppSearchServer.Http

open Library Library.Framing

structure SentRequest where
  path : Bytes
  encoded : List (Bytes × Bytes)
  version : Bytes
  fields : List Bytes

namespace SentRequest

def bytes (request : SentRequest) : Bytes :=
  queryRequest request.path request.encoded request.version request.fields

/-- The parameters that are meant, and that no header asks to close. -/
structure Means (request : SentRequest) (pairs : List (Bytes × Bytes)) : Prop where
  encodes : List.Forall₂ EncodesPair pairs request.encoded
  keys : ∀ pair ∈ pairs, pair.1 ≠ []
  path : 0x3f ∉ request.path ∧ 0x20 ∉ request.path ∧ cr ∉ request.path
  version : cr ∉ request.version
  fields : ∀ line ∈ request.fields, cr ∉ line ∧ (field line).isSome = true
  keepAlive : ∀ line ∈ request.fields, ∀ pair ∈ field line,
    equalsIgnoreCase pair.1 (ascii "Connection") = true →
      equalsIgnoreCase pair.2 (ascii "close") = false

variable {request : SentRequest} {pairs : List (Bytes × Bytes)}

theorem Means.isFrame (h : request.Means pairs) : IsFrame headerEnd request.bytes := by
  have hquery : cr ∉ queryText request.encoded :=
    queryText_notMem h.encodes (by decide) (by decide) (by decide)
  have hline : cr ∉ queryLine request.path request.encoded request.version := by
    have hget : cr ∉ ascii "GET" := by decide
    have hmarks : cr ≠ 0x20 ∧ cr ≠ 0x3f := by decide
    simp [queryLine, hget, hmarks, h.path.2.2, hquery, h.version]
  have hlines : ∀ line ∈ queryLine request.path request.encoded request.version :: request.fields,
      line ≠ [] ∧ cr ∉ line := by
    intro line hmem
    rcases List.mem_cons.mp hmem with rfl | hmem
    · exact ⟨by simp [queryLine], hline⟩
    · refine ⟨?_, (h.fields line hmem).1⟩
      rintro rfl
      exact absurd (h.fields [] hmem).2 (by decide)
  have hbytes : request.bytes = crlf.intercalate
      (queryLine request.path request.encoded request.version :: request.fields) ++
        (crlf ++ (crlf ++ [])) := by
    rw [← List.append_assoc, intercalate_append, List.append_nil, List.append_assoc,
      List.append_assoc]
    rfl
  rw [hbytes]
  refine ⟨_, @find_block _ _ cr [0x0a] (by decide) _ (by simp) hlines [], ?_⟩
  rw [List.length_append]
  rfl

theorem frames_stream {requests : List SentRequest}
    (h : ∀ request ∈ requests, ∃ pairs, request.Means pairs) :
    frames headerEnd (requests.flatMap bytes) = requests.map bytes := by
  have hframes : ∀ frame ∈ requests.map bytes, IsFrame headerEnd frame := by
    intro frame hmem
    obtain ⟨request, hrequest, rfl⟩ := List.mem_map.mp hmem
    obtain ⟨pairs, hmeans⟩ := h request hrequest
    exact hmeans.isFrame
  have hempty : frames headerEnd ([] : Bytes) = [] := frames_of_find_none rfl
  have happend := frames_flatten_append headerEnd_ne_nil _ hframes []
  rwa [List.append_nil, hempty, List.append_nil] at happend

theorem Means.parses (h : request.Means pairs) :
    ∃ parsed, parseRequest request.bytes = some parsed ∧ parsed.method = ascii "GET" ∧
      parsed.path = request.path ∧
      (∀ key, parsed.queryParams.find key = UnorderedMap.firstValue key pairs) ∧
      ∀ order, shouldCloseConnection order parsed = false := by
  have hlines : ∀ line ∈ request.fields, line ≠ [] ∧ IsPiece crlf line := by
    intro line hmem
    refine ⟨?_, isPiece_of_notMem (h.fields line hmem).1 [0x0a]⟩
    rintro rfl
    exact absurd (h.fields [] hmem).2 (by decide)
  have hall : ∀ line ∈ request.fields, (field line).isSome = true :=
    fun line hmem => (h.fields line hmem).2
  rw [bytes, queryRequest, parseRequest_line (queryLine_piece h.encodes h.path.2.2
      (isPiece_of_notMem h.version [0x0a])),
    parseRequestLine_query h.encodes h.keys h.path.2.1 h.path.1, headerLoop_lines hlines,
    if_pos hall]
  refine ⟨_, rfl, rfl, rfl, fun key => ?_, fun order => ?_⟩
  · simp [UnorderedMap.find_foldl_emplace]
  · rw [shouldCloseConnection_eq]
    -- an entry of the map is a header line, and none of these asks to close
    cases hfind : findHeader order _ (ascii "Connection") with
    | none => rfl
    | some value =>
      obtain ⟨⟨key, value'⟩, hentry, rfl⟩ := Option.map_eq_some_iff.mp hfind
      have hname : equalsIgnoreCase key (ascii "Connection") = true := by
        simpa using List.find?_some hentry
      have hmem := (UnorderedMap.mem_visit_iff _ order _ _).mp
        (List.mem_of_find?_eq_some hentry)
      rw [UnorderedMap.find_foldl_emplace, UnorderedMap.find_empty, Option.none_or] at hmem
      obtain ⟨pair, hpair, rfl⟩ := Option.map_eq_some_iff.mp hmem
      have hkey : pair.1 = key := by simpa using List.find?_some hpair
      obtain ⟨line, hline, hfield⟩ := List.mem_filterMap.mp (List.mem_of_find?_eq_some hpair)
      exact h.keepAlive line hline pair hfield (hkey ▸ hname)

end SentRequest

/-! The stream of the responses, as far as it has come. -/

def completeResponses (stream : Bytes) : List ReceivedResponse :=
  match _h : readResponse stream with
  | none => []
  | some (received, rest) => received :: completeResponses rest
termination_by stream.length
decreasing_by exact readResponse_shorter _h

theorem completeResponses_of_none {stream : Bytes} (h : readResponse stream = none) :
    completeResponses stream = [] := by
  rw [completeResponses]
  split
  · rfl
  · rename_i hsome
    rw [h] at hsome
    cases hsome

theorem completeResponses_of_some {stream rest : Bytes} {received : ReceivedResponse}
    (h : readResponse stream = some (received, rest)) :
    completeResponses stream = received :: completeResponses rest := by
  rw [completeResponses]
  split
  · rename_i hnone
    rw [h] at hnone
    cases hnone
  · rename_i received' rest' hsome
    obtain ⟨rfl, rfl⟩ : received = received' ∧ rest = rest' := by simpa using h.symm.trans hsome
    rfl

theorem readResponse_append {stream rest : Bytes} {received : ReceivedResponse}
    (h : readResponse stream = some (received, rest)) (more : Bytes) :
    readResponse (stream ++ more) = some (received, rest ++ more) := by
  simp only [readResponse, Option.bind_eq_bind, Option.bind_eq_some_iff] at h
  obtain ⟨blockEnd, hfind, line, hline, status, hstatus, contentType, hcontentType, contentLength,
    hcontentLength, closeConnection, hconnection, h⟩ := h
  have hbound := find_bound hfind
  have htake : (stream ++ more).take blockEnd = stream.take blockEnd :=
    List.take_append_of_le_length (by omega)
  have hdrop : (stream ++ more).drop (blockEnd + headerEnd.length) =
      stream.drop (blockEnd + headerEnd.length) ++ more := List.drop_append_of_le_length hbound
  obtain ⟨hlength, h⟩ := Option.ite_none_right_eq_some.mp h
  cases h
  have hcontentLength := Option.bind_eq_some_iff.mpr hcontentLength
  have hconnection := Option.bind_eq_some_iff.mpr hconnection
  unfold readResponse
  rw [find_append more hfind]
  simp only [Option.bind_eq_bind, Option.bind_some]
  rw [htake, hdrop, hline]
  simp only [Option.bind_some, hstatus, hcontentType, hcontentLength, hconnection]
  rw [if_pos (by rw [List.length_append]; omega), List.take_append_of_le_length hlength,
    List.drop_append_of_le_length hlength]

theorem Reply.readResponse_partial (reply : Reply) {stream : Bytes} (h : stream <+: reply.bytes)
    (hshort : stream ≠ reply.bytes) : readResponse stream = none := by
  cases hread : readResponse stream with
  | none => rfl
  | some read =>
    obtain ⟨more, hmore⟩ := h
    have hwhole := readResponse_append hread more
    have hreply := reply.readResponse_bytes []
    rw [List.append_nil, ← hmore, hwhole] at hreply
    have hnil : more = [] := by
      have hrest : read.2 ++ more = [] := by simpa using congrArg (Option.map Prod.snd) hreply
      exact (List.append_eq_nil_iff.mp hrest).2
    exact absurd (by rw [← hmore, hnil, List.append_nil]) hshort

/-- Wherever the stream breaks off, the client has read the replies that are in front of that. -/
theorem completeResponses_prefix {stream : Bytes} {replies : List Reply}
    (h : stream <+: replies.flatMap Reply.bytes) :
    ∃ count, completeResponses stream = (replies.take count).map Reply.received ∧
      (replies.take count).flatMap Reply.bytes <+: stream := by
  induction replies generalizing stream with
  | nil =>
    obtain rfl : stream = [] := List.prefix_nil.mp h
    exact ⟨0, completeResponses_of_none rfl, List.prefix_rfl⟩
  | cons reply replies ih =>
    rw [List.flatMap_cons] at h
    by_cases hwhole : reply.bytes <+: stream
    · obtain ⟨rest, rfl⟩ := hwhole
      obtain ⟨count, hread, hprefix⟩ := ih ((List.prefix_append_right_inj _).mp h)
      refine ⟨count + 1, ?_, ?_⟩
      · rw [completeResponses_of_some (reply.readResponse_bytes rest), hread]
        rfl
      · rw [List.take_succ_cons, List.flatMap_cons]
        exact (List.prefix_append_right_inj _).mpr hprefix
    · have hpartial : stream <+: reply.bytes :=
        (List.prefix_or_prefix_of_prefix h (List.prefix_append ..)).resolve_right hwhole
      refine ⟨0, completeResponses_of_none (reply.readResponse_partial hpartial ?_),
        List.nil_prefix⟩
      rintro rfl
      exact hwhole List.prefix_rfl

theorem completeResponses_replies (replies : List Reply) :
    completeResponses (replies.flatMap Reply.bytes) = replies.map Reply.received := by
  induction replies with
  | nil => exact completeResponses_of_none rfl
  | cons reply replies ih =>
    rw [List.flatMap_cons, completeResponses_of_some (reply.readResponse_bytes _), ih]
    rfl

end CppSearchServer.Http
