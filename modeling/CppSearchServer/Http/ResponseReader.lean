import CppSearchServer.Http.HttpResponse

/-! A client that reads the responses of one connection off the stream they were
appended to. It knows nothing of the builders: it reads a header block up to the
first blank line, decodes `Content-Length` and takes that many bytes as the body. -/

namespace CppSearchServer.Http

open Library.Framing

structure ReceivedResponse where
  status : Bytes
  contentType : Bytes
  closeConnection : Bool
  body : Bytes
deriving DecidableEq, Repr

def readStatusLine (line : Bytes) : Option Bytes :=
  if ascii "HTTP/1.1 " <+: line then some (line.drop (ascii "HTTP/1.1 ").length) else none

def readField (line : Bytes) : Option (Bytes × Bytes) :=
  (find (ascii ": ") line).map fun colon => (line.take colon, line.drop (colon + 2))

def fieldValue (name : Bytes) (fields : List (Bytes × Bytes)) : Option Bytes :=
  (fields.find? fun field => field.1 = name).map Prod.snd

def readConnection (value : Bytes) : Option Bool :=
  if value = ascii "close" then some true
  else if value = ascii "keep-alive" then some false
  else none

/-- One response from the front of the stream, and what is behind it. -/
def readResponse (stream : Bytes) : Option (ReceivedResponse × Bytes) := do
  let blockEnd ← find headerEnd stream
  let lines := split crlf (stream.take blockEnd)
  let status ← readStatusLine (← lines.head?)
  let fields := lines.tail.filterMap readField
  let contentType ← fieldValue (ascii "Content-Type") fields
  let contentLength ← (fieldValue (ascii "Content-Length") fields).bind readDecimal
  let closeConnection ← (fieldValue (ascii "Connection") fields).bind readConnection
  let behind := stream.drop (blockEnd + headerEnd.length)
  if contentLength ≤ behind.length then
    some (⟨status, contentType, closeConnection, behind.take contentLength⟩,
      behind.drop contentLength)
  else none

theorem readResponse_shorter {stream rest : Bytes} {received : ReceivedResponse}
    (h : readResponse stream = some (received, rest)) : rest.length < stream.length := by
  simp only [readResponse, Option.bind_eq_bind, Option.bind_eq_some_iff] at h
  obtain ⟨blockEnd, hfind, _, _, _, _, _, _, contentLength, _, _, _, h⟩ := h
  have hbound := find_bound hfind
  split at h
  · cases h
    have hpos : 0 < headerEnd.length := by decide
    rw [List.length_drop, List.length_drop]
    omega
  · cases h

def readResponses (stream : Bytes) : Option (List ReceivedResponse) :=
  if stream = [] then some []
  else
    match _h : readResponse stream with
    | none => none
    | some (received, rest) => (readResponses rest).map (received :: ·)
termination_by stream.length
decreasing_by exact readResponse_shorter _h

def headerLines (status contentType : String) (bodyLength : Nat) (closeConnection : Bool) :
    List Bytes :=
  [ascii "HTTP/1.1 " ++ ascii status, ascii "Content-Type: " ++ ascii contentType,
    ascii "Content-Length: " ++ decimal bodyLength,
    ascii "Connection: " ++ ascii (if closeConnection then "close" else "keep-alive")]

theorem response_eq (status contentType : String) (body : Bytes) (closeConnection : Bool) :
    response status contentType body closeConnection =
      crlf.intercalate (headerLines status contentType body.length closeConnection) ++
        (crlf ++ (crlf ++ body)) := by
  simp [response, headerLines, crlf, List.intercalate, List.append_assoc]

/-- The byte that begins a line end; no header line may contain it. -/
def cr : Byte := 0x0d

theorem cr_notMem_decimal (n : Nat) : cr ∉ decimal n := fun hmem => by
  have hdigit := isdigit_decimal n cr hmem
  revert hdigit
  decide

theorem headerLines_sound {status contentType : String} (hstatus : cr ∉ ascii status)
    (hcontentType : cr ∉ ascii contentType) (bodyLength : Nat) (closeConnection : Bool) :
    ∀ line ∈ headerLines status contentType bodyLength closeConnection,
      line ≠ [] ∧ cr ∉ line := by
  have hlabels : ∀ label ∈ [ascii "HTTP/1.1 ", ascii "Content-Type: ", ascii "Content-Length: ",
      ascii "Connection: "], label ≠ [] ∧ cr ∉ label := by decide
  have hconnection : cr ∉ ascii (if closeConnection then "close" else "keep-alive") := by
    cases closeConnection <;> decide
  have hjoin : ∀ label value : Bytes, label ≠ [] ∧ cr ∉ label → cr ∉ value →
      label ++ value ≠ [] ∧ cr ∉ label ++ value := by
    rintro label value ⟨hne, hlabel⟩ hvalue
    exact ⟨by simp [hne], by simp [hlabel, hvalue]⟩
  intro line hline
  simp only [headerLines, List.mem_cons, List.not_mem_nil, or_false] at hline
  rcases hline with rfl | rfl | rfl | rfl
  · exact hjoin _ _ (hlabels _ (by simp)) hstatus
  · exact hjoin _ _ (hlabels _ (by simp)) hcontentType
  · exact hjoin _ _ (hlabels _ (by simp)) (cr_notMem_decimal _)
  · exact hjoin _ _ (hlabels _ (by simp)) hconnection

theorem readStatusLine_append (status : Bytes) :
    readStatusLine (ascii "HTTP/1.1 " ++ status) = some status := by
  rw [readStatusLine, if_pos (List.prefix_append _ _), List.drop_left]

theorem readField_append (name : Bytes) (hname : 0x3a ∉ name) (value : Bytes) :
    readField (name ++ (ascii ": " ++ value)) = some (name, value) := by
  have hfind : find (ascii ": ") (name ++ (ascii ": " ++ value)) = some name.length :=
    find_of_notMem hname _ value
  have hdrop : (name ++ (ascii ": " ++ value)).drop (name.length + 2) = value := by
    rw [List.drop_append, List.drop_eq_nil_of_le (by omega)]
    have hsub : name.length + 2 - name.length = (ascii ": ").length := by
      have hlength : (ascii ": ").length = 2 := rfl
      omega
    rw [hsub, List.drop_left, List.nil_append]
  rw [readField, hfind, Option.map_some, List.take_left, hdrop]

theorem readFields_headerLines (status contentType : String) (bodyLength : Nat)
    (closeConnection : Bool) :
    (headerLines status contentType bodyLength closeConnection).tail.filterMap readField =
      [(ascii "Content-Type", ascii contentType), (ascii "Content-Length", decimal bodyLength),
        (ascii "Connection", ascii (if closeConnection then "close" else "keep-alive"))] := by
  have hread : ∀ label name value : Bytes, label = name ++ ascii ": " → 0x3a ∉ name →
      readField (label ++ value) = some (name, value) := by
    rintro label name value rfl hname
    rw [List.append_assoc]
    exact readField_append name hname value
  have hcontentType := hread (ascii "Content-Type: ") (ascii "Content-Type")
    (ascii contentType) rfl (by decide)
  have hcontentLength := hread (ascii "Content-Length: ") (ascii "Content-Length")
    (decimal bodyLength) rfl (by decide)
  have hconnection := hread (ascii "Connection: ") (ascii "Connection")
    (ascii (if closeConnection then "close" else "keep-alive")) rfl (by decide)
  simp only [headerLines, List.tail_cons, List.filterMap_cons, List.filterMap_nil, hcontentType,
    hcontentLength, hconnection]

/-- A response is read back from in front of anything. -/
theorem readResponse_response {status contentType : String} (hstatus : cr ∉ ascii status)
    (hcontentType : cr ∉ ascii contentType) (body : Bytes) (closeConnection : Bool)
    (rest : Bytes) :
    readResponse (response status contentType body closeConnection ++ rest) =
      some (⟨ascii status, ascii contentType, closeConnection, body⟩, rest) := by
  have hlines := headerLines_sound hstatus hcontentType body.length closeConnection
  have hsplit : split crlf (crlf.intercalate
      (headerLines status contentType body.length closeConnection)) = _ :=
    split_intercalate (by decide) (by simp [headerLines]) fun line hmem =>
      isPiece_of_notMem (hlines line hmem).2 [0x0a]
  have hfields := readFields_headerLines status contentType body.length closeConnection
  have hstream : response status contentType body closeConnection ++ rest =
      crlf.intercalate (headerLines status contentType body.length closeConnection) ++
        (crlf ++ (crlf ++ (body ++ rest))) := by
    rw [response_eq]
    simp only [List.append_assoc]
  have hfind : find headerEnd (response status contentType body closeConnection ++ rest) =
      some (crlf.intercalate
        (headerLines status contentType body.length closeConnection)).length := by
    rw [hstream]
    exact @find_block _ _ cr [0x0a] (by decide) _ (by simp [headerLines]) hlines _
  have hhead : (headerLines status contentType body.length closeConnection).head? =
      some (ascii "HTTP/1.1 " ++ ascii status) := rfl
  have hbehind : (response status contentType body closeConnection ++ rest).drop
      ((crlf.intercalate (headerLines status contentType body.length closeConnection)).length +
        headerEnd.length) = body ++ rest := by
    rw [hstream, ← List.append_assoc crlf crlf, ← List.append_assoc, ← List.length_append]
    exact List.drop_left
  have hconnection : readConnection (ascii (if closeConnection then "close" else "keep-alive")) =
      some closeConnection := by
    cases closeConnection <;> decide
  have hother : ascii "Content-Type" ≠ ascii "Content-Length" ∧
      ascii "Content-Type" ≠ ascii "Connection" ∧
      ascii "Content-Length" ≠ ascii "Connection" := by decide
  unfold readResponse
  rw [hfind]
  simp only [Option.bind_eq_bind, Option.bind_some]
  rw [hbehind, hstream, List.take_left, hsplit, hhead, hfields]
  simp [readStatusLine_append, fieldValue, hother, readDecimal_decimal, hconnection]

inductive Reply where
  | okText (body : Bytes) (closeConnection : Bool)
  | okJson (body : Bytes) (closeConnection : Bool)
  | notFound (closeConnection : Bool)
  | badRequest (body : Bytes) (closeConnection : Bool)
  | internalServerError (closeConnection : Bool)
deriving DecidableEq, Repr

namespace Reply

def bytes : Reply → Bytes
  | okText body closeConnection => Http.okText body closeConnection
  | okJson body closeConnection => Http.okJson body closeConnection
  | notFound closeConnection => Http.notFound closeConnection
  | badRequest body closeConnection => Http.badRequest body closeConnection
  | internalServerError closeConnection => Http.internalServerError closeConnection

def received : Reply → ReceivedResponse
  | okText body closeConnection =>
    ⟨ascii "200 OK", ascii "text/plain; charset=utf-8", closeConnection, body⟩
  | okJson body closeConnection =>
    ⟨ascii "200 OK", ascii "application/json; charset=utf-8", closeConnection, body⟩
  | notFound closeConnection =>
    ⟨ascii "404 Not Found", ascii "text/plain; charset=utf-8", closeConnection,
      ascii "Not Found\n"⟩
  | badRequest body closeConnection =>
    ⟨ascii "400 Bad Request", ascii "text/plain; charset=utf-8", closeConnection, body⟩
  | internalServerError closeConnection =>
    ⟨ascii "500 Internal Server Error", ascii "text/plain; charset=utf-8", closeConnection,
      ascii "Internal Server Error\n"⟩

theorem readResponse_bytes (reply : Reply) (rest : Bytes) :
    readResponse (reply.bytes ++ rest) = some (reply.received, rest) := by
  cases reply <;> exact readResponse_response (by decide) (by decide) _ _ _

theorem bytes_ne_nil (reply : Reply) : reply.bytes ≠ [] := by
  intro hnil
  have hread := reply.readResponse_bytes []
  rw [hnil] at hread
  cases hread

end Reply

/-- A client recovers every response from the stream of a keep-alive connection. -/
theorem readResponses_replies (replies : List Reply) :
    readResponses (replies.flatMap Reply.bytes) = some (replies.map Reply.received) := by
  induction replies with
  | nil => simp [readResponses]
  | cons reply replies ih =>
    have hread := reply.readResponse_bytes (replies.flatMap Reply.bytes)
    have hne : reply.bytes ++ replies.flatMap Reply.bytes ≠ [] := by simp [reply.bytes_ne_nil]
    rw [List.flatMap_cons, readResponses, if_neg hne]
    split
    · rename_i hnone
      simp [hread] at hnone
    · rename_i received rest hsome
      obtain ⟨rfl, rfl⟩ : reply.received = received ∧ replies.flatMap Reply.bytes = rest := by
        simpa using hread.symm.trans hsome
      rw [ih]
      rfl

end CppSearchServer.Http
