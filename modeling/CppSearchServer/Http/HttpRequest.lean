import CppSearchServer.Bytes
import CppSearchServer.Library.UnorderedMap

/-! `http::parseRequest` and the accessors of the request it returns.
A cursor into a string is the rest of the string behind it. -/

namespace CppSearchServer.Http

open Library Library.Framing

structure HttpRequest where
  method : Bytes
  path : Bytes
  queryParams : UnorderedMap Bytes Bytes
  headers : UnorderedMap Bytes Bytes

/-- `none` stands for -1. -/
def hexValue (c : Byte) : Option Byte :=
  if 0x30 ≤ c ∧ c ≤ 0x39 then some (c - 0x30)
  else if 0x61 ≤ c ∧ c ≤ 0x66 then some (c - 0x61 + 10)
  else if 0x41 ≤ c ∧ c ≤ 0x46 then some (c - 0x41 + 10)
  else none

def urlDecode : Bytes → Option Bytes
  | [] => some []
  | c :: rest =>
    if c = 0x2b then (urlDecode rest).map (0x20 :: ·)
    else if c ≠ 0x25 then (urlDecode rest).map (c :: ·)
    else
      match rest with
      | high :: low :: rest =>
        match hexValue high, hexValue low with
        | some high, some low => (urlDecode rest).map ((high <<< 4 ||| low) :: ·)
        | _, _ => none
      | _ => none

/-- One item between two `&`; items without a key are skipped. -/
def addItem (item : Bytes) (params : UnorderedMap Bytes Bytes) :
    Option (UnorderedMap Bytes Bytes) :=
  match item.findIdx? (· = 0x3d) with
  | none | some 0 => some params
  | some equalPos =>
    match urlDecode (item.take equalPos), urlDecode (item.drop (equalPos + 1)) with
    | some key, some value => some (params.emplace key value)
    | _, _ => none

/-- `none` stands for `false`. -/
def parseQueryString (query : Bytes) (params : UnorderedMap Bytes Bytes) :
    Option (UnorderedMap Bytes Bytes) :=
  if query = [] then some params
  else
    match addItem (query.takeWhile (· ≠ 0x26)) params with
    | none => none
    | some params =>
      match _h : query.dropWhile (· ≠ 0x26) with
      | [] => some params
      | _ :: rest => parseQueryString rest params
termination_by query.length
decreasing_by
  have hle := (List.dropWhile_suffix (p := (· ≠ 0x26)) (l := query)).length_le
  simp only [_h, List.length_cons] at hle
  omega

def equalsIgnoreCase (left right : Bytes) : Bool := left.map tolower = right.map tolower

def parseHeaders (rest : Bytes) (headers : UnorderedMap Bytes Bytes) :
    Option (UnorderedMap Bytes Bytes) :=
  if rest = [] then some headers
  else
    match find crlf rest with
    | none => none
    | some headerEnd =>
      let headerLine := rest.take headerEnd
      if headerLine = [] then some headers
      else
        match headerLine.findIdx? (· = 0x3a) with
        | none | some 0 => none
        | some colon =>
          let key := headerLine.take colon
          let value := (headerLine.drop (colon + 1)).dropWhile fun c => c = 0x20 || c = 0x09
          parseHeaders (rest.drop (headerEnd + 2)) (headers.emplace key value)
termination_by rest.length
decreasing_by
  have hpos := List.length_pos_of_ne_nil ‹¬rest = []›
  rw [List.length_drop]
  omega

def parseTarget (target : Bytes) : Option (Bytes × UnorderedMap Bytes Bytes) :=
  match target.findIdx? (· = 0x3f) with
  | none => some (target, .empty)
  | some queryStart =>
    (parseQueryString (target.drop (queryStart + 1)) .empty).map fun queryParams =>
      (target.take queryStart, queryParams)

def parseRequest (rawRequest : Bytes) : Option HttpRequest :=
  match find crlf rawRequest with
  | none => none
  | some lineEnd =>
    let requestLine := rawRequest.take lineEnd
    match requestLine.findIdx? (· = 0x20) with
    | none => none
    | some firstSpace =>
      let behindMethod := requestLine.drop (firstSpace + 1)
      match behindMethod.findIdx? (· = 0x20) with
      | none => none
      | some targetLength =>
        match parseTarget (behindMethod.take targetLength) with
        | none => none
        | some (path, queryParams) =>
          (parseHeaders (rawRequest.drop (lineEnd + 2)) .empty).map fun headers =>
            { method := requestLine.take firstSpace
              path := path
              queryParams := queryParams
              headers := headers }

def findQueryParam (request : HttpRequest) (key : Bytes) : Option Bytes :=
  request.queryParams.find key

/-- The first header in iteration order whose name matches. -/
def findHeader (order : IterationOrder (Bytes × Bytes)) (request : HttpRequest) (name : Bytes) :
    Option Bytes :=
  ((order.visit request.headers.entries).find? fun header => equalsIgnoreCase header.1 name).map
    Prod.snd

def shouldCloseConnection (order : IterationOrder (Bytes × Bytes)) (request : HttpRequest) :
    Bool :=
  match findHeader order request (ascii "Connection") with
  | none => false
  | some connection => equalsIgnoreCase connection (ascii "close")

end CppSearchServer.Http
