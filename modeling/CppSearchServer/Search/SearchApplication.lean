import CppSearchServer.Http.HttpRequest
import CppSearchServer.Http.HttpResponse
import CppSearchServer.Search.SearchCache
import CppSearchServer.Search.SearchService

/-! `search::SearchApplication`. `handleRequest` is split where it asks the cache:
`route` decides whether it does, and `okSearch` makes the response from the JSON,
cached or computed. -/

namespace CppSearchServer.Search

open Library Http

def kSearchTopK : Nat := 10

def makeSearchCacheKey (query : Bytes) : Bytes :=
  ascii "search-json:v1:top-k=" ++ decimal kSearchTopK ++ ascii ":q=" ++ query

def hexDigit (value : Byte) : Byte := if value < 10 then 0x30 + value else 0x61 + (value - 10)

def escapeCharacter (character : Byte) : Bytes :=
  if character = 0x22 then ascii "\\\""
  else if character = 0x5c then ascii "\\\\"
  else if character = 0x08 then ascii "\\b"
  else if character = 0x0c then ascii "\\f"
  else if character = 0x0a then ascii "\\n"
  else if character = 0x0d then ascii "\\r"
  else if character = 0x09 then ascii "\\t"
  else if character < 0x20 then
    ascii "\\u00" ++ [hexDigit (character >>> 4), hexDigit (character &&& 0x0f)]
  else [character]

def escapeJson (value : Bytes) : Bytes := value.flatMap escapeCharacter

def kMaxSnippetLength : Nat := 240

def makeSnippet (text : Bytes) : Bytes :=
  if text.length ≤ kMaxSnippetLength then text else text.take kMaxSnippetLength ++ ascii "..."

section

variable {R : Type*} (printScore : R → Bytes)

def resultJson (result : SearchResult R) : Bytes :=
  ascii "\x7b\"chunk_id\":" ++ decimal result.chunk.id ++
    ascii ",\"title\":\"" ++ escapeJson result.chunk.title ++
    ascii "\",\"category\":\"" ++ escapeJson result.chunk.category ++
    ascii "\",\"source_path\":\"" ++ escapeJson result.chunk.sourcePath ++
    ascii "\",\"heading_path\":\"" ++ escapeJson result.chunk.headingPath ++
    ascii "\",\"snippet\":\"" ++ escapeJson (makeSnippet result.chunk.rawText) ++
    ascii "\",\"matched_terms\":" ++ decimal result.matchedTerms ++
    ascii ",\"score\":" ++ printScore result.score ++ ascii "\x7d"

def toJson (query : Bytes) (results : List (SearchResult R)) : Bytes :=
  ascii "\x7b\"query\":\"" ++ escapeJson query ++ ascii "\",\"results\":[" ++
    (ascii ",").intercalate (results.map (resultJson printScore)) ++ ascii "]\x7d\n"

end

structure ApplicationResponse where
  response : Bytes
  closeAfterResponse : Bool
deriving DecidableEq, Repr

/-- What is left to do after the checks that come before the cache. -/
inductive Route where
  | respond (response : ApplicationResponse)
  | search (query : Bytes) (closeAfterResponse : Bool)
deriving DecidableEq

/-- The flag a request gets, whether or not it is searched for. -/
def Route.closeAfterResponse : Route → Bool
  | .respond response => response.closeAfterResponse
  | .search _ closeAfterResponse => closeAfterResponse

def route (headerOrder : IterationOrder (Bytes × Bytes)) (request : Bytes) : Route :=
  match parseRequest request with
  | none => .respond ⟨badRequest (ascii "Only complete GET requests are supported\n") false, false⟩
  | some parsed =>
    if parsed.method ≠ ascii "GET" then
      .respond ⟨badRequest (ascii "Only complete GET requests are supported\n") false, false⟩
    else
      let closeAfterResponse := shouldCloseConnection headerOrder parsed
      if parsed.path = ascii "/" then
        .respond ⟨okText (ascii "Hello CppSearchServer\n") closeAfterResponse, closeAfterResponse⟩
      else if parsed.path ≠ ascii "/search" then
        .respond ⟨notFound closeAfterResponse, closeAfterResponse⟩
      else
        match findQueryParam parsed (ascii "q") with
        | none | some [] =>
          .respond ⟨badRequest (ascii "The q query parameter is required\n") closeAfterResponse,
            closeAfterResponse⟩
        | some query => .search query closeAfterResponse

def okSearch (json : Bytes) (closeAfterResponse : Bool) : ApplicationResponse :=
  ⟨okJson json closeAfterResponse, closeAfterResponse⟩

/-- The documents with what the platform decides: the order in which a container is
iterated is a function of what was put into it, and so is a printed score. -/
structure SearchApplication (R : Type*) [LinearOrder R] where
  service : SearchService
  std : StandardLibrary R
  termOrder : IterationOrder Bytes
  candidateOrder : IterationOrder (Nat × Candidate R)
  headerOrder : IterationOrder (Bytes × Bytes)
  printScore : R → Bytes

namespace SearchApplication

variable {R : Type*} [Field R] [LinearOrder R] (app : SearchApplication R)

def searchJson (query : Bytes) : Bytes :=
  toJson app.printScore query
    (app.service.search app.std app.termOrder app.candidateOrder query kSearchTopK)

def uncached (request : Bytes) : ApplicationResponse :=
  match route app.headerOrder request with
  | .respond response => response
  | .search query closeAfterResponse => okSearch (app.searchJson query) closeAfterResponse

/-- What one call meets at its two accesses to the cache: the time, and Redis. -/
structure CacheAccess where
  getTime : Int
  getAnswer : RedisAnswer
  putTime : Int
  putAnswer : RedisAnswer

def handleRequest (cache : SearchCache) (access : CacheAccess)
    (known : Option SearchCache.ThreadState) (request : Bytes) :
    Except String ApplicationResponse × Option SearchCache.ThreadState :=
  match route app.headerOrder request with
  | .respond response => (.ok response, known)
  | .search query closeAfterResponse =>
    let cacheKey := makeSearchCacheKey query
    match cache.get access.getTime cacheKey access.getAnswer known with
    | (.error message, known) => (.error message, known)
    | (.ok (some cachedJson), known) => (.ok (okSearch cachedJson closeAfterResponse), known)
    | (.ok none, known) =>
      let resultJson := app.searchJson query
      match cache.put access.putTime cacheKey resultJson access.putAnswer known with
      | (.error message, known) => (.error message, known)
      | (.ok (), known) => (.ok (okSearch resultJson closeAfterResponse), known)

end SearchApplication

theorem makeSearchCacheKey_injective : Function.Injective makeSearchCacheKey := fun _ _ heq =>
  List.append_cancel_left heq

end CppSearchServer.Search
