import CppSearchServer.Http.ResponseReader
import CppSearchServer.Net.TcpConnection
import CppSearchServer.Search.CacheTransparency

/-! The task `serveWithEventLoop` submits to the workers for each request, and what
its responses tell the client about the connection. -/

namespace CppSearchServer.Main

open Http Net Search

/-- What one run of the task meets. `snapshotJson` is what that call returns or
throws, `outOfMemory` lets anything before the first `complete` throw, and
`completeThrows` lets that `complete` throw. -/
structure TaskRun where
  cache : SearchCache
  access : SearchApplication.CacheAccess
  threadState : Option SearchCache.ThreadState
  snapshotJson : Except String Bytes
  outOfMemory : Bool
  completeThrows : Bool

inductive TaskCall where
  | markWorkerStarted (timing : RequestTimingPtr)
  | markWorkerFinished (timing : RequestTimingPtr)
  | complete (result : ResponseResult)
deriving DecidableEq, Repr

variable {R : Type*} [Field R] [LinearOrder R] (app : SearchApplication R)

/-- The `try` block up to its `markWorkerFinished`. -/
def applicationResponse (run : TaskRun) (request : Bytes) : Except String ApplicationResponse :=
  if run.outOfMemory then .error "std::bad_alloc"
  else
    match parseRequest request with
    | none => (app.handleRequest run.cache run.access run.threadState request).1
    | some parsed =>
      if parsed.method = ascii "GET" ∧ parsed.path = ascii "/metrics" then
        let closeAfterResponse := shouldCloseConnection app.headerOrder parsed
        run.snapshotJson.map fun json => ⟨okJson json closeAfterResponse, closeAfterResponse⟩
      else (app.handleRequest run.cache run.access run.threadState request).1

def onException (timing : RequestTimingPtr) : List TaskCall :=
  [.markWorkerFinished timing, .complete ⟨internalServerError true, true⟩]

def workerTask (run : TaskRun) (timing : RequestTimingPtr) (request : Bytes) : List TaskCall :=
  .markWorkerStarted timing ::
    match applicationResponse app run request with
    | .error _ => onException timing
    | .ok response =>
      [.markWorkerFinished timing, .complete ⟨response.response, response.closeAfterResponse⟩] ++
        if run.completeThrows then onException timing else []

def TaskCall.completed : TaskCall → Option ResponseResult
  | .complete result => some result
  | _ => none

def completions (calls : List TaskCall) : List ResponseResult := calls.filterMap TaskCall.completed

/-- The response is one response, and its `Connection` header says what the connection
is told. -/
def HeaderAgrees (response : Bytes) (closeAfterResponse : Bool) : Prop :=
  ∃ received, readResponse response = some (received, []) ∧
    received.closeConnection = closeAfterResponse

/-- A client that asked to close the connection is told that it will be, and it is. -/
structure ConnectionHonored (request : Bytes) (result : ResponseResult) : Prop where
  header : HeaderAgrees result.response result.closeAfterResponse
  wish : ∀ parsed, parseRequest request = some parsed →
    shouldCloseConnection app.headerOrder parsed = true → result.closeAfterResponse = true

theorem headerAgrees_bytes (reply : Reply) :
    HeaderAgrees reply.bytes reply.received.closeConnection :=
  ⟨reply.received, by simpa using reply.readResponse_bytes [], rfl⟩

variable {app} {run : TaskRun} {request : Bytes}

theorem route_agrees {order : Library.IterationOrder (Bytes × Bytes)}
    {response : ApplicationResponse} (h : route order request = .respond response) :
    HeaderAgrees response.response response.closeAfterResponse := by
  unfold route at h
  split at h
  · cases h
    exact headerAgrees_bytes (.badRequest _ false)
  · rename_i parsed _
    dsimp only at h
    split_ifs at h
    · cases h
      exact headerAgrees_bytes (.badRequest _ false)
    · cases h
      exact headerAgrees_bytes (.okText _ _)
    · cases h
      exact headerAgrees_bytes (.notFound _)
    · split at h
      · cases h
        exact headerAgrees_bytes (.badRequest _ _)
      · cases h
        exact headerAgrees_bytes (.badRequest _ _)
      · cases h

theorem okSearch_agrees (json : Bytes) (closeAfterResponse : Bool) :
    HeaderAgrees (okSearch json closeAfterResponse).response
      (okSearch json closeAfterResponse).closeAfterResponse :=
  headerAgrees_bytes (.okJson json closeAfterResponse)

/-- What `handleRequest` returns: the response of `route`, or the answer of a search. -/
inductive Handled (app : SearchApplication R) (request : Bytes) : ApplicationResponse → Prop where
  | routed {response : ApplicationResponse} :
      route app.headerOrder request = .respond response → Handled app request response
  | searched {query json : Bytes} {closeAfterResponse : Bool} :
      route app.headerOrder request = .search query closeAfterResponse →
      Handled app request (okSearch json closeAfterResponse)

theorem handleRequest_handled {cache : SearchCache} {access : SearchApplication.CacheAccess}
    {known : Option SearchCache.ThreadState} {response : ApplicationResponse}
    (h : (app.handleRequest cache access known request).1 = .ok response) :
    Handled app request response := by
  unfold SearchApplication.handleRequest at h
  split at h
  · rename_i routed hroute
    cases h
    exact .routed hroute
  · rename_i query closeAfterResponse hroute
    dsimp only at h
    split at h
    · cases h
    · cases h
      exact .searched hroute
    · split at h
      · cases h
      · cases h
        exact .searched hroute

omit [Field R] in
theorem Handled.agrees {response : ApplicationResponse} (h : Handled app request response) :
    HeaderAgrees response.response response.closeAfterResponse := by
  cases h with
  | routed hroute => exact route_agrees hroute
  | searched hroute => exact okSearch_agrees _ _

/-- After a GET every branch of `route` passes the flag on; any other method is refused
before the flag is computed. -/
theorem route_closes {order : Library.IterationOrder (Bytes × Bytes)} {parsed : HttpRequest}
    (hparsed : parseRequest request = some parsed) :
    (route order request).closeAfterResponse =
      (decide (parsed.method = ascii "GET") && shouldCloseConnection order parsed) := by
  simp only [route, hparsed]
  split
  · rename_i hother
    simp [Route.closeAfterResponse, hother]
  · rename_i hget
    rw [not_not] at hget
    rw [decide_eq_true hget, Bool.true_and]
    split
    · rfl
    · split
      · rfl
      · split <;> rfl

omit [Field R] in
theorem Handled.closes {response : ApplicationResponse} (h : Handled app request response) :
    response.closeAfterResponse = (route app.headerOrder request).closeAfterResponse := by
  cases h with
  | routed hroute => rw [hroute, Route.closeAfterResponse]
  | searched hroute => rw [hroute, Route.closeAfterResponse, okSearch]

theorem applicationResponse_cases {response : ApplicationResponse}
    (h : applicationResponse app run request = .ok response) :
    (∃ parsed json, parseRequest request = some parsed ∧ parsed.method = ascii "GET" ∧
        response = ⟨okJson json (shouldCloseConnection app.headerOrder parsed),
          shouldCloseConnection app.headerOrder parsed⟩) ∨
      Handled app request response := by
  unfold applicationResponse at h
  split at h
  · cases h
  · split at h
    · exact .inr (handleRequest_handled h)
    · rename_i parsed hparsed
      split at h
      · rename_i hmetrics
        cases hsnapshot : run.snapshotJson with
        | error message => simp [hsnapshot, Except.map] at h
        | ok json =>
          simp only [hsnapshot, Except.map, Except.ok.injEq] at h
          exact .inl ⟨parsed, json, hparsed, hmetrics.1, h.symm⟩
      · exact .inr (handleRequest_handled h)

theorem applicationResponse_agrees {response : ApplicationResponse}
    (h : applicationResponse app run request = .ok response) :
    HeaderAgrees response.response response.closeAfterResponse := by
  rcases applicationResponse_cases h with ⟨parsed, json, -, -, rfl⟩ | hhandled
  · exact headerAgrees_bytes (.okJson json _)
  · exact hhandled.agrees

theorem applicationResponse_closes {response : ApplicationResponse}
    (h : applicationResponse app run request = .ok response) {parsed : HttpRequest}
    (hparsed : parseRequest request = some parsed) :
    response.closeAfterResponse =
      (decide (parsed.method = ascii "GET") && shouldCloseConnection app.headerOrder parsed) := by
  rcases applicationResponse_cases h with ⟨parsed', json, hparsed', hget, rfl⟩ | hhandled
  · obtain rfl : parsed' = parsed := Option.some.inj (hparsed'.symm.trans hparsed)
    simp [hget]
  · rw [hhandled.closes, route_closes hparsed]

theorem applicationResponse_refuses {parsed : HttpRequest}
    (hparsed : parseRequest request = some parsed) (hother : parsed.method ≠ ascii "GET")
    (hmemory : run.outOfMemory = false) :
    ∃ response, applicationResponse app run request = .ok response := by
  refine ⟨⟨badRequest (ascii "Only complete GET requests are supported\n") false, false⟩, ?_⟩
  simp [applicationResponse, hmemory, hparsed, hother, SearchApplication.handleRequest, route]

omit [Field R] in
theorem onException_honored (request : Bytes) :
    ConnectionHonored app request ⟨internalServerError true, true⟩ :=
  ⟨headerAgrees_bytes (.internalServerError true), fun _ _ _ => rfl⟩

theorem completions_error {timing : RequestTimingPtr} {message : String}
    (h : applicationResponse app run request = .error message) :
    completions (workerTask app run timing request) = [⟨internalServerError true, true⟩] := by
  simp only [workerTask, h]
  rfl

theorem completions_ok {timing : RequestTimingPtr} {response : ApplicationResponse}
    (h : applicationResponse app run request = .ok response) :
    completions (workerTask app run timing request) =
      ⟨response.response, response.closeAfterResponse⟩ ::
        if run.completeThrows then [⟨internalServerError true, true⟩] else [] := by
  simp only [workerTask, h]
  split <;> rfl

/-- Everything passed to the connection honours it, unless a method other than GET came
with the wish to close. -/
theorem workerTask_honored_iff (app : SearchApplication R) (run : TaskRun)
    (timing : RequestTimingPtr) (request : Bytes) :
    (∀ result ∈ completions (workerTask app run timing request),
        ConnectionHonored app request result) ↔
      run.outOfMemory = true ∨ ∀ parsed, parseRequest request = some parsed →
        shouldCloseConnection app.headerOrder parsed = true → parsed.method = ascii "GET" := by
  constructor
  · intro h
    by_cases hmemory : run.outOfMemory = true
    · exact .inl hmemory
    refine .inr fun parsed hparsed hclose => by_contra fun hother => ?_
    have hrefuses : ∃ response, applicationResponse app run request = .ok response :=
      applicationResponse_refuses hparsed hother (by simpa using hmemory)
    obtain ⟨response, hok⟩ := hrefuses
    have hwish := (h ⟨response.response, response.closeAfterResponse⟩
      (by simp [completions_ok hok])).wish parsed hparsed hclose
    simp [applicationResponse_closes hok hparsed, hother] at hwish
  · intro h result hresult
    cases hrun : applicationResponse app run request with
    | error message =>
      rw [completions_error hrun, List.mem_singleton] at hresult
      exact hresult ▸ onException_honored request
    | ok response =>
      have hmemory : run.outOfMemory ≠ true := fun hmemory => by
        simp [applicationResponse, hmemory] at hrun
      have hget := h.resolve_left hmemory
      rw [completions_ok hrun] at hresult
      rcases List.mem_cons.mp hresult with rfl | hresult
      · refine ⟨applicationResponse_agrees hrun, fun parsed hparsed hclose => ?_⟩
        simp [applicationResponse_closes hrun hparsed, hget parsed hparsed hclose, hclose]
      · split at hresult
        · rw [List.mem_singleton.mp hresult]
          exact onException_honored request
        · cases hresult

def samplePost : Bytes := ascii "POST /search HTTP/1.1\r\nConnection: close\r\n\r\n"

def sampleRun : TaskRun :=
  ⟨Serving.sampleCaches (), ⟨0, ⟨false, false, none⟩, 0, ⟨false, false, none⟩⟩, none, .ok [], false,
    false⟩

/-- The client asked to close and is told `keep-alive`. -/
theorem samplePost_not_honored :
    completions (workerTask Serving.sampleApp sampleRun none samplePost) =
        [⟨badRequest (ascii "Only complete GET requests are supported\n") false, false⟩] ∧
      (parseRequest samplePost).any (shouldCloseConnection Serving.sampleApp.headerOrder) = true ∧
      ¬∀ result ∈ completions (workerTask Serving.sampleApp sampleRun none samplePost),
        ConnectionHonored Serving.sampleApp samplePost result := by
  have hcompletions : completions (workerTask Serving.sampleApp sampleRun none samplePost) =
      [⟨badRequest (ascii "Only complete GET requests are supported\n") false, false⟩] := by
    decide +kernel
  have hclose : (parseRequest samplePost).any
      (shouldCloseConnection Serving.sampleApp.headerOrder) = true := by decide +kernel
  refine ⟨hcompletions, hclose, fun h => ?_⟩
  obtain ⟨parsed, hparsed, hwishes⟩ := (Option.any_eq_true _ _).mp hclose
  have hwish := (h _ (by rw [hcompletions]; exact List.mem_singleton_self _)).wish parsed hparsed
    hwishes
  cases hwish

end CppSearchServer.Main
