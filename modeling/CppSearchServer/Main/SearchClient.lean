import CppSearchServer.Http.ClientExchange
import CppSearchServer.Main.RequestFlow

/-! A client of the search, from the queries it writes to the results it reads.
It may send its questions at once and cut them up as it likes; what it reads off the stream,
at any moment, are the results for the first of them. -/

namespace CppSearchServer.Main

open Net Concurrency Search Http Library Library.TransitionSystem Library.Framing

structure Question where
  query : Bytes
  sent : SentRequest

namespace Question

/-- The first parameter `q` is the query. -/
structure Asks (question : Question) : Prop where
  path : question.sent.path = ascii "/search"
  means : ∃ pairs, question.sent.Means pairs ∧
    UnorderedMap.firstValue (ascii "q") pairs = some question.query
  query : question.query ≠ []

def stream (questions : List Question) : Bytes :=
  questions.flatMap fun question => question.sent.bytes

variable {R : Type*} [Field R] [LinearOrder R] (app : SearchApplication R)

def reply (question : Question) : Reply := .okJson (app.searchJson question.query) false

variable {app} {question : Question} {questions : List Question}

theorem Asks.metricsRequest_none (h : question.Asks) :
    metricsRequest question.sent.bytes = none := by
  obtain ⟨pairs, hmeans, -⟩ := h.means
  obtain ⟨parsed, hparsed, -, hpath, -⟩ := hmeans.parses
  have hother : ascii "/search" ≠ ascii "/metrics" := by decide
  simp [metricsRequest, hparsed, Option.filter, hpath, h.path, hother]

theorem Asks.uncached (h : question.Asks) :
    (app.uncached question.sent.bytes).response = (question.reply app).bytes := by
  obtain ⟨pairs, hmeans, hfirst⟩ := h.means
  obtain ⟨parsed, hparsed, hmethod, hpath, hparams, hclose⟩ := hmeans.parses
  have hquery : findQueryParam parsed (ascii "q") = some question.query :=
    (hparams _).trans hfirst
  have hroot : ascii "/search" ≠ ascii "/" := by decide
  have hroute : route app.headerOrder question.sent.bytes = .search question.query false := by
    unfold route
    rw [hparsed]
    simp only [hmethod, hpath, h.path, hroot, hquery, hclose, ne_eq, not_true_eq_false, if_false]
    have hne := h.query
    cases hq : question.query with
    | nil => exact absurd hq hne
    | cons c rest => rfl
  rw [SearchApplication.uncached, hroute]
  rfl

theorem frames_stream (h : ∀ question ∈ questions, question.Asks) :
    frames headerEnd (stream questions) = questions.map fun question => question.sent.bytes := by
  have hmeans : ∀ request ∈ questions.map sent, ∃ pairs, request.Means pairs := by
    intro request hmem
    obtain ⟨question, hquestion, rfl⟩ := List.mem_map.mp hmem
    obtain ⟨pairs, hmeans, -⟩ := (h question hquestion).means
    exact ⟨pairs, hmeans⟩
  have hframes := SentRequest.frames_stream hmeans
  rwa [List.flatMap_map, List.map_map] at hframes

theorem idealStream_questions (h : ∀ question ∈ questions, question.Asks) :
    SearchServer.idealStream app (questions.map fun question => question.sent.bytes) =
      (questions.map fun question => question.reply app).flatMap Reply.bytes := by
  rw [SearchServer.idealStream, List.flatMap_map, List.flatMap_map]
  exact List.flatMap_congr fun question hmem => (h question hmem).uncached

end Question

namespace SearchServer

variable {R : Type*} [Field R] [LinearOrder R] {app : SearchApplication R} {cache : SearchCache}
  {m n : Nat} {wakeupFds : Fin m → Int} {latencyMetricsEnabled : Bool} {s : SearchServer m n}
  {i : Fin m} {id : Nat} {c : TcpConnection} {questions : List Question}

theorem AnsweredBy.first_questions {made : List Call} {responses : List ResponseResult}
    (h : AnsweredBy app latencyMetricsEnabled false made c responses)
    (hasks : ∀ question ∈ questions, question.Asks)
    (hreceived : received c.calls <+: Question.stream questions) :
    responses.length ≤ (frames headerEnd (received c.calls)).length ∧
      responses.flatMap ResponseResult.response =
        ((questions.take responses.length).map fun question =>
          question.reply app).flatMap Reply.bytes := by
  have hlength := h.answers.length_eq
  rw [List.length_take] at hlength
  have hframes := frames_prefix headerEnd_ne_nil hreceived
  rw [Question.frames_stream hasks] at hframes
  have htake : (frames headerEnd (received c.calls)).take responses.length =
      (questions.take responses.length).map fun question => question.sent.bytes := by
    obtain ⟨rest, heq⟩ := hframes
    rw [List.map_take, ← heq, List.take_append_of_le_length (by omega)]
  have hanswers := h.answers
  rw [htake] at hanswers
  have htaken : ∀ question ∈ questions.take responses.length, question.Asks :=
    fun question hmem => hasks question (List.mem_of_mem_take hmem)
  refine ⟨by omega, ?_⟩
  rw [flatMap_answers hanswers, Question.idealStream_questions htaken]
  intro request hmem
  obtain ⟨question, hquestion, rfl⟩ := List.mem_map.mp hmem
  exact (htaken question hquestion).metricsRequest_none

/-- At any moment the client has read the results for its first questions, and only for such
as have come in. -/
theorem client_reads (h : Reachable (system app cache wakeupFds latencyMetricsEnabled n) s)
    (hraised : s.raised = false) (hc : (s.serving.servers i).connections id = some c)
    (hasks : ∀ question ∈ questions, question.Asks)
    (hreceived : received c.calls <+: Question.stream questions) :
    ∃ count ≤ (frames headerEnd (received c.calls)).length,
      completeResponses (accepted ((s.serving.servers i).executed id)) =
        (questions.take count).map fun question => (question.reply app).received := by
  obtain ⟨-, responses, -, hanswered⟩ := exists_answeredBy h hc
  rw [hraised] at hanswered
  obtain ⟨hle, hresponses⟩ := hanswered.first_questions hasks hreceived
  obtain ⟨count, hread, -⟩ := completeResponses_prefix (hresponses ▸ hanswered.sent)
  refine ⟨min count responses.length, by omega, ?_⟩
  rw [hread, ← List.map_take, List.take_take, List.map_map]
  rfl

def sampleQuestion : Question where
  query := ascii "lru epoll"
  sent := ⟨ascii "/search", [(ascii "q", ascii "lru+epoll")], ascii "HTTP/1.1", []⟩

theorem sampleQuestion_asks : ∀ question ∈ [sampleQuestion], question.Asks := by
  have hencodes : QueryEncoding (ascii "lru epoll") (ascii "lru+epoll") :=
    .plain rfl (.plain rfl (.plain rfl (.plus (.plain rfl (.plain rfl (.plain rfl (.plain rfl
      (.plain rfl .nil))))))))
  refine List.forall_mem_singleton.mpr ⟨rfl, ?_, by decide⟩
  refine ⟨[(ascii "q", ascii "lru epoll")], ⟨.cons ⟨.plain rfl .nil, hencodes⟩ .nil, ?_, ?_, ?_,
    nofun, nofun⟩, rfl⟩
  · decide
  · decide
  · decide

theorem sampleQuestion_stream : Question.stream [sampleQuestion] = searchRequest := by decide

theorem answered_reads : ∃ (s : SearchServer 1 1) (c : TcpConnection),
    accepted ((s.serving.servers 0).executed 0) =
        (sampleQuestion.reply Serving.sampleApp).bytes ∧
      ∃ count ≤ (frames headerEnd (received c.calls)).length,
        completeResponses (accepted ((s.serving.servers 0).executed 0)) =
          ([sampleQuestion].take count).map fun question =>
            (question.reply Serving.sampleApp).received := by
  obtain ⟨s, c, hreachable, hraised, hc, hreceived, hsent⟩ := exists_observed observed_answered
  have hreply : (Serving.sampleApp.uncached sampleQuestion.sent.bytes).response =
      (sampleQuestion.reply Serving.sampleApp).bytes :=
    (sampleQuestion_asks _ List.mem_cons_self).uncached
  have hbytes : sampleQuestion.sent.bytes = searchRequest := by decide
  rw [hbytes] at hreply
  exact ⟨s, c, hsent.trans hreply, client_reads hreachable hraised hc sampleQuestion_asks
    (by rw [hreceived, sampleQuestion_stream])⟩

/-- Once nothing is left to do, the client has read the results for all its questions, or
leaves some of their bytes in the socket. -/
theorem client_served (h : Reachable (system app cache wakeupFds latencyMetricsEnabled n) s)
    (hfault : s.serving.fault = none) (hrest : AtRest s) (hraised : s.raised = false)
    (hc : (s.serving.servers i).connections id = some c) (hopen : 0 ≤ c.fd)
    (hasks : ∀ question ∈ questions, question.Asks)
    (hreceived : received c.calls = Question.stream questions) :
    c.outputBuffer.peek ≠ [] ∧ (s.serving.servers i).epoll c.fd = some writeInterest ∨
      completeResponses (accepted ((s.serving.servers i).executed id)) =
        questions.map fun question => (question.reply app).received := by
  obtain ⟨responses, hanswered, hsettled⟩ :=
    hrest.settled (reachableBy_of_unraised h hraised) hfault hc hopen
  rw [hraised] at hanswered
  obtain ⟨-, hresponses⟩ := hanswered.first_questions hasks (hreceived ▸ List.prefix_rfl)
  cases hsettled with
  | sending hpending hregistered => exact .inl ⟨hpending, hregistered⟩
  | answered hlength hsent =>
    rw [hreceived, Question.frames_stream hasks, List.length_map] at hlength
    refine .inr ?_
    rw [hsent, hresponses, hlength, List.take_length, completeResponses_replies, List.map_map]
    rfl

theorem searched_served : ∃ (s : SearchServer 1 1) (c : TcpConnection),
    received c.calls = Question.stream [sampleQuestion] ∧
      (c.outputBuffer.peek ≠ [] ∧ (s.serving.servers 0).epoll c.fd = some writeInterest ∨
        completeResponses (accepted ((s.serving.servers 0).executed 0)) =
          [sampleQuestion].map fun question => (question.reply Serving.sampleApp).received) := by
  have hsearched : ((run (system Serving.sampleApp (Serving.sampleCaches ()) (fun _ => 3) false 1)
      sampleStart (searchRead ++ searchAnswered)).map fun s =>
        (decide (s.serving.fault = none ∧ AtRest s ∧ s.raised = false),
          ((s.serving.servers 0).connections 0).map fun c => (c.fd, received c.calls))) =
      some (true, some (5, searchRequest)) := by
    decide +kernel
  obtain ⟨s, hrun, hobserved⟩ := Option.map_eq_some_iff.mp hsearched
  simp only [Prod.mk.injEq, Option.map_eq_some_iff, decide_eq_true_eq] at hobserved
  obtain ⟨⟨hfault, hrest, hraised⟩, c, hc, hfd, hreceived⟩ := hobserved
  have hreachable := Reachable.run (.start sampleStart_initial) hrun
  have hstream := hreceived.trans sampleQuestion_stream.symm
  exact ⟨s, c, hstream, client_served hreachable hfault hrest hraised hc (by omega)
    sampleQuestion_asks hstream⟩

end SearchServer

end CppSearchServer.Main
