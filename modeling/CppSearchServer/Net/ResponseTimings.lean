import CppSearchServer.Net.IdleTimeout
import CppSearchServer.Net.Pipeline

/-! The timing record of a request follows its response.
The metrics calls of a connection and its `send` calls follow one protocol: begin,
queue, hand over, return, send the response to its last byte, complete, and then
the next request. `Progress.next` is that protocol as a partial function, over the
responses the connection accepts; every history of calls passes through it. -/

namespace CppSearchServer.Net

open Library.TransitionSystem Library.Framing

def completes (calls : List Call) : List RequestTimingPtr :=
  calls.filterMap fun
    | .complete timing => some timing
    | _ => none

/-- What is under way after `finished` responses: nothing, or the next request,
queued and then being answered. `marked` is the write-started mark. -/
inductive ResponsePhase where
  | idle
  | begun
  | queued
  | sending (sent : Nat) (marked : Bool)
deriving DecidableEq, Repr

structure Progress where
  finished : Nat
  phase : ResponsePhase
deriving DecidableEq, Repr

def Progress.current (p : Progress) : Nat := p.finished + 1

def ResponsePhase.sent : ResponsePhase → Nat
  | .sending sent _ => sent
  | _ => 0

def Progress.response (responses : List ResponseResult) (p : Progress) : Bytes :=
  (responses[p.finished]?.map ResponseResult.response).getD []

def Progress.next (responses : List ResponseResult) (p : Progress) : Call → Option Progress
  | .beginRequest => if p.phase = .idle then some { p with phase := .begun } else none
  | .markQueued timing =>
    if p.phase = .begun ∧ timing = some p.current then some { p with phase := .queued } else none
  | .requestHandler requestId timing _ =>
    if p.phase = .queued ∧ requestId = p.current ∧ timing = some p.current then some p else none
  | .markReturnedToIo timing =>
    if p.phase = .queued ∧ timing = some p.current ∧ p.finished < responses.length then
      some { p with phase := .sending 0 false } else none
  | .send _ _ output (.bytes n) =>
    match p.phase, responses[p.finished]? with
    | .sending sent marked, some r =>
      if output = r.response.drop sent then
        some { p with phase := .sending (sent + (output.take n).length) marked } else none
    | _, _ => none
  | .markWriteStarted timing =>
    match p.phase with
    | .sending sent _ =>
      if timing = some p.current ∧ 0 < sent then some { p with phase := .sending sent true }
      else none
    | _ => none
  | .complete timing =>
    match p.phase, responses[p.finished]? with
    | .sending sent marked, some r =>
      if timing = some p.current ∧ sent = r.response.length ∧ marked = !r.response.isEmpty then
        some ⟨p.current, .idle⟩ else none
    | _, _ => none
  | _ => some p

def progressAfter (responses : List ResponseResult) (calls : List Call) : Option Progress :=
  calls.foldlM (Progress.next responses) ⟨0, .idle⟩

namespace Progress

variable {responses : List ResponseResult} {p p' : Progress}

theorem next_append {made : Call} (h : p.next responses made = some p')
    (more : List ResponseResult) : p.next (responses ++ more) made = some p' := by
  have hlookup : ∀ r, responses[p.finished]? = some r →
      (responses ++ more)[p.finished]? = some r := by
    intro r hr
    rw [List.getElem?_append_left (List.getElem?_eq_some_iff.mp hr).1, hr]
  cases made with
  | send time fd output result =>
    cases result with
    | bytes n =>
      simp only [next] at h ⊢
      split at h
      · rename_i hphase hr
        rw [hphase, hlookup _ hr]
        exact h
      · cases h
    | _ => exact h
  | complete timing =>
    simp only [next] at h ⊢
    split at h
    · rename_i hphase hr
      rw [hphase, hlookup _ hr]
      exact h
    · cases h
  | markReturnedToIo timing =>
    simp only [next, Option.ite_none_right_eq_some] at h ⊢
    obtain ⟨⟨hphase, ht, hlt⟩, hp⟩ := h
    refine ⟨⟨hphase, ht, ?_⟩, hp⟩
    rw [List.length_append]
    omega
  | _ => exact h

end Progress

theorem progressAfter_append (responses : List ResponseResult) (calls more : List Call) :
    progressAfter responses (calls ++ more) =
      (progressAfter responses calls).bind fun p => more.foldlM (Progress.next responses) p := by
  simp [progressAfter, List.foldlM_append]

theorem progressAfter_concat {responses : List ResponseResult} {calls : List Call} {p : Progress}
    (h : progressAfter responses calls = some p) (made : Call) :
    progressAfter responses (calls ++ [made]) = p.next responses made := by
  simp [progressAfter_append, h]

theorem progressAfter_cons {responses : List ResponseResult} {before after : List Call}
    {made : Call} {p : Progress} (h : progressAfter responses (before ++ made :: after) = some p) :
    ∃ q q', progressAfter responses before = some q ∧ q.next responses made = some q' := by
  rw [← List.singleton_append, ← List.append_assoc, progressAfter_append] at h
  obtain ⟨q', hq', -⟩ := Option.bind_eq_some_iff.mp h
  rw [progressAfter_append] at hq'
  obtain ⟨q, hq, hnext⟩ := Option.bind_eq_some_iff.mp hq'
  exact ⟨q, q', hq, by simpa using hnext⟩

theorem progressAfter_more {responses : List ResponseResult} {calls : List Call} {p : Progress}
    (h : progressAfter responses calls = some p) (more : List ResponseResult) :
    progressAfter (responses ++ more) calls = some p := by
  induction calls using List.reverseRecOn generalizing p with
  | nil => exact h
  | append_singleton calls made ih =>
    rw [progressAfter_append] at h
    obtain ⟨q, hq, hnext⟩ := Option.bind_eq_some_iff.mp h
    rw [progressAfter_concat (ih hq)]
    exact Progress.next_append (by simpa using hnext) more

/-- What a history that follows the protocol has sent and completed. -/
structure Traced (responses : List ResponseResult) (calls : List Call) (p : Progress) : Prop where
  finished_le : p.finished ≤ responses.length
  sent_le : p.phase.sent ≤ (p.response responses).length
  accepted_eq : accepted calls = (responses.take p.finished).flatMap ResponseResult.response ++
    (p.response responses).take p.phase.sent
  completes_eq : completes calls = (List.range' 1 p.finished).map some

variable {responses : List ResponseResult} {calls : List Call} {p p' : Progress} {made : Call}

@[simp] theorem completes_append (calls more : List Call) :
    completes (calls ++ more) = completes calls ++ completes more := by
  simp [completes]

theorem Traced.keep (h : Traced responses calls p) (hfinished : p'.finished = p.finished)
    (hsent : p'.phase.sent = p.phase.sent) (haccepted : made.accepted = [])
    (hcompletes : completes [made] = []) : Traced responses (calls ++ [made]) p' := by
  have hresponse : p'.response responses = p.response responses := by
    simp [Progress.response, hfinished]
  refine ⟨hfinished ▸ h.finished_le, ?_, ?_, ?_⟩
  · rw [hsent, hresponse]
    exact h.sent_le
  · rw [hsent, hresponse, hfinished, ← h.accepted_eq, accepted_append, accepted_cons, haccepted]
    simp
  · rw [completes_append, hcompletes, hfinished, List.append_nil]
    exact h.completes_eq

theorem Traced.send (h : Traced responses calls p) {sent n : Nat} {marked : Bool}
    {r : ResponseResult} (hphase : p.phase = .sending sent marked)
    (hr : responses[p.finished]? = some r) (time : Nat) (fd : Int) :
    Traced responses (calls ++ [.send time fd (r.response.drop sent) (.bytes n)])
      { p with phase := .sending (sent + ((r.response.drop sent).take n).length) marked } := by
  have hresponse : p.response responses = r.response := by simp [Progress.response, hr]
  have hle := h.sent_le
  have haccepted := h.accepted_eq
  rw [hphase, hresponse] at hle haccepted
  simp only [ResponsePhase.sent] at hle haccepted
  refine ⟨h.finished_le, ?_, ?_, ?_⟩
  · show _ ≤ (p.response responses).length
    rw [hresponse]
    simp only [ResponsePhase.sent, List.length_take, List.length_drop]
    omega
  · rw [accepted_append, haccepted, List.append_assoc]
    congr 1
    show _ = (p.response responses).take _
    rw [hresponse]
    simp only [ResponsePhase.sent, accepted_cons, accepted_nil, List.append_nil, Call.accepted]
    rw [List.take_add, List.append_cancel_left_eq, List.take_eq_take_iff, List.length_take]
    omega
  · rw [completes_append]
    exact (List.append_nil _).trans h.completes_eq

theorem Traced.complete (h : Traced responses calls p) {marked : Bool} {r : ResponseResult}
    (hphase : p.phase = .sending r.response.length marked)
    (hr : responses[p.finished]? = some r) :
    Traced responses (calls ++ [.complete (some p.current)]) ⟨p.current, .idle⟩ := by
  obtain ⟨hlt, hget⟩ := List.getElem?_eq_some_iff.mp hr
  have hresponse : p.response responses = r.response := by simp [Progress.response, hr]
  have haccepted := h.accepted_eq
  rw [hphase, hresponse, ResponsePhase.sent, List.take_length] at haccepted
  refine ⟨hlt, Nat.zero_le _, ?_, ?_⟩
  · simp only [Progress.current, ResponsePhase.sent, List.take_zero, List.append_nil]
    rw [List.take_succ_eq_append_getElem hlt, List.flatMap_append, hget]
    simpa using haccepted
  · rw [completes_append, h.completes_eq, Progress.current, List.range'_1_concat, List.map_append]
    simp [completes, Nat.add_comm]

theorem Traced.next (h : Traced responses calls p) (hnext : p.next responses made = some p') :
    Traced responses (calls ++ [made]) p' := by
  cases made with
  | send time fd output result =>
    cases result with
    | bytes n =>
      simp only [Progress.next] at hnext
      split at hnext
      · rename_i hphase hr
        obtain ⟨rfl, hp⟩ := Option.ite_none_right_eq_some.mp hnext
        cases hp
        exact h.send hphase hr time fd
      · cases hnext
    | _ =>
      cases hnext
      exact h.keep rfl rfl rfl rfl
  | complete timing =>
    simp only [Progress.next] at hnext
    split at hnext
    · rename_i hphase hr
      obtain ⟨⟨rfl, rfl, -⟩, hp⟩ := Option.ite_none_right_eq_some.mp hnext
      cases hp
      exact h.complete hphase hr
    · cases hnext
  | beginRequest =>
    obtain ⟨hphase, hp⟩ := Option.ite_none_right_eq_some.mp hnext
    cases hp
    exact h.keep rfl (by simp [hphase, ResponsePhase.sent]) rfl rfl
  | markQueued timing =>
    obtain ⟨⟨hphase, -⟩, hp⟩ := Option.ite_none_right_eq_some.mp hnext
    cases hp
    exact h.keep rfl (by simp [hphase, ResponsePhase.sent]) rfl rfl
  | requestHandler requestId timing request =>
    obtain ⟨-, hp⟩ := Option.ite_none_right_eq_some.mp hnext
    cases hp
    exact h.keep rfl rfl rfl rfl
  | markReturnedToIo timing =>
    obtain ⟨⟨hphase, -⟩, hp⟩ := Option.ite_none_right_eq_some.mp hnext
    cases hp
    exact h.keep rfl (by simp [hphase, ResponsePhase.sent]) rfl rfl
  | markWriteStarted timing =>
    simp only [Progress.next] at hnext
    split at hnext
    · rename_i hphase
      obtain ⟨-, hp⟩ := Option.ite_none_right_eq_some.mp hnext
      cases hp
      exact h.keep rfl (by simp [hphase, ResponsePhase.sent]) rfl rfl
    · cases hnext
  | _ =>
    cases hnext
    exact h.keep rfl rfl rfl rfl

theorem Traced.completed (h : Traced responses calls p) {timing : RequestTimingPtr}
    (hnext : p.next responses (.complete timing) = some p') :
    ∃ number, timing = some number ∧ 1 ≤ number ∧ number ≤ responses.length ∧
      accepted calls = (responses.take number).flatMap ResponseResult.response := by
  simp only [Progress.next] at hnext
  split at hnext
  · rename_i hphase hr
    obtain ⟨⟨rfl, rfl, -⟩, -⟩ := Option.ite_none_right_eq_some.mp hnext
    have hdone := (h.complete hphase hr)
    have haccepted := hdone.accepted_eq
    refine ⟨p.current, rfl, Nat.succ_pos _, hdone.finished_le, ?_⟩
    simpa [ResponsePhase.sent, completes] using haccepted
  · cases hnext

theorem progressAfter_traced {calls : List Call} {p : Progress}
    (h : progressAfter responses calls = some p) : Traced responses calls p := by
  induction calls using List.reverseRecOn generalizing p with
  | nil =>
    cases h
    exact ⟨Nat.zero_le _, Nat.zero_le _, by simp [ResponsePhase.sent], rfl⟩
  | append_singleton calls made ih =>
    rw [progressAfter_append] at h
    obtain ⟨q, hq, hnext⟩ := Option.bind_eq_some_iff.mp h
    exact (ih hq).next (by simpa using hnext)

namespace TcpConnection

/-- How the fields of a connection show the phase, between two handlers and inside
one. -/
def InStep (responses : List ResponseResult) (p : Progress) (c : TcpConnection) : Prop :=
  match p.phase with
  | .idle => c.processingRequest = false ∧ c.responseReady = false ∧
      c.requestGeneration = p.finished ∧ responses.length = p.finished ∧
      c.outputBuffer.peek = []
  | .begun => False
  | .queued => c.processingRequest = true ∧ c.responseReady = false ∧
      c.requestGeneration = p.current ∧ responses.length = p.finished ∧
      c.outputBuffer.peek = []
  | .sending sent marked => c.processingRequest = false ∧ c.responseReady = true ∧
      c.requestGeneration = p.current ∧ responses.length = p.current ∧
      c.activeRequestTiming = some p.current ∧
      c.outputBuffer.peek = (p.response responses).drop sent ∧ marked = decide (0 < sent)

/-- A connection with enabled metrics whose history follows the protocol. -/
structure Metered (responses : List ResponseResult) (c : TcpConnection) : Prop where
  enabled : c.latencyMetrics = some true
  progress : ∃ p, progressAfter responses c.calls = some p ∧ c.InStep responses p

/-- Between two handlers a response that is ready is not yet sent out. -/
structure Rested (responses : List ResponseResult) (c : TcpConnection) : Prop
    extends Metered responses c where
  unsent : c.responseReady = true → c.outputBuffer.peek ≠ []

structure Keeps (c c' : TcpConnection) : Prop where
  calls : ∃ more, c'.calls = c.calls ++ more ∧
    ∀ made ∈ more, ∀ responses p, Progress.next responses p made = some p
  enabled : c'.latencyMetrics = c.latencyMetrics
  processing : c'.processingRequest = c.processingRequest
  ready : c'.responseReady = c.responseReady
  generation : c'.requestGeneration = c.requestGeneration
  timing : c'.activeRequestTiming = c.activeRequestTiming
  output : c'.outputBuffer = c.outputBuffer

variable {c c' : TcpConnection}

theorem Keeps.metered (h : Keeps c c') (hm : Metered responses c) : Metered responses c' := by
  obtain ⟨p, hp, hstep⟩ := hm.progress
  obtain ⟨more, hcalls, hneutral⟩ := h.calls
  refine ⟨h.enabled.trans hm.enabled, p, ?_, ?_⟩
  · rw [hcalls, progressAfter_append, hp, Option.bind_some]
    clear hcalls
    induction more with
    | nil => rfl
    | cons made more ih =>
      rw [List.foldlM_cons, hneutral made (by simp), Option.bind_eq_bind, Option.bind_some]
      exact ih fun made hmade => hneutral made (by simp [hmade])
  · simpa only [InStep, h.processing, h.ready, h.generation, h.timing, h.output] using hstep

theorem Keeps.rested (h : Keeps c c') (hr : Rested responses c) : Rested responses c' :=
  ⟨h.metered hr.toMetered, by rw [h.ready, h.output]; exact hr.unsent⟩

theorem call_keeps (c : TcpConnection) {made : Call}
    (h : ∀ responses p, Progress.next responses p made = some p) : Keeps c (c.call made) :=
  ⟨⟨[made], rfl, by simpa using h⟩, rfl, rfl, rfl, rfl, rfl, rfl⟩

theorem close_keeps (c : TcpConnection) : Keeps c c.close := by
  rw [close_eq]
  refine ⟨⟨_, rfl, ?_⟩, rfl, rfl, rfl, rfl, rfl, rfl⟩
  split
  · simp
  · simp [Progress.next]

theorem markActivity_keeps (now : Nat) (c : TcpConnection) : Keeps c (c.markActivity now) :=
  ⟨⟨[], by simp [markActivity], by simp⟩, rfl, rfl, rfl, rfl, rfl, rfl⟩

theorem enableWriting_keeps (c : TcpConnection) : Keeps c c.enableWriting := by
  unfold enableWriting
  split
  · exact ⟨⟨[], by simp, by simp⟩, rfl, rfl, rfl, rfl, rfl, rfl⟩
  · exact ⟨⟨[_], rfl, by simp [Progress.next]⟩, rfl, rfl, rfl, rfl, rfl, rfl⟩

theorem disableWriting_keeps (c : TcpConnection) : Keeps c c.disableWriting := by
  unfold disableWriting
  split
  · exact ⟨⟨[], by simp, by simp⟩, rfl, rfl, rfl, rfl, rfl, rfl⟩
  · exact ⟨⟨[_], rfl, by simp [Progress.next]⟩, rfl, rfl, rfl, rfl, rfl, rfl⟩

theorem processRequest_metered (h : Metered responses c) (hready : c.responseReady = false)
    (hidle : c.processingRequest = false) : Rested responses c.processRequest := by
  obtain ⟨p, hp, hstep⟩ := h.progress
  obtain ⟨finished, phase⟩ := p
  cases phase with
  | idle =>
    obtain ⟨-, -, hgen, hlen, hout⟩ := hstep
    obtain ⟨-, -, houtput, hrdy, -, -, hproc, hgeneration, -⟩ := processRequest_fields c
    have hcalls : c.processRequest.calls = c.calls ++
        [.beginRequest, .markQueued (some (finished + 1)), .requestHandler (finished + 1)
          (some (finished + 1)) (c.inputBuffer.peek.take (requestEnd c.inputBuffer.peek))] := by
      simp [processRequest, metricsCall_eq, TcpConnection.call, h.enabled, hgen]
    refine ⟨⟨?_, ⟨finished, .queued⟩, ?_, ?_⟩, by simp [hrdy, hready]⟩
    · simp [processRequest, metricsCall_eq, TcpConnection.call, h.enabled]
    · rw [hcalls, progressAfter_append, hp]
      simp [Progress.next, Progress.current]
    · exact ⟨hproc, hrdy.trans hready, by rw [hgeneration, hgen]; rfl, hlen, houtput ▸ hout⟩
  | begun => exact hstep.elim
  | queued => simp [InStep, hidle] at hstep
  | sending sent marked => simp [InStep, hready] at hstep

theorem Metered.sending (h : Metered responses c) (hready : c.responseReady = true) :
    ∃ finished sent, ∃ r, progressAfter responses c.calls =
        some ⟨finished, .sending sent (decide (0 < sent))⟩ ∧
      responses[finished]? = some r ∧ sent ≤ r.response.length ∧
      c.outputBuffer.peek = r.response.drop sent ∧ c.processingRequest = false ∧
      c.requestGeneration = finished + 1 ∧ responses.length = finished + 1 ∧
      c.activeRequestTiming = some (finished + 1) := by
  obtain ⟨⟨finished, phase⟩, hp, hstep⟩ := h.progress
  have htraced := progressAfter_traced hp
  cases phase with
  | sending sent marked =>
    obtain ⟨hidle, -, hgen, hlen, htiming, hout, rfl⟩ := hstep
    have hlt : finished < responses.length := hlen ▸ Nat.lt_succ_self finished
    obtain ⟨r, hr⟩ : ∃ r, responses[finished]? = some r := ⟨_, List.getElem?_eq_getElem hlt⟩
    have hresponse : Progress.response responses ⟨finished, .sending sent (decide (0 < sent))⟩ =
        r.response := by
      simp [Progress.response, hr]
    refine ⟨finished, sent, r, hp, hr, ?_, ?_, hidle, hgen, hlen, htiming⟩
    · exact hresponse ▸ htraced.sent_le
    · exact hresponse ▸ hout
  | begun => exact hstep.elim
  | idle => simp [InStep, hready] at hstep
  | queued => simp [InStep, hready] at hstep

theorem InStep.of_sending {finished sent : Nat} {r : ResponseResult}
    (hr : responses[finished]? = some r) (hready : c.responseReady = true)
    (hout : c.outputBuffer.peek = r.response.drop sent) (hidle : c.processingRequest = false)
    (hgen : c.requestGeneration = finished + 1) (hlen : responses.length = finished + 1)
    (htiming : c.activeRequestTiming = some (finished + 1)) :
    c.InStep responses ⟨finished, .sending sent (decide (0 < sent))⟩ := by
  refine ⟨hidle, hready, hgen, hlen, htiming, ?_, rfl⟩
  simpa [Progress.response, hr] using hout

theorem tookOver_metered (now n : Nat) (h : Metered responses c)
    (hready : c.responseReady = true) (hne : c.outputBuffer.peek ≠ []) :
    Metered responses (tookOver now (n + 1) c) ∧
      (tookOver now (n + 1) c).responseReady = true := by
  obtain ⟨finished, sent, r, hp, hr, hle, hout, hidle, hgen, hlen, htiming⟩ := h.sending hready
  have hlt : sent < r.response.length := by
    by_contra hge
    exact hne (hout.trans (List.drop_of_length_le (by omega)))
  have heq : tookOver now (n + 1) c =
      { c with
        outputBuffer := c.outputBuffer.retrieve (n + 1)
        calls := c.calls ++ [.send now c.fd (r.response.drop sent) (.bytes (n + 1)),
          .markWriteStarted (some (finished + 1))] } := by
    simp [tookOver, activeTimingCall_eq, TcpConnection.call, h.enabled, htiming, hout]
  obtain ⟨total, htotal, hpos, hdrop⟩ : ∃ total,
      sent + min (n + 1) (r.response.length - sent) = total ∧ 0 < total ∧
        (r.response.drop sent).drop (n + 1) = r.response.drop total := by
    refine ⟨_, rfl, by omega, ?_⟩
    rw [List.drop_drop]
    rcases Nat.le_total (n + 1) (r.response.length - sent) with hmin | hmin
    · rw [Nat.min_eq_left hmin]
    · rw [Nat.min_eq_right hmin, List.drop_of_length_le (by omega),
        List.drop_of_length_le (by omega)]
  rw [heq]
  refine ⟨⟨h.enabled, ⟨finished, .sending total (decide (0 < total))⟩, ?_, ?_⟩, hready⟩
  · rw [progressAfter_append, hp]
    simp [Progress.next, Progress.current, hr, htotal, hpos]
  · refine .of_sending hr hready ?_ hidle hgen hlen htiming
    rw [Buffer.peek_retrieve, hout, hdrop]

theorem responseSent_metered (h : Metered responses c) (hready : c.responseReady = true)
    (hempty : c.outputBuffer.peek = []) :
    Metered responses c.responseSent ∧ c.responseSent.responseReady = false ∧
      c.responseSent.processingRequest = false := by
  have h := (disableWriting_keeps c).metered h
  have hkeeps := disableWriting_keeps c
  obtain ⟨finished, sent, r, hp, hr, hle, hout, hidle, hgen, hlen, htiming⟩ :=
    h.sending (hkeeps.ready.trans hready)
  have hsent : sent = r.response.length := by
    rw [hkeeps.output, hempty] at hout
    have := congrArg List.length hout
    rw [List.length_drop, List.length_nil] at this
    omega
  have heq : c.responseSent =
      { c.disableWriting with
        activeRequestTiming := none
        responseReady := false
        calls := c.disableWriting.calls ++ [.complete (some (finished + 1))] } := by
    simp [responseSent, activeTimingCall_eq, h.enabled, htiming]
  rw [heq]
  refine ⟨⟨h.enabled, ⟨finished + 1, .idle⟩, ?_, ?_⟩, rfl, hidle⟩
  · rw [progressAfter_concat hp]
    have hmarked : decide (0 < sent) = !r.response.isEmpty := by
      cases hnil : r.response <;> simp [hsent, hnil]
    simp [Progress.next, Progress.current, hr, ← hsent, hmarked]
  · exact ⟨hidle, rfl, hgen, hlen, by rw [hkeeps.output, hempty]⟩

theorem answered_metered (h : Metered responses c) (hproc : c.processingRequest = true)
    (result : ResponseResult) :
    Metered (responses ++ [result]) (c.answered (some c.requestGeneration) result) ∧
      (c.answered (some c.requestGeneration) result).responseReady = true := by
  obtain ⟨⟨finished, phase⟩, hp, hstep⟩ := h.progress
  cases phase with
  | queued =>
    obtain ⟨-, -, hgen, hlen, hout⟩ := hstep
    have heq : c.answered (some c.requestGeneration) result =
        { c with
          processingRequest := false
          activeRequestTiming := some (finished + 1)
          outputBuffer := c.outputBuffer.append result.response
          closeAfterResponse := result.closeAfterResponse
          responseReady := true
          calls := c.calls ++ [.markReturnedToIo (some (finished + 1))] } := by
      simp [answered, metricsCall_eq, h.enabled, hgen, Progress.current]
    have hlen : responses.length = finished := hlen
    have hr : (responses ++ [result])[finished]? = some result := by
      simp [← hlen]
    rw [heq]
    refine ⟨⟨h.enabled, ⟨finished, .sending 0 false⟩, ?_, ?_⟩, rfl⟩
    · rw [progressAfter_concat (progressAfter_more hp [result])]
      simp [Progress.next, Progress.current, hlen]
    · exact .of_sending hr rfl (by simp [hout]) rfl hgen (by simp [hlen]) rfl
  | begun => exact hstep.elim
  | idle => simp [InStep, hproc] at hstep
  | sending sent marked => simp [InStep, hproc] at hstep

theorem afterRead_rested (now : Nat) (d : Bool) (h : Rested responses c) :
    Rested responses (afterRead now d c) := by
  refine afterRead_rule (P := Rested responses) (Q := Rested responses) ?_ ?_ ?_ ?_ d c h
  · exact fun c h => (markActivity_keeps now c).rested h
  · exact fun c h hready hidle _ => processRequest_metered h.toMetered hready hidle
  · exact fun c h _ _ _ => (close_keeps c).rested h
  · exact fun c h _ => h

theorem handleRead_rested (now : Nat) (answers : List RecvResult) (h : Rested responses c) :
    Rested responses (c.handleRead now answers) := by
  have recv : ∀ {c : TcpConnection} (result : RecvResult), Rested responses c →
      Rested responses (c.call (.recv now c.fd result)) :=
    fun _ h => (call_keeps _ fun _ _ => rfl).rested h
  refine readLoop_rule (P := fun _ c => Rested responses c) ?_ ?_ ?_ ?_ ?_ _ false c h
  · intro _ c b bytes h
    exact ⟨⟨h.enabled, (recv (.bytes (b :: bytes)) h).progress⟩, h.unsent⟩
  · exact fun _ c h => recv .eintr h
  · intro d c h
    exact afterRead_rested now d ⟨⟨h.enabled, (recv (.bytes []) h).progress⟩, h.unsent⟩
  · exact fun d c h => afterRead_rested now d (recv .again h)
  · exact fun _ c h => (close_keeps _).rested (recv .fail h)

theorem afterWrite_rested (now : Nat) (d : Bool) (h : Metered responses c)
    (hready : c.responseReady = true) (hempty : c.outputBuffer.peek = []) :
    Rested responses (afterWrite now d c) := by
  obtain ⟨hsent, hrdy, hidle⟩ := responseSent_metered h hready hempty
  refine afterWrite_rule (P := fun c => Rested responses c ∧ c.responseReady = false)
    (Q := Rested responses) ?_ ?_ ?_ ?_ d c ⟨⟨hsent, by simp [hrdy]⟩, hrdy⟩
  · exact fun c h _ => (close_keeps c).rested h.1
  · exact fun c h _ hidle _ => processRequest_metered h.1.toMetered h.2 hidle
  · exact fun c h _ => (close_keeps c).rested h.1
  · exact fun c h _ _ _ => ⟨h.1, (markActivity_keeps now c).rested h.1⟩

theorem send_nothing (now : Nat) (h : Metered responses c) (hready : c.responseReady = true)
    {result : SendResult} (hresult : ∀ n, result = .bytes n → n = 0) :
    Metered responses (c.call (.send now c.fd c.outputBuffer.peek result)) := by
  cases result with
  | bytes n =>
    obtain rfl := hresult n rfl
    obtain ⟨p, hp, hstep⟩ := h.progress
    obtain ⟨finished, sent, r, hp', hr, -, hout, -⟩ := h.sending hready
    obtain rfl := Option.some.inj (hp.symm.trans hp')
    refine ⟨h.enabled, ⟨finished, .sending sent (decide (0 < sent))⟩, ?_, hstep⟩
    rw [TcpConnection.call, progressAfter_concat hp]
    simp [Progress.next, hr, hout]
  | _ => exact (call_keeps _ fun _ _ => rfl).metered h

theorem writeLoop_rested (now : Nat) (answers : List SendResult) (d : Bool)
    (h : Metered responses c) (hready : c.responseReady = true) :
    Rested responses (writeLoop now d c answers) := by
  refine writeLoop_rule (P := fun _ c => Metered responses c ∧ c.responseReady = true)
    ?_ ?_ ?_ ?_ ?_ answers d c ⟨h, hready⟩
  · exact fun _ c n ⟨h, hready⟩ hne => tookOver_metered now n h hready hne
  · exact fun _ c ⟨h, hready⟩ _ => ⟨send_nothing now h hready (by simp), hready⟩
  · exact fun d c ⟨h, hready⟩ hempty => afterWrite_rested now d h hready hempty
  · intro d c ⟨h, hready⟩ hne
    have hsent : Rested responses (c.call (.send now c.fd c.outputBuffer.peek .again)) :=
      ⟨send_nothing now h hready (by simp), fun _ => hne⟩
    refine (enableWriting_keeps _).rested ?_
    split
    · exact (markActivity_keeps now _).rested hsent
    · exact hsent
  · intro _ c result ⟨h, hready⟩ hne hresult
    refine (close_keeps _).rested ⟨send_nothing now h hready ?_, fun _ => hne⟩
    rcases hresult with rfl | rfl <;> simp

theorem handleWrite_rested (now : Nat) (answers : List SendResult) (h : Metered responses c)
    (hready : c.responseReady = true) : Rested responses (c.handleWrite now answers) :=
  writeLoop_rested now _ false h hready

theorem handleEvent_rested (now : Nat) (revents : EventMask) (reads : List RecvResult)
    (writes : List SendResult) (h : Rested responses c)
    (hwrite : revents.has EPOLLOUT = true → c.responseReady = true) :
    Rested responses (c.handleEvent now revents reads writes) := by
  refine handleEvent_rule (P := fun c' => Rested responses c' ∧ (c.responseReady = true →
      c'.responseReady = true ∧ c'.outputBuffer = c.outputBuffer))
    (Q := Rested responses) ?_ ?_ ?_ ?_ fun _ h => h.1
  · exact fun _ => (close_keeps c).rested h
  · exact ⟨h, fun hready => ⟨hready, rfl⟩⟩
  · exact ⟨handleRead_rested now reads h, handleRead_ready now reads c⟩
  · exact fun c' ⟨hrested, hkept⟩ hout =>
      handleWrite_rested now writes hrested.toMetered (hkept (hwrite hout)).1

theorem closeIfIdle_rested (now expectedGeneration : Nat) (h : Rested responses c) :
    Rested responses (c.closeIfIdle now expectedGeneration) := by
  unfold closeIfIdle
  split_ifs
  · exact h
  · exact (call_keeps c fun _ _ => rfl).rested h
  · exact (call_keeps c fun _ _ => rfl).rested h
  · exact (close_keeps c).rested h

theorem establish_rested (now : Nat) (fd : Int) (idleTimeout : Nat) :
    Rested [] ((new fd idleTimeout (some true)).establish now (.new fd)) := by
  refine ⟨⟨rfl, ⟨0, .idle⟩, ?_, ?_⟩, ?_⟩
  · simp [establish, new, markActivity, scheduleIdleCheck, TcpConnection.call, progressAfter,
      Progress.next]
  · exact ⟨rfl, rfl, rfl, rfl, rfl⟩
  · simp [establish, new, markActivity, scheduleIdleCheck, TcpConnection.call]

end TcpConnection

namespace Session

open TcpConnection

def Accepts (s : Session) (a : Action) (timing : RequestTimingPtr) (result : ResponseResult) :
    Prop :=
  ∃ writes, a = .completion s.connection.requestGeneration timing result writes ∧
    0 ≤ s.connection.fd ∧ s.connection.processingRequest = true

/-- After a handler an open connection with a request in processing has either
taken the next request, or it still waits for the same one. -/
def SameOrNext (accepted : Prop) (c c' : TcpConnection) : Prop :=
  c.requestGeneration ≤ c'.requestGeneration ∧
    (0 ≤ c'.fd → c'.processingRequest = true →
      c'.requestGeneration = c.requestGeneration + 1 ∨
      ¬accepted ∧ 0 ≤ c.fd ∧ c.processingRequest = true ∧
        c'.requestGeneration = c.requestGeneration)

theorem sameOrNext_of_advance {accepted : Prop} {c c' : TcpConnection} (h : Advance c c')
    (hnot : ¬accepted) : SameOrNext accepted c c' := by
  rcases h.requests with ⟨hp, hg⟩ | ⟨-, -, -, hg⟩
  · exact ⟨hg.ge, fun hopen hproc => .inr ⟨hnot, h.opened hopen, hp ▸ hproc, hg⟩⟩
  · exact ⟨by omega, fun _ _ => .inl hg⟩

theorem sameOrNext_of_answered {accepted : Prop} {c c' : TcpConnection}
    (timing : RequestTimingPtr) (result : ResponseResult)
    (h : Advance (c.answered timing result) c') : SameOrNext accepted c c' := by
  obtain ⟨more, -, hanswered⟩ := answered_eq c timing result
  have hgen : (c.answered timing result).requestGeneration = c.requestGeneration := by
    rw [hanswered]
  have hidle : (c.answered timing result).processingRequest = false := by
    rw [hanswered]
  rcases h.requests with ⟨hp, hg⟩ | ⟨-, -, -, hg⟩
  · exact ⟨by omega, fun _ hproc => by simp [hp, hidle] at hproc⟩
  · exact ⟨by omega, fun _ _ => .inl (by omega)⟩

theorem step_processing {s t : Session} {a : Action} (hs : Reachable system s)
    (hstep : s.step a = some t) :
    SameOrNext (∃ timing result, s.Accepts a timing result) s.connection t.connection := by
  rcases step_cases hstep with ⟨_, rfl, rfl⟩ | ⟨revents, reads, writes, rfl, hopen, -, rfl⟩ |
    ⟨id, timing, result, writes, rfl, -, -, rfl⟩ | ⟨check, rfl, -, -, rfl⟩
  · exact sameOrNext_of_advance (.refl _) (by simp [Accepts])
  · obtain ⟨_, -, hsettled⟩ := reachable_settled hs hopen
    exact sameOrNext_of_advance (handleEvent_advance _ _ _ _ hsettled.closing) (by simp [Accepts])
  · rcases finishRequest_cases s.now id timing result writes s.connection with
      ⟨heq, hdrop⟩ | ⟨-, -, rfl, heq⟩
    · refine sameOrNext_of_advance (by rw [ran, heq]; exact .refl _) ?_
      rintro ⟨_, _, _, ha, hopen, hproc⟩
      exact hdrop hopen hproc (Action.completion.inj ha).1
    · refine sameOrNext_of_answered timing result ?_
      rw [ran, heq]
      exact handleWrite_advance ..
  · exact sameOrNext_of_advance (closeIfIdle_advance _ _ _) (by simp [Accepts])

theorem step_calls {s t : Session} {a : Action} (hstep : s.step a = some t) :
    s.connection.calls <+: t.connection.calls := by
  rcases step_cases hstep with ⟨_, rfl, rfl⟩ | ⟨revents, reads, writes, rfl, -, -, rfl⟩ |
    ⟨id, timing, result, writes, rfl, -, -, rfl⟩ | ⟨check, rfl, -, -, rfl⟩
  · exact List.prefix_rfl
  · exact (handleEvent_timed ..).calls_extended
  · exact (finishRequest_timed ..).calls_extended
  · exact closeIfIdle_extended ..

theorem step_rested {s t : Session} {a : Action} (hs : Reachable system s)
    (h : Rested s.acceptedResponses s.connection) (hstep : s.step a = some t)
    (hcarries : ∀ timing result, s.Accepts a timing result →
      timing = some s.connection.requestGeneration) :
    Rested t.acceptedResponses t.connection ∧
      (t.acceptedResponses = s.acceptedResponses ∨
        ∃ timing result, s.Accepts a timing result ∧
          s.connection.requestGeneration = s.acceptedResponses.length + 1 ∧
          t.acceptedResponses = s.acceptedResponses ++ [result]) := by
  obtain ⟨responses, hp⟩ := reachable_pipeline hs
  have hresponses : s.acceptedResponses = responses := hp.acceptedResponses_eq
  rw [hresponses] at h ⊢
  have same : ∀ {t : Session}, Pipeline t.connection t.delivered responses →
      Rested responses t.connection →
      Rested t.acceptedResponses t.connection ∧
        (t.acceptedResponses = responses ∨
          ∃ timing result, s.Accepts a timing result ∧
            s.connection.requestGeneration = responses.length + 1 ∧
            t.acceptedResponses = responses ++ [result]) := by
    intro t hp hrested
    rw [hp.acceptedResponses_eq]
    exact ⟨hrested, .inl rfl⟩
  rcases step_cases hstep with ⟨_, rfl, rfl⟩ | ⟨revents, reads, writes, rfl, hopen, hout, rfl⟩ |
    ⟨id, timing, result, writes, rfl, -, hid, rfl⟩ | ⟨check, rfl, -, -, rfl⟩
  · exact same hp h
  · obtain ⟨_, -, hsettled⟩ := reachable_settled hs hopen
    exact same (hp.advance (handleEvent_advance _ _ _ _ hsettled.closing))
      (handleEvent_rested _ _ _ _ h fun hw => responseReady_of_interested hsettled (hout hw))
  · rcases finishRequest_cases s.now id timing result writes s.connection with
      ⟨heq, hdrop⟩ | ⟨hopen, hproc, rfl, heq⟩
    · refine same ?_ ?_
      · simpa only [ran, heq] using hp.dropped id result hid hdrop
      · simpa only [ran, heq] using h
    · have haccepts : s.Accepts (.completion s.connection.requestGeneration timing result writes)
          timing result := ⟨writes, rfl, hopen, hproc⟩
      obtain rfl := hcarries timing result haccepts
      obtain ⟨hmetered, hready⟩ := answered_metered h.toMetered hproc result
      have hrested := handleWrite_rested s.now writes hmetered hready
      have hp' := (hp.accept (some s.connection.requestGeneration) result hopen hproc).advance
        (handleWrite_advance s.now writes _)
      rw [← heq] at hrested hp'
      have hbalance := hp.balance
      rw [hproc] at hbalance
      rw [show acceptedResponses _ = _ from Pipeline.acceptedResponses_eq hp']
      exact ⟨hrested, .inr ⟨_, result, haccepts, hbalance.symm, rfl⟩⟩
  · exact same (hp.advance (closeIfIdle_advance _ _ _)) (closeIfIdle_rested _ _ h)

end Session

end CppSearchServer.Net
