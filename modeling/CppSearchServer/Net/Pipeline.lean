import CppSearchServer.Net.Session

/-! Requests in, responses out.
A sequential server would cut the bytes received into frames, hand over one frame
at a time and send the first answer to each before the next. The connection does
the same over any interleaving: what a handler does to the request side and the
response side is `Advance`, and `Pipeline` ties both to the completions. -/

namespace CppSearchServer.Net

open Library.TransitionSystem Library.Framing

namespace TcpConnection

def outgoing (c : TcpConnection) : Bytes := accepted c.calls ++ c.outputBuffer.peek

/-- The requests handed over are frames of the input, numbered from one, and what
is buffered is the rest of the input. -/
structure Framed (c : TcpConnection) : Prop where
  split : (handed c.calls).flatten ++ c.inputBuffer.peek = received c.calls
  frames : ∀ f ∈ handed c.calls, IsFrame headerEnd f
  ids : handedIds c.calls = List.range' 1 c.requestGeneration
  count : (handed c.calls).length = c.requestGeneration

/-- What a handler may do apart from accepting a completion: move bytes, and hand
over at most one request, and that only when nothing is in processing and the
last response did not ask to close. -/
structure Advance (c c' : TcpConnection) : Prop where
  opened : 0 ≤ c'.fd → 0 ≤ c.fd
  outgoing : c'.outgoing = c.outgoing
  closing : c'.closeAfterResponse = c.closeAfterResponse
  requests : (c'.processingRequest = c.processingRequest ∧
      c'.requestGeneration = c.requestGeneration) ∨
    (c.processingRequest = false ∧ c.closeAfterResponse = false ∧
      c'.processingRequest = true ∧ c'.requestGeneration = c.requestGeneration + 1)
  framed : c.Framed → c'.Framed

theorem Advance.refl (c : TcpConnection) : Advance c c :=
  ⟨id, rfl, rfl, .inl ⟨rfl, rfl⟩, id⟩

theorem Advance.trans {c c' c'' : TcpConnection} (h : Advance c c') (h' : Advance c' c'') :
    Advance c c'' where
  opened hopen := h.opened (h'.opened hopen)
  outgoing := h'.outgoing.trans h.outgoing
  closing := h'.closing.trans h.closing
  requests := by
    rcases h.requests with ⟨hp, hg⟩ | ⟨hidle, hc, hp, hg⟩
    · rcases h'.requests with ⟨hp', hg'⟩ | ⟨hidle', hc', hp', hg'⟩
      · exact .inl ⟨hp'.trans hp, hg'.trans hg⟩
      · exact .inr ⟨hp ▸ hidle', h.closing ▸ hc', hp', by rw [hg', hg]⟩
    · rcases h'.requests with ⟨hp', hg'⟩ | ⟨hidle', _⟩
      · exact .inr ⟨hidle, hc, hp'.trans hp, hg'.trans hg⟩
      · simp [hp] at hidle'
  framed hf := h'.framed (h.framed hf)

def Quiet (calls : List Call) : Prop :=
  received calls = [] ∧ accepted calls = [] ∧ handed calls = [] ∧ handedIds calls = []

theorem Advance.of_quiet {c c' : TcpConnection} (more : List Call) (hquiet : Quiet more)
    (hcalls : c'.calls = c.calls ++ more) (hopened : 0 ≤ c'.fd → 0 ≤ c.fd)
    (hin : c'.inputBuffer = c.inputBuffer) (hout : c'.outputBuffer = c.outputBuffer)
    (hclosing : c'.closeAfterResponse = c.closeAfterResponse)
    (hprocessing : c'.processingRequest = c.processingRequest)
    (hgeneration : c'.requestGeneration = c.requestGeneration) : Advance c c' := by
  obtain ⟨hr, ha, hh, hi⟩ := hquiet
  refine ⟨hopened, ?_, hclosing, .inl ⟨hprocessing, hgeneration⟩, fun h => ⟨?_, ?_, ?_, ?_⟩⟩
  · simp [TcpConnection.outgoing, hcalls, hout, ha]
  · simpa [hcalls, hh, hr, hin] using h.split
  · simpa [hcalls, hh] using h.frames
  · simpa [hcalls, hi, hgeneration] using h.ids
  · simpa [hcalls, hh, hgeneration] using h.count

theorem close_advance (c : TcpConnection) : Advance c c.close := by
  rw [close_eq]
  refine .of_quiet (if c.fd < 0 then [] else [.removeChannel c.fd, .closeFd c.fd])
    ?_ rfl ?_ rfl rfl rfl rfl rfl
  · split <;> exact ⟨rfl, rfl, rfl, rfl⟩
  · dsimp only
    split <;> intro <;> omega

theorem markActivity_advance (now : Nat) (c : TcpConnection) : Advance c (c.markActivity now) :=
  .of_quiet [] ⟨rfl, rfl, rfl, rfl⟩ (by simp [markActivity]) id rfl rfl rfl rfl rfl

theorem enableWriting_advance (c : TcpConnection) : Advance c c.enableWriting := by
  unfold enableWriting
  split
  · exact .refl c
  · exact .of_quiet _ ⟨rfl, rfl, rfl, rfl⟩ rfl id rfl rfl rfl rfl rfl

theorem disableWriting_advance (c : TcpConnection) : Advance c c.disableWriting := by
  unfold disableWriting
  split
  · exact .refl c
  · exact .of_quiet _ ⟨rfl, rfl, rfl, rfl⟩ rfl id rfl rfl rfl rfl rfl

theorem activeTimingCall_quiet (c : TcpConnection) (made : RequestTimingPtr → Call)
    (h : ∀ timing, Quiet [made timing]) :
    ∃ more, Quiet more ∧ c.activeTimingCall made = { c with calls := c.calls ++ more } := by
  refine ⟨_, ?_, activeTimingCall_eq c made⟩
  split
  · exact h _
  · exact ⟨rfl, rfl, rfl, rfl⟩

theorem responseSent_advance (c : TcpConnection) : Advance c c.responseSent := by
  refine (disableWriting_advance c).trans ?_
  rw [responseSent]
  generalize c.disableWriting = c
  obtain ⟨more, hquiet, heq⟩ := activeTimingCall_quiet c .complete
    fun _ => ⟨rfl, rfl, rfl, rfl⟩
  rw [heq]
  exact .of_quiet _ hquiet rfl id rfl rfl rfl rfl rfl

theorem processRequest_calls (c : TcpConnection) :
    ∃ more timing, Quiet more ∧ c.processRequest.calls = c.calls ++ more ++
      [.requestHandler (c.requestGeneration + 1) timing
        (c.inputBuffer.peek.take (requestEnd c.inputBuffer.peek))] := by
  refine ⟨if c.latencyMetrics.isSome then [.beginRequest, .markQueued
    (if c.latencyMetrics = some true then some (c.requestGeneration + 1) else none)] else [],
    if c.latencyMetrics = some true then some (c.requestGeneration + 1) else none, ?_, ?_⟩
  · split <;> exact ⟨rfl, rfl, rfl, rfl⟩
  · simp only [processRequest, metricsCall_eq, TcpConnection.call]
    split <;> simp

theorem processRequest_framed {c : TcpConnection} (hcomplete : c.hasCompleteRequest = true)
    (h : c.Framed) : c.processRequest.Framed := by
  obtain ⟨position, hfind⟩ := Option.isSome_iff_exists.mp hcomplete
  have hend : requestEnd c.inputBuffer.peek = position + headerEnd.length := by
    simp only [requestEnd, hfind]
    rfl
  obtain ⟨more, timing, ⟨hr, -, hh, hi⟩, hcalls⟩ := processRequest_calls c
  have hin : c.processRequest.inputBuffer.peek =
      c.inputBuffer.peek.drop (position + headerEnd.length) := by
    simp [processRequest, metricsCall_eq, TcpConnection.call, hend]
  have hgeneration : c.processRequest.requestGeneration = c.requestGeneration + 1 :=
    (processRequest_fields c).2.2.2.2.2.2.2.1
  have hhanded : handed c.processRequest.calls =
      handed c.calls ++ [c.inputBuffer.peek.take (position + headerEnd.length)] := by
    simp [hcalls, hh, hend]
  refine ⟨?_, ?_, ?_, ?_⟩
  · have hreceived : received c.processRequest.calls = received c.calls := by
      simp [hcalls, hr]
    rw [hhanded, hin, hreceived, List.flatten_append, List.append_assoc]
    simpa using h.split
  · intro f hf
    rcases List.mem_append.mp (hhanded ▸ hf) with hf | hf
    · exact h.frames f hf
    · rw [List.mem_singleton.mp hf]
      exact isFrame_take hfind
  · rw [hgeneration, List.range'_1_concat, ← h.ids]
    simp [hcalls, hi, Nat.add_comm]
  · rw [hhanded, hgeneration, ← h.count]
    simp

theorem processRequest_advance {c : TcpConnection} (hcomplete : c.hasCompleteRequest = true)
    (hidle : c.processingRequest = false) (hclosing : c.closeAfterResponse = false) :
    Advance c c.processRequest := by
  obtain ⟨hfd, -, hout, -, hcls, -, hproc, hgen, -⟩ := processRequest_fields c
  obtain ⟨more, timing, ⟨-, ha, -, -⟩, hcalls⟩ := processRequest_calls c
  refine ⟨fun h => hfd ▸ h, ?_, hcls, .inr ⟨hidle, hclosing, hproc, hgen⟩,
    processRequest_framed hcomplete⟩
  simp [outgoing, hout, hcalls, ha]

/-- While open, a response that asks to close is still being sent. -/
def ClosingWaits (c : TcpConnection) : Prop :=
  c.closeAfterResponse = true → c.responseReady = true

theorem afterRead_advance (now : Nat) (d : Bool) {c : TcpConnection} (h : c.ClosingWaits) :
    Advance c (afterRead now d c) := by
  refine afterRead_rule (P := fun c' => Advance c c' ∧ c'.ClosingWaits) (Q := Advance c)
    ?_ ?_ ?_ ?_ d c ⟨.refl c, h⟩
  · exact fun c' ⟨hadv, hwait⟩ => ⟨hadv.trans (markActivity_advance now c'), hwait⟩
  · intro c' ⟨hadv, hwait⟩ hready hidle hcomplete
    refine hadv.trans (processRequest_advance hcomplete hidle ?_)
    by_contra hclosing
    simp [ClosingWaits, hready, hclosing] at hwait
  · exact fun c' h _ _ _ => h.1.trans (close_advance c')
  · exact fun _ h _ => h.1

theorem recv_advance (now : Nat) (data : Bytes) (c : TcpConnection) :
    Advance c { c.call (.recv now c.fd (.bytes data)) with
      inputBuffer := c.inputBuffer.append data } := by
  refine ⟨id, ?_, rfl, .inl ⟨rfl, rfl⟩, fun h => ⟨?_, ?_, ?_, ?_⟩⟩
  · simp [outgoing, TcpConnection.call]
  · simp [TcpConnection.call, ← h.split]
  · simpa [TcpConnection.call] using h.frames
  · simpa [TcpConnection.call] using h.ids
  · simpa [TcpConnection.call] using h.count

theorem readLoop_advance (now : Nat) (answers : List RecvResult) (d : Bool) {c : TcpConnection}
    (h : c.ClosingWaits) : Advance c (readLoop now d c answers) := by
  have quiet : ∀ (c' : TcpConnection) (result : RecvResult),
      (∀ data, result = .bytes data → data = []) →
      Advance c' (c'.call (.recv now c'.fd result)) := by
    intro c' result hresult
    refine .of_quiet _ ⟨?_, rfl, rfl, rfl⟩ rfl id rfl rfl rfl rfl rfl
    cases result with
    | bytes data => simp [hresult data rfl]
    | _ => rfl
  refine readLoop_rule (P := fun _ c' => Advance c c' ∧ c'.ClosingWaits)
    (Q := fun c' => Advance c c') ?_ ?_ ?_ ?_ ?_ answers d c ⟨.refl c, h⟩
  · exact fun _ c' b bytes ⟨hadv, hwait⟩ => ⟨hadv.trans (recv_advance now (b :: bytes) c'), hwait⟩
  · exact fun _ c' ⟨hadv, hwait⟩ => ⟨hadv.trans (quiet c' .eintr (by simp)), hwait⟩
  · intro d c' ⟨hadv, hwait⟩
    have heof : Advance c' { c'.call (.recv now c'.fd (.bytes [])) with peerClosed := true } :=
      (quiet c' (.bytes []) (by simp)).trans
        (.of_quiet [] ⟨rfl, rfl, rfl, rfl⟩ (by simp) id rfl rfl rfl rfl rfl)
    exact (hadv.trans heof).trans (afterRead_advance now d hwait)
  · exact fun d c' ⟨hadv, hwait⟩ =>
      (hadv.trans (quiet c' .again (by simp))).trans (afterRead_advance now d hwait)
  · exact fun _ c' ⟨hadv, _⟩ =>
      (hadv.trans (quiet c' .fail (by simp))).trans (close_advance _)

theorem afterWrite_advance (now : Nat) (d : Bool) (c : TcpConnection) :
    Advance c (afterWrite now d c) := by
  refine afterWrite_rule (P := Advance c) (Q := Advance c) ?_ ?_ ?_ ?_ d c (responseSent_advance c)
  · exact fun c' h _ => h.trans (close_advance c')
  · exact fun _ h hclose hidle hcomplete =>
      h.trans (processRequest_advance hcomplete hidle hclose)
  · exact fun c' h _ => h.trans (close_advance c')
  · exact fun c' h _ _ _ => ⟨h, h.trans (markActivity_advance now c')⟩

theorem tookOver_advance (now n : Nat) (c : TcpConnection) : Advance c (tookOver now n c) := by
  obtain ⟨more, ⟨hr, ha, hh, hi⟩, heq⟩ := activeTimingCall_quiet
    (c.call (.send now c.fd c.outputBuffer.peek (.bytes n))) .markWriteStarted
    fun _ => ⟨rfl, rfl, rfl, rfl⟩
  simp only [tookOver, heq]
  simp only [TcpConnection.call]
  refine ⟨id, ?_, rfl, .inl ⟨rfl, rfl⟩, fun h => ⟨?_, ?_, ?_, ?_⟩⟩
  · simp [outgoing, ha]
  · simpa [hr, hh] using h.split
  · simpa [hh] using h.frames
  · simpa [hi] using h.ids
  · simpa [hh] using h.count

theorem writeLoop_advance (now : Nat) (answers : List SendResult) (d : Bool)
    (c : TcpConnection) : Advance c (writeLoop now d c answers) := by
  have quiet : ∀ (c' : TcpConnection) (result : SendResult),
      (∀ n, result = .bytes n → n = 0) →
      Advance c' (c'.call (.send now c'.fd c'.outputBuffer.peek result)) := by
    intro c' result hresult
    refine .of_quiet _ ⟨rfl, ?_, rfl, rfl⟩ rfl id rfl rfl rfl rfl rfl
    cases result with
    | bytes n => simp [hresult n rfl]
    | _ => rfl
  refine writeLoop_rule (P := fun _ c' => Advance c c') (Q := fun c' => Advance c c')
    ?_ ?_ ?_ ?_ ?_ answers d c (.refl c)
  · exact fun _ c' n hadv _ => hadv.trans (tookOver_advance now (n + 1) c')
  · exact fun _ c' hadv _ => hadv.trans (quiet c' .eintr (by simp))
  · exact fun d c' hadv _ => hadv.trans (afterWrite_advance now d c')
  · intro d c' hadv _
    refine (hadv.trans (quiet c' .again (by simp))).trans ?_
    refine Advance.trans ?_ (enableWriting_advance _)
    split
    · exact markActivity_advance now _
    · exact .refl _
  · intro _ c' result hadv _ hresult
    refine (hadv.trans (quiet c' result ?_)).trans (close_advance _)
    rcases hresult with rfl | rfl <;> simp

theorem handleWrite_advance (now : Nat) (answers : List SendResult) (c : TcpConnection) :
    Advance c (c.handleWrite now answers) :=
  writeLoop_advance now _ false c

theorem handleEvent_advance (now : Nat) (revents : EventMask) (reads : List RecvResult)
    (writes : List SendResult) {c : TcpConnection} (h : c.ClosingWaits) :
    Advance c (c.handleEvent now revents reads writes) := by
  refine handleEvent_rule (P := Advance c) ?_ ?_ ?_ ?_ fun _ h => h
  · exact fun _ => close_advance c
  · exact .refl c
  · exact readLoop_advance now _ false h
  · exact fun c' h _ => h.trans (handleWrite_advance now writes c')

theorem closeIfIdle_advance (now expectedGeneration : Nat) (c : TcpConnection) :
    Advance c (c.closeIfIdle now expectedGeneration) := by
  have hcheck : ∀ expiresAt, Advance c (c.scheduleIdleCheck expiresAt) := fun _ =>
    .of_quiet _ ⟨rfl, rfl, rfl, rfl⟩ rfl id rfl rfl rfl rfl rfl
  unfold closeIfIdle
  split_ifs
  · exact .refl c
  · exact hcheck _
  · exact hcheck _
  · exact close_advance c

theorem establish_framed (now : Nat) (fd : Int) (idleTimeout : Nat)
    (latencyMetrics : Option Bool) :
    ((new fd idleTimeout latencyMetrics).establish now (.new fd)).Framed :=
  ⟨rfl, by simp [establish, new, markActivity, scheduleIdleCheck, TcpConnection.call], rfl, rfl⟩

end TcpConnection

namespace Session

open TcpConnection

def firstCompletion (delivered : List (Nat × ResponseResult)) (requestId : Nat) :
    Option ResponseResult :=
  (delivered.find? fun d => d.1 = requestId).map Prod.snd

theorem firstCompletion_concat_of_some {delivered : List (Nat × ResponseResult)} {id : Nat}
    {r : ResponseResult} (h : firstCompletion delivered id = some r) (d : Nat × ResponseResult) :
    firstCompletion (delivered ++ [d]) id = some r := by
  obtain ⟨e, he, rfl⟩ := Option.map_eq_some_iff.mp h
  simp [firstCompletion, List.find?_append, he]

theorem firstCompletion_concat_of_none {delivered : List (Nat × ResponseResult)} {id : Nat}
    (h : firstCompletion delivered id = none) (d : Nat × ResponseResult) :
    firstCompletion (delivered ++ [d]) id = if d.1 = id then some d.2 else none := by
  rw [firstCompletion, Option.map_eq_none_iff] at h
  by_cases hd : d.1 = id <;> simp [firstCompletion, List.find?_append, h, hd]

theorem firstCompletion_eq_none {delivered : List (Nat × ResponseResult)} {id : Nat}
    (h : ∀ d ∈ delivered, d.1 ≠ id) : firstCompletion delivered id = none := by
  rw [firstCompletion, Option.map_eq_none_iff, List.find?_eq_none]
  simpa using h

/-- The requests handed over and the `responses` accepted for them so far, the
last of which may still be on its way out. -/
structure Pipeline (c : TcpConnection) (delivered : List (Nat × ResponseResult))
    (responses : List ResponseResult) : Prop where
  framed : c.Framed
  balance : responses.length + (if c.processingRequest then 1 else 0) = c.requestGeneration
  first : ∀ i (h : i < responses.length),
    firstCompletion delivered (i + 1) = some responses[i]
  outgoing : c.outgoing = responses.flatMap ResponseResult.response
  lastFlag : c.closeAfterResponse = true ↔ ∃ r, responses.getLast? = some r ∧
    r.closeAfterResponse = true
  onlyLast : ∀ i (h : i + 1 < responses.length), responses[i].closeAfterResponse = false
  halted : c.closeAfterResponse = true → c.processingRequest = false
  known : ∀ d ∈ delivered, d.1 ≤ c.requestGeneration
  awaited : 0 ≤ c.fd → c.processingRequest = true →
    firstCompletion delivered c.requestGeneration = none

variable {c c' : TcpConnection} {delivered : List (Nat × ResponseResult)}
  {responses : List ResponseResult}

theorem Pipeline.advance (h : Pipeline c delivered responses) (hadv : Advance c c') :
    Pipeline c' delivered responses := by
  have hclosing := hadv.closing
  refine ⟨hadv.framed h.framed, ?_, h.first, hadv.outgoing.trans h.outgoing,
    hclosing ▸ h.lastFlag, h.onlyLast, ?_, ?_, ?_⟩ <;>
    rcases hadv.requests with ⟨hp, hg⟩ | ⟨hidle, hc, hp, hg⟩
  · rw [hp, hg]; exact h.balance
  · have := h.balance
    simp only [hidle, Bool.false_eq_true, if_false] at this
    simp [hp, hg, ← this]
  · rw [hclosing, hp]; exact h.halted
  · simp [hclosing, hc]
  · rw [hg]; exact h.known
  · exact fun d hd => (h.known d hd).trans (by omega)
  · exact fun hopen hproc => hg ▸ h.awaited (hadv.opened hopen) (hp ▸ hproc)
  -- a request just handed over has a fresh number
  · intro _ _
    refine firstCompletion_eq_none fun d hd => ?_
    have := h.known d hd
    omega

theorem Pipeline.dropped (h : Pipeline c delivered responses) (id : Nat) (result : ResponseResult)
    (hid : id ≤ c.requestGeneration)
    (hdrop : 0 ≤ c.fd → c.processingRequest = true → id ≠ c.requestGeneration) :
    Pipeline c (delivered ++ [(id, result)]) responses := by
  refine { h with first := ?_, known := ?_, awaited := ?_ }
  · exact fun i hi => firstCompletion_concat_of_some (h.first i hi) _
  · intro d hd
    rcases List.mem_append.mp hd with hd | hd
    · exact h.known d hd
    · rw [List.mem_singleton.mp hd]; exact hid
  · intro hopen hproc
    rw [firstCompletion_concat_of_none (h.awaited hopen hproc), if_neg (hdrop hopen hproc)]

theorem Pipeline.none_closes (h : Pipeline c delivered responses)
    (hflag : c.closeAfterResponse = false) {i : Nat} (hi : i < responses.length) :
    responses[i].closeAfterResponse = false := by
  rcases Nat.lt_or_ge (i + 1) responses.length with hlt | hge
  · exact h.onlyLast i hlt
  · by_contra hclose
    have hlast : responses.getLast? = some responses[i] := by
      rw [List.getLast?_eq_getElem?, List.getElem?_eq_some_iff]
      exact ⟨by omega, by congr 1; omega⟩
    have hraised := h.lastFlag.mpr ⟨_, hlast, by simpa using hclose⟩
    simp [hflag] at hraised

theorem answered_eq (c : TcpConnection) (timing : RequestTimingPtr) (result : ResponseResult) :
    ∃ more, Quiet more ∧ c.answered timing result =
      { c with
        processingRequest := false
        activeRequestTiming := timing
        outputBuffer := c.outputBuffer.append result.response
        closeAfterResponse := result.closeAfterResponse
        responseReady := true
        calls := c.calls ++ more } := by
  obtain ⟨more, hquiet, hmetrics⟩ : ∃ more, Quiet more ∧
      c.metricsCall (.markReturnedToIo timing) = { c with calls := c.calls ++ more } := by
    refine ⟨_, ?_, metricsCall_eq c _⟩
    split <;> exact ⟨rfl, rfl, rfl, rfl⟩
  exact ⟨more, hquiet, by simp only [answered, hmetrics]⟩

theorem Pipeline.accept (h : Pipeline c delivered responses) (timing : RequestTimingPtr)
    (result : ResponseResult) (hopen : 0 ≤ c.fd) (hproc : c.processingRequest = true) :
    Pipeline (c.answered timing result) (delivered ++ [(c.requestGeneration, result)])
      (responses ++ [result]) := by
  have hbalance : responses.length + 1 = c.requestGeneration := by
    simpa [hproc] using h.balance
  have hopenFlag : c.closeAfterResponse = false := by
    by_contra hclose
    simp [h.halted (by simpa using hclose)] at hproc
  have hnone := h.awaited hopen hproc
  obtain ⟨more, ⟨hr, ha, hh, hi⟩, hanswered⟩ := answered_eq c timing result
  rw [hanswered]
  refine ⟨⟨?_, ?_, ?_, ?_⟩, ?_, ?_, ?_, ?_, ?_, ?_, ?_, ?_⟩
  · simpa [hh, hr] using h.framed.split
  · simpa [hh] using h.framed.frames
  · simpa [hi] using h.framed.ids
  · simpa [hh] using h.framed.count
  · simpa using hbalance
  · intro i hlt
    rcases Nat.lt_or_ge i responses.length with hlt' | hge
    · rw [firstCompletion_concat_of_some (h.first i hlt'), List.getElem_append_left hlt']
    · have hi : i = responses.length := by simp at hlt; omega
      subst hi
      rw [hbalance, firstCompletion_concat_of_none hnone]
      simp
  · have hout := h.outgoing
    simp only [TcpConnection.outgoing] at hout ⊢
    simp [ha, ← hout]
  · simp
  · intro i hlt
    have hlt : i < responses.length := by simpa using hlt
    rw [List.getElem_append_left hlt]
    exact h.none_closes hopenFlag hlt
  · simp
  · intro d hd
    rcases List.mem_append.mp hd with hd | hd
    · exact h.known d hd
    · rw [List.mem_singleton.mp hd]
  · simp

theorem pipeline_step {s t : Session} {a : Action} (hs : Reachable system s)
    (h : Pipeline s.connection s.delivered responses) (hstep : s.step a = some t) :
    ∃ responses, Pipeline t.connection t.delivered responses := by
  rcases step_cases hstep with ⟨_, -, rfl⟩ | ⟨revents, reads, writes, -, hopen, -, rfl⟩ |
    ⟨id, timing, result, writes, -, -, hid, rfl⟩ | ⟨check, -, -, -, rfl⟩
  · exact ⟨responses, h⟩
  · obtain ⟨_, -, hsettled⟩ := reachable_settled hs hopen
    exact ⟨responses, h.advance (handleEvent_advance _ _ _ _ hsettled.closing)⟩
  · rcases finishRequest_cases s.now id timing result writes s.connection with
      ⟨heq, hdrop⟩ | ⟨hopen, hproc, rfl, heq⟩
    · exact ⟨responses, by simpa [ran, heq] using h.dropped id result hid hdrop⟩
    · refine ⟨responses ++ [result], ?_⟩
      simp only [ran, heq]
      exact (h.accept timing result hopen hproc).advance (handleWrite_advance ..)
  · exact ⟨responses, h.advance (closeIfIdle_advance _ _ _)⟩

theorem reachable_pipeline {s : Session} (h : Reachable system s) :
    ∃ responses, Pipeline s.connection s.delivered responses := by
  induction h with
  | start hs =>
    obtain ⟨now, fd, idleTimeout, latencyMetrics, -, rfl⟩ := hs
    refine ⟨[], ⟨establish_framed now fd idleTimeout latencyMetrics, rfl, by simp, rfl, ?_,
      by simp, ?_, by simp [established], ?_⟩⟩ <;>
      simp [established, establish, new, markActivity, scheduleIdleCheck, TcpConnection.call]
  | next hs hstep ih =>
    obtain ⟨responses, hp⟩ := ih
    exact pipeline_step hs hp hstep

/-- The responses a connection has accepted: the first completion for each request
that is no longer in processing, in order. -/
def acceptedResponses (s : Session) : List ResponseResult :=
  let answered := s.connection.requestGeneration - if s.connection.processingRequest then 1 else 0
  (List.range answered).filterMap fun i => firstCompletion s.delivered (i + 1)

theorem Pipeline.acceptedResponses_eq {s : Session}
    (h : Pipeline s.connection s.delivered responses) : s.acceptedResponses = responses := by
  have hanswered : s.connection.requestGeneration -
      (if s.connection.processingRequest then 1 else 0) = responses.length := by
    have := h.balance
    omega
  rw [acceptedResponses, hanswered]
  have hfirst : ∀ n ≤ responses.length,
      (List.range n).filterMap (fun i => firstCompletion s.delivered (i + 1)) =
        responses.take n := by
    intro n hn
    induction n with
    | zero => rfl
    | succ n ih =>
      rw [List.range_succ, List.filterMap_append, ih (by omega),
        List.take_succ_eq_append_getElem hn]
      simp [h.first n hn]
  rw [hfirst _ le_rfl, List.take_length]

structure ServesInOrder (s : Session) : Prop where
  /-- The requests handed over are the first frames of the input, numbered in order. -/
  requests : handed s.connection.calls =
    (frames headerEnd (received s.connection.calls)).take (handed s.connection.calls).length
  ids : handedIds s.connection.calls = List.range' 1 (handed s.connection.calls).length
  buffered : (handed s.connection.calls).flatten ++ s.connection.inputBuffer.peek =
    received s.connection.calls
  responses : ∃ responses : List ResponseResult,
    /- at most one request has no response yet, the one in processing -/
    responses.length + (if s.connection.processingRequest then 1 else 0) =
      (handed s.connection.calls).length ∧
    (∀ i (h : i < responses.length),
      firstCompletion s.delivered (i + 1) = some responses[i]) ∧
    accepted s.connection.calls ++ s.connection.outputBuffer.peek =
      responses.flatMap ResponseResult.response ∧
    /- a response that asks to close is the last, no request follows it, and once it
    is sent the connection is closed -/
    ∀ i (h : i < responses.length), responses[i].closeAfterResponse = true →
      i + 1 = responses.length ∧ (handed s.connection.calls).length = responses.length ∧
      (s.connection.outputBuffer.peek = [] → s.connection.fd < 0)

theorem connection_servesInOrder {s : Session} (h : Reachable system s) : ServesInOrder s := by
  obtain ⟨responses, hp⟩ := reachable_pipeline h
  have hcount := hp.framed.count
  refine ⟨?_, by rw [hcount]; exact hp.framed.ids, hp.framed.split, responses, ?_, hp.first,
    hp.outgoing, ?_⟩
  · rw [← hp.framed.split, frames_flatten_append headerEnd_ne_nil _ hp.framed.frames,
      List.take_left]
  · rw [hcount]; exact hp.balance
  · intro i hi hclose
    have hlast : i + 1 = responses.length := by
      by_contra hne
      simp [hp.onlyLast i (by omega)] at hclose
    have hflag : s.connection.closeAfterResponse = true := by
      refine hp.lastFlag.mpr ⟨responses[i], ?_, hclose⟩
      rw [List.getLast?_eq_getElem?, List.getElem?_eq_some_iff]
      exact ⟨by omega, by congr 1; omega⟩
    have hbalance := hp.balance
    rw [hp.halted hflag, ← hcount] at hbalance
    refine ⟨hlast, by simpa using hbalance.symm, fun hempty => ?_⟩
    by_contra hopen
    obtain ⟨_, -, hsettled⟩ := reachable_settled h (by omega)
    exact hsettled.pending.mp (hsettled.closing hflag) hempty

theorem halfSentState_servesInOrder :
    handed halfSentState.connection.calls = [ascii "GET / HTTP/1.1\r\n\r\n"] ∧
      ServesInOrder halfSentState :=
  ⟨by decide, connection_servesInOrder halfSentState_reachable⟩

end Session

end CppSearchServer.Net
