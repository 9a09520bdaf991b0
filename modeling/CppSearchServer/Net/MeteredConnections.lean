import CppSearchServer.Library.Composition
import CppSearchServer.Net.ResponseTimings
import CppSearchServer.Observability.RequestLatency

/-! Connections that share one `RequestLatency`.
The handlers of a connection run on its loop's thread, request handlers and the
callbacks they were given on any thread. A handler's calls are performed one at a
time, between whatever other threads do. -/

namespace CppSearchServer.Net

open Library.Composition Library.TransitionSystem Observability

/-- What a request handler holds: the timing pointer it was given, and the callback
`complete`, which has captured the request's number and a pointer of its own. -/
structure HandedRequest where
  requestId : Nat
  timing : RequestTimingPtr
  captured : RequestTimingPtr
deriving DecidableEq, Repr

structure QueuedCompletion where
  requestId : Nat
  timing : RequestTimingPtr
  result : ResponseResult
deriving DecidableEq, Repr

/-- `performed` and `todo` are the calls of the connection's handlers so far, and
those the running handler has still to make. `timings` are the records its requests
were begun with, in order. -/
structure MeteredConnection where
  session : Session
  performed : List Call
  todo : List Call
  timings : List RequestTiming
  handed : List HandedRequest
  completions : List QueuedCompletion
deriving DecidableEq, Repr

namespace MeteredConnection

inductive Action where
  | handle (a : Session.Action)
  | perform (now : Int)
  | workerStarted (k : Nat) (now : Int)
  | workerFinished (k : Nat) (now : Int)
  | copy (k : Nat)
  | complete (k : Nat) (result : ResponseResult)
  | deliver (writes : List SendResult)
deriving DecidableEq, Repr

def record (m : MeteredConnection) (timing : RequestTimingPtr) : Option RequestTiming :=
  timing.bind fun number => m.timings[number - 1]?

def mark (m : MeteredConnection) (timing : RequestTimingPtr)
    (f : RequestTiming → RequestTiming) : MeteredConnection :=
  match timing with
  | none => m
  | some number => { m with timings := m.timings.modify (number - 1) f }

/-- One call of a handler, as far as the metrics and the request handler see it. -/
def performCall (now : Int) (metrics : RequestLatency) (m : MeteredConnection) :
    Call → RequestLatency × MeteredConnection
  | .beginRequest =>
    (metrics, { m with timings := m.timings ++ (metrics.beginRequest now).toList })
  | .markQueued timing => (metrics, m.mark timing (RequestLatency.markQueued now))
  | .markReturnedToIo timing => (metrics, m.mark timing (RequestLatency.markReturnedToIo now))
  | .markWriteStarted timing => (metrics, m.mark timing (RequestLatency.markWriteStarted now))
  | .complete timing => (metrics.complete now (m.record timing), m)
  | .requestHandler requestId timing _ =>
    (metrics, { m with handed := m.handed ++ [⟨requestId, timing, timing⟩] })
  | _ => (metrics, m)

def run (m : MeteredConnection) (a : Session.Action) : Option MeteredConnection :=
  if m.todo = [] then
    (m.session.step a).map fun t =>
      { m with session := t, todo := t.connection.calls.drop m.session.connection.calls.length }
  else none

/-- A request handler marks start and finish before it calls back. The call moves
the captured pointer into the loop's queue, so a second call of the same callback
finds it null; a copy made before still holds it. -/
def step (metrics : RequestLatency) (m : MeteredConnection) :
    Action → Option (RequestLatency × MeteredConnection)
  | .handle (.completion _ _ _ _) => none
  | .handle a => (m.run a).map (metrics, ·)
  | .perform now =>
    match m.todo with
    | [] => none
    | made :: rest =>
      some (performCall now metrics
        { m with performed := m.performed ++ [made], todo := rest } made)
  | .workerStarted k now => m.handed[k]?.map fun h =>
    (metrics, m.mark h.timing (RequestLatency.markWorkerStarted now))
  | .workerFinished k now => m.handed[k]?.map fun h =>
    (metrics, m.mark h.timing (RequestLatency.markWorkerFinished now))
  | .copy k => m.handed[k]?.map fun h => (metrics, { m with handed := m.handed ++ [h] })
  | .complete k result => m.handed[k]?.bind fun h =>
    if (m.record h.timing).all fun t => t.workerStarted && t.workerFinished then
      some (metrics,
        { m with
          handed := m.handed.set k { h with captured := none }
          completions := m.completions ++ [⟨h.requestId, h.captured, result⟩] })
    else none
  | .deliver writes =>
    match m.completions with
    | [] => none
    | q :: rest =>
      ({ m with completions := rest }.run (.completion q.requestId q.timing q.result writes)).map
        (metrics, ·)

def established (now : Nat) (fd : Int) (idleTimeout : Nat) (enabled : Bool) :
    MeteredConnection :=
  let session := Session.established now fd idleTimeout (some enabled)
  ⟨session, [], session.connection.calls, [], [], []⟩

def parts : Parts RequestLatency MeteredConnection (Nat × Int × Nat) Action where
  initial metrics := metrics = .new true
  join metrics := fun (now, fd, idleTimeout) =>
    if 0 ≤ fd then some (established now fd idleTimeout metrics.enabled) else none
  step := step

/-! What holds of one connection at any time. -/

def nonEmpty (r : ResponseResult) : Bool := !r.response.isEmpty

/-- The non-empty responses whose timing has been passed to `complete`. -/
def counted (m : MeteredConnection) : Nat :=
  (m.session.acceptedResponses.take (completes m.performed).length).countP nonEmpty

/-- The marks on a record that the I/O thread makes. -/
def ioMarks (t : RequestTiming) : Bool × Bool × Bool := (t.queued, t.returnedToIo, t.writeStarted)

def marks : ResponsePhase → Bool × Bool × Bool
  | .idle => (false, false, false)
  | .begun => (false, false, false)
  | .queued => (true, false, false)
  | .sending _ marked => (true, true, marked)

/-- The last record is that of the request under way, marked as far as the calls
have got. -/
def Recorded (timings : List RequestTiming) (p : Progress) : Prop :=
  if p.phase = .idle then timings.length = p.finished
  else timings.length = p.current ∧ ∃ t, timings[p.finished]? = some t ∧ ioMarks t = marks p.phase

def Worked (timings : List RequestTiming) (number : Nat) : Prop :=
  ∃ t, timings[number - 1]? = some t ∧ t.workerStarted = true ∧ t.workerFinished = true

/-- Of all the completions for a request, the first to be delivered will carry its
timing. -/
def FirstCarries (handed : List HandedRequest) (completions : List QueuedCompletion)
    (number : Nat) : Prop :=
  match completions.find? fun q => q.requestId = number with
  | some q => q.timing = some number
  | none => ∀ h ∈ handed, h.requestId = number → h.captured = some number

structure Sound (m : MeteredConnection) : Prop where
  reachable : Reachable Session.system m.session
  rested : m.session.connection.Rested m.session.acceptedResponses
  history : m.performed ++ m.todo = m.session.connection.calls
  progress : ∃ p, progressAfter m.session.acceptedResponses m.performed = some p ∧
    Recorded m.timings p
  accepted : ∀ number, 1 ≤ number → number ≤ m.session.acceptedResponses.length →
    Worked m.timings number
  handed : ∀ h ∈ m.handed, 1 ≤ h.requestId ∧
    h.requestId ≤ m.session.connection.requestGeneration ∧ h.requestId ≤ m.timings.length ∧
    h.timing = some h.requestId ∧ (h.captured = none ∨ h.captured = some h.requestId)
  queued : ∀ q ∈ m.completions, 1 ≤ q.requestId ∧
    q.requestId ≤ m.session.connection.requestGeneration ∧
    Worked m.timings q.requestId
  first : 0 ≤ m.session.connection.fd → m.session.connection.processingRequest = true →
    FirstCarries m.handed m.completions m.session.connection.requestGeneration

variable {m m' : MeteredConnection} {timings : List RequestTiming} {p p' : Progress} {number : Nat}

theorem Worked.modify (h : Worked timings number) {f : RequestTiming → RequestTiming}
    (hf : ∀ t, t.workerStarted = true → t.workerFinished = true →
      (f t).workerStarted = true ∧ (f t).workerFinished = true) (i : Nat) :
    Worked (timings.modify i f) number := by
  obtain ⟨t, ht, hstarted, hfinished⟩ := h
  rw [Worked, List.getElem?_modify, ht]
  by_cases hi : i = number - 1
  · exact ⟨f t, by simp [hi], hf t hstarted hfinished⟩
  · exact ⟨t, by simp [hi], hstarted, hfinished⟩

theorem Worked.append (h : Worked timings number) (more : List RequestTiming) :
    Worked (timings ++ more) number := by
  obtain ⟨t, ht, hmarks⟩ := h
  have hlt := (List.getElem?_eq_some_iff.mp ht).1
  exact ⟨t, by rw [List.getElem?_append_left hlt, ht], hmarks⟩

theorem recorded_of_idle (hphase : p.phase = .idle) (h : timings.length = p.finished) :
    Recorded timings p := by
  rwa [Recorded, if_pos hphase]

theorem Recorded.current (h : Recorded timings p) (hphase : p.phase ≠ .idle) :
    timings.length = p.current ∧ ∃ t, timings[p.finished]? = some t ∧
      ioMarks t = marks p.phase := by
  rwa [Recorded, if_neg hphase] at h

theorem Recorded.mark (h : Recorded timings p) (hphase : p.phase ≠ .idle) {phase : ResponsePhase}
    (hphase' : phase ≠ .idle) {f : RequestTiming → RequestTiming}
    (hf : ∀ t, ioMarks t = marks p.phase → ioMarks (f t) = marks phase) :
    Recorded (timings.modify (p.current - 1) f) { p with phase := phase } := by
  obtain ⟨hlength, t, ht, hmarks⟩ := h.current hphase
  rw [Recorded, if_neg hphase']
  refine ⟨by rw [List.length_modify, hlength]; rfl, f t, ?_, hf t hmarks⟩
  simp [Progress.current, ht]

theorem Recorded.modify (h : Recorded timings p) {f : RequestTiming → RequestTiming}
    (hf : ∀ t, ioMarks (f t) = ioMarks t) (i : Nat) : Recorded (timings.modify i f) p := by
  by_cases hphase : p.phase = .idle
  · rw [Recorded, if_pos hphase] at h
    exact recorded_of_idle hphase (by rw [List.length_modify, h])
  · obtain ⟨hlength, t, ht, hmarks⟩ := h.current hphase
    rw [Recorded, if_neg hphase, List.getElem?_modify, ht, List.length_modify]
    by_cases hi : i = p.finished
    · exact ⟨hlength, f t, by simp [hi], (hf t).trans hmarks⟩
    · exact ⟨hlength, t, by simp [hi], hmarks⟩

theorem firstCarries_of_fresh {handed : List HandedRequest} {completions : List QueuedCompletion}
    (hhanded : ∀ h ∈ handed, h.requestId ≠ number)
    (hqueued : ∀ q ∈ completions, q.requestId ≠ number) :
    FirstCarries handed completions number := by
  have hnone : completions.find? (fun q => q.requestId = number) = none := by
    simpa [List.find?_eq_none] using hqueued
  rw [FirstCarries, hnone]
  exact fun h hh hid => absurd hid (hhanded h hh)

theorem FirstCarries.hand {handed : List HandedRequest} {completions : List QueuedCompletion}
    (hfirst : FirstCarries handed completions number) {h : HandedRequest}
    (hh : h.captured = some h.requestId ∨ h ∈ handed) :
    FirstCarries (handed ++ [h]) completions number := by
  unfold FirstCarries at hfirst ⊢
  split at hfirst
  · exact hfirst
  · intro g hg hid
    rcases List.mem_append.mp hg with hg | hg
    · exact hfirst g hg hid
    · obtain rfl := List.mem_singleton.mp hg
      rcases hh with hh | hh
      · rw [hh, hid]
      · exact hfirst g hh hid

theorem FirstCarries.complete {handed : List HandedRequest} {completions : List QueuedCompletion}
    (hfirst : FirstCarries handed completions number) {k : Nat} {h : HandedRequest}
    (hk : handed[k]? = some h) (result : ResponseResult) :
    FirstCarries (handed.set k { h with captured := none })
      (completions ++ [⟨h.requestId, h.captured, result⟩]) number := by
  unfold FirstCarries at hfirst ⊢
  rw [List.find?_append]
  split at hfirst
  · rename_i q hq
    rw [hq]
    exact hfirst
  · rename_i hnone
    rw [hnone, Option.none_or, List.find?_singleton]
    by_cases hid : h.requestId = number
    · simpa [hid] using hfirst h (List.mem_of_getElem? hk) hid
    · simp only [hid, decide_false, Bool.false_eq_true, if_false]
      intro g hg hgid
      rcases List.mem_or_eq_of_mem_set hg with hg | rfl
      · exact hfirst g hg hgid
      · exact absurd hgid hid

theorem Sound.completes_le (h : Sound m) :
    (completes m.performed).length ≤ m.session.acceptedResponses.length := by
  obtain ⟨p, hp, -⟩ := h.progress
  have htraced := progressAfter_traced hp
  rw [htraced.completes_eq, List.length_map, List.length_range']
  exact htraced.finished_le

theorem Sound.run (h : Sound m) {a : Session.Action} {rest : List QueuedCompletion}
    (hrun : { m with completions := rest }.run a = some m') (hsub : ∀ q ∈ rest, q ∈ m.completions)
    (hcarries : ∀ timing result, m.session.Accepts a timing result →
      timing = some m.session.connection.requestGeneration ∧
        Worked m.timings m.session.connection.requestGeneration)
    (hfirst : (¬∃ timing result, m.session.Accepts a timing result) →
      0 ≤ m.session.connection.fd → m.session.connection.processingRequest = true →
      FirstCarries m.handed rest m.session.connection.requestGeneration) :
    Sound m' ∧ m'.counted = m.counted := by
  obtain ⟨htodo, hran⟩ := Option.ite_none_right_eq_some.mp hrun
  obtain ⟨t, hstep, rfl⟩ := Option.map_eq_some_iff.mp hran
  have htodo : m.todo = [] := htodo
  have hstep : m.session.step a = some t := hstep
  have hhistory : m.performed = m.session.connection.calls := by
    rw [← h.history, htodo, List.append_nil]
  obtain ⟨hgen, hproc⟩ := Session.step_processing h.reachable hstep
  obtain ⟨hrested, hresponses⟩ := Session.step_rested h.reachable h.rested hstep
    fun timing result hacc => (hcarries timing result hacc).1
  obtain ⟨more, hmore⟩ : ∃ more, t.acceptedResponses = m.session.acceptedResponses ++ more := by
    rcases hresponses with heq | ⟨_, result, -, -, heq⟩
    · exact ⟨[], by rw [heq, List.append_nil]⟩
    · exact ⟨[result], heq⟩
  obtain ⟨p, hp, hrecorded⟩ := h.progress
  constructor
  · refine ⟨.next h.reachable hstep, hrested, ?_, ⟨p, ?_, hrecorded⟩, ?_, ?_, ?_, ?_⟩
    · rw [hhistory]
      exact List.prefix_iff_eq_append.mp (Session.step_calls hstep)
    · rw [hmore]
      exact progressAfter_more hp more
    · intro number hpos hle
      rcases hresponses with heq | ⟨_, result, hacc, hnumber, heq⟩
      · exact h.accepted number hpos (heq ▸ hle)
      · rcases Nat.lt_or_ge m.session.acceptedResponses.length number with hlt | hge
        · have : number = m.session.connection.requestGeneration := by
            rw [heq, List.length_append, List.length_singleton] at hle
            omega
          exact this ▸ (hcarries _ result hacc).2
        · exact h.accepted number hpos hge
    · intro g hg
      obtain ⟨hpos, hle, hrest⟩ := h.handed g hg
      exact ⟨hpos, hle.trans hgen, hrest⟩
    · intro q hq
      obtain ⟨hpos, hle, hworked⟩ := h.queued q (hsub q hq)
      exact ⟨hpos, hle.trans hgen, hworked⟩
    · intro hopen hbusy
      change FirstCarries m.handed rest t.connection.requestGeneration
      rcases hproc hopen hbusy with hnext | ⟨hnot, hopen', hbusy', hsame⟩
      · rw [hnext]
        refine firstCarries_of_fresh (fun g hg => ?_) fun q hq => ?_
        · have := (h.handed g hg).2.1
          omega
        · have := (h.queued q (hsub q hq)).2.1
          omega
      · rw [hsame]
        exact hfirst hnot hopen' hbusy'
  · simp only [counted]
    rw [hmore, List.take_append_of_le_length h.completes_le]

theorem Sound.performed (h : Sound m) {made : Call} {rest : List Call}
    (htodo : m.todo = made :: rest) :
    ∃ p p', progressAfter m.session.acceptedResponses m.performed = some p ∧
      Recorded m.timings p ∧ p.next m.session.acceptedResponses made = some p' ∧
      ∀ timings handed, Recorded timings p' → m.timings.length ≤ timings.length →
        (∀ number, Worked m.timings number → Worked timings number) →
        (handed = m.handed ∨ ∃ g, handed = m.handed ++ [g] ∧ 1 ≤ g.requestId ∧
          g.requestId ≤ m.session.connection.requestGeneration ∧ g.requestId ≤ timings.length ∧
          g.timing = some g.requestId ∧ g.captured = some g.requestId) →
        Sound { m with
          performed := m.performed ++ [made], todo := rest, timings := timings,
          handed := handed } := by
  obtain ⟨p, hp, hrecorded⟩ := h.progress
  obtain ⟨_, hend, -⟩ := h.rested.progress
  rw [← h.history, htodo] at hend
  obtain ⟨q, p', hq, hnext⟩ := progressAfter_cons hend
  obtain rfl : p = q := Option.some.inj (hp.symm.trans hq)
  have hp' := (progressAfter_concat hp made).trans hnext
  refine ⟨p, p', hp, hrecorded, hnext, ?_⟩
  intro timings handed hrecorded' hlength hworked hhanded
  refine ⟨h.reachable, h.rested, ?_, ⟨p', hp', hrecorded'⟩, ?_, ?_, ?_, ?_⟩
  · rw [← h.history, htodo, List.append_assoc, List.singleton_append]
  · exact fun number hpos hle => hworked number (h.accepted number hpos hle)
  · have hold : ∀ g ∈ m.handed, 1 ≤ g.requestId ∧
        g.requestId ≤ m.session.connection.requestGeneration ∧ g.requestId ≤ timings.length ∧
        g.timing = some g.requestId ∧ (g.captured = none ∨ g.captured = some g.requestId) := by
      intro g hg
      obtain ⟨hpos, hgen, hle, hrest⟩ := h.handed g hg
      exact ⟨hpos, hgen, hle.trans hlength, hrest⟩
    rcases hhanded with rfl | ⟨g, rfl, hpos, hgen, hle, htiming, hcaptured⟩
    · exact hold
    · intro g' hg'
      rcases List.mem_append.mp hg' with hg' | hg'
      · exact hold g' hg'
      · obtain rfl := List.mem_singleton.mp hg'
        exact ⟨hpos, hgen, hle, htiming, .inr hcaptured⟩
  · intro q hq
    obtain ⟨hpos, hgen, hw⟩ := h.queued q hq
    exact ⟨hpos, hgen, hworked _ hw⟩
  · intro hopen hbusy
    have hfirst := h.first hopen hbusy
    rcases hhanded with rfl | ⟨g, rfl, -, -, -, -, hcaptured⟩
    · exact hfirst
    · exact hfirst.hand (.inl hcaptured)

theorem isComplete_of_sending {t : RequestTiming} {sent : Nat} {marked : Bool}
    (hmarks : ioMarks t = marks (.sending sent marked)) (hstarted : t.workerStarted = true)
    (hfinished : t.workerFinished = true) : t.isComplete = marked := by
  obtain ⟨hqueued, hreturned, hwrite⟩ : t.queued = true ∧ t.returnedToIo = true ∧
      t.writeStarted = marked := by
    simpa [ioMarks, marks] using hmarks
  simp [RequestTiming.isComplete, hqueued, hstarted, hfinished, hreturned, hwrite]

theorem ioMarks_markQueued {t : RequestTiming} (h : ioMarks t = marks .begun) (now : Int) :
    ioMarks (RequestLatency.markQueued now t) = marks .queued := by
  simp only [ioMarks, marks, Prod.mk.injEq] at h
  simp [ioMarks, marks, RequestLatency.markQueued, h]

theorem ioMarks_markReturnedToIo {t : RequestTiming} (h : ioMarks t = marks .queued) (now : Int) :
    ioMarks (RequestLatency.markReturnedToIo now t) = marks (.sending 0 false) := by
  simp only [ioMarks, marks, Prod.mk.injEq] at h
  simp [ioMarks, marks, RequestLatency.markReturnedToIo, h]

theorem ioMarks_markWriteStarted {t : RequestTiming} {sent : Nat} {marked : Bool}
    (h : ioMarks t = marks (.sending sent marked)) (now : Int) :
    ioMarks (RequestLatency.markWriteStarted now t) = marks (.sending sent true) := by
  simp only [ioMarks, marks, Prod.mk.injEq] at h
  unfold RequestLatency.markWriteStarted
  split <;> simp_all [ioMarks, marks]

theorem markWriteStarted_worker (now : Int) (t : RequestTiming) :
    (RequestLatency.markWriteStarted now t).workerStarted = t.workerStarted ∧
      (RequestLatency.markWriteStarted now t).workerFinished = t.workerFinished := by
  unfold RequestLatency.markWriteStarted
  split <;> exact ⟨rfl, rfl⟩

theorem Recorded.sending (h : Recorded timings p) {sent : Nat} {marked : Bool}
    (hphase : p.phase = .sending sent marked) (sent' : Nat) :
    Recorded timings { p with phase := .sending sent' marked } := by
  obtain ⟨hlength, t, ht, hmarks⟩ := h.current (by simp [hphase])
  rw [Recorded, if_neg (by simp)]
  exact ⟨hlength, t, ht, by rw [hmarks, hphase]; rfl⟩

theorem recorded_begun (hphase : p.phase = .idle) (h : Recorded timings p) {t : RequestTiming}
    (ht : ioMarks t = marks .begun) : Recorded (timings ++ [t]) { p with phase := .begun } := by
  rw [Recorded, if_pos hphase] at h
  rw [Recorded, if_neg (by simp)]
  refine ⟨by rw [List.length_append, h]; rfl, t, ?_, ht⟩
  simp [← h]

theorem counted_of_quiet {made : Call} (hquiet : completes [made] = []) (todo : List Call)
    (timings : List RequestTiming) (handed : List HandedRequest) :
    counted { m with
      performed := m.performed ++ [made], todo := todo, timings := timings, handed := handed } =
      m.counted := by
  simp only [counted, completes_append, hquiet, List.append_nil]

theorem Sound.complete (h : Sound m) {timing : RequestTimingPtr} {rest : List Call} {now : Int}
    {metrics : RequestLatency} (htodo : m.todo = .complete timing :: rest) :
    Sound { m with performed := m.performed ++ [.complete timing], todo := rest } ∧
      (metrics.complete now (m.record timing)).completedRequests + m.counted =
        metrics.completedRequests +
          counted { m with performed := m.performed ++ [.complete timing], todo := rest } := by
  obtain ⟨p, p', hp, hrecorded, hnext, hkeep⟩ := h.performed htodo
  have htraced := progressAfter_traced hp
  simp only [Progress.next] at hnext
  split at hnext
  · rename_i sent marked r hphase hr
    obtain ⟨⟨rfl, hsent, rfl⟩, hp'⟩ := Option.ite_none_right_eq_some.mp hnext
    cases hp'
    obtain ⟨hlength, t, ht, hmarks⟩ := hrecorded.current (by simp [hphase])
    obtain ⟨hlt, hget⟩ := List.getElem?_eq_some_iff.mp hr
    obtain ⟨t', ht', hstarted, hfinished⟩ := h.accepted p.current (Nat.succ_pos _) hlt
    obtain rfl : t = t' := Option.some.inj (ht.symm.trans ht')
    have hrecord : m.record (some p.current) = some t := ht'
    have hcomplete : t.isComplete = nonEmpty r :=
      isComplete_of_sending (hphase ▸ hmarks) hstarted hfinished
    have hfinish : (completes m.performed).length = p.finished := by
      rw [htraced.completes_eq, List.length_map, List.length_range']
    constructor
    · exact hkeep _ _ (recorded_of_idle rfl hlength) le_rfl (fun _ hw => hw) (.inl rfl)
    · rw [hrecord, RequestLatency.complete_completedRequests, hcomplete]
      simp only [counted, completes_append, List.length_append, hfinish]
      rw [show (completes [Call.complete (some p.current)]).length = 1 from rfl,
        List.take_succ_eq_append_getElem hlt, List.countP_append, hget, List.countP_singleton]
      omega
  · cases hnext

theorem Sound.handedId_le (h : Sound m) {requestId : Nat} (hmem : requestId ∈ handedIds m.todo) :
    requestId ≤ m.session.connection.requestGeneration := by
  obtain ⟨_, hp⟩ := Session.reachable_pipeline h.reachable
  have hids : requestId ∈ handedIds m.session.connection.calls := by
    rw [← h.history, handedIds_append]
    exact List.mem_append_right _ hmem
  rw [hp.framed.ids, List.mem_range'_1] at hids
  omega

theorem Sound.perform (h : Sound m) {made : Call} {rest : List Call} {now : Int}
    {metrics : RequestLatency} (henabled : metrics.enabled = true) (htodo : m.todo = made :: rest)
    {next : RequestLatency × MeteredConnection}
    (hnext : performCall now metrics
      { m with performed := m.performed ++ [made], todo := rest } made = next) :
    next.1.enabled = true ∧ Sound next.2 ∧
      next.1.completedRequests + m.counted = metrics.completedRequests + next.2.counted := by
  subst hnext
  obtain ⟨p, p', hp, hrecorded, hnext, hkeep⟩ := h.performed htodo
  have hmark : ∀ f, (∀ t : RequestTiming, t.workerStarted = true → t.workerFinished = true →
      (f t).workerStarted = true ∧ (f t).workerFinished = true) →
      Recorded (m.timings.modify (p.current - 1) f) p' → Sound { m with
        performed := m.performed ++ [made], todo := rest,
        timings := m.timings.modify (p.current - 1) f } := by
    intro f hf hrecorded'
    exact hkeep _ _ hrecorded' (by simp) (fun number hw => hw.modify hf _) (.inl rfl)
  have hcount := @counted_of_quiet m made
  cases made with
  | beginRequest =>
    obtain ⟨hphase, hp'⟩ := Option.ite_none_right_eq_some.mp hnext
    cases hp'
    rw [performCall, RequestLatency.beginRequest, if_pos henabled]
    refine ⟨henabled, ?_, congrArg _ (hcount rfl _ _ _).symm⟩
    exact hkeep _ _ (recorded_begun hphase hrecorded rfl) (by simp)
      (fun number hw => hw.append _) (.inl rfl)
  | markQueued timing =>
    obtain ⟨⟨hphase, rfl⟩, hp'⟩ := Option.ite_none_right_eq_some.mp hnext
    cases hp'
    refine ⟨henabled, hmark _ (fun t hs hf => ⟨hs, hf⟩) ?_, congrArg _ (hcount rfl _ _ _).symm⟩
    exact hrecorded.mark (by simp [hphase]) (by simp) fun t ht =>
      ioMarks_markQueued (hphase ▸ ht) now
  | markReturnedToIo timing =>
    obtain ⟨⟨hphase, rfl, -⟩, hp'⟩ := Option.ite_none_right_eq_some.mp hnext
    cases hp'
    refine ⟨henabled, hmark _ (fun t hs hf => ⟨hs, hf⟩) ?_, congrArg _ (hcount rfl _ _ _).symm⟩
    exact hrecorded.mark (by simp [hphase]) (by simp) fun t ht =>
      ioMarks_markReturnedToIo (hphase ▸ ht) now
  | markWriteStarted timing =>
    simp only [Progress.next] at hnext
    split at hnext
    · rename_i hphase
      obtain ⟨⟨rfl, -⟩, hp'⟩ := Option.ite_none_right_eq_some.mp hnext
      cases hp'
      refine ⟨henabled, hmark _ (fun t hs hf => ?_) ?_, congrArg _ (hcount rfl _ _ _).symm⟩
      · rw [(markWriteStarted_worker now t).1, (markWriteStarted_worker now t).2]
        exact ⟨hs, hf⟩
      · exact hrecorded.mark (by simp [hphase]) (by simp) fun t ht =>
          ioMarks_markWriteStarted (hphase ▸ ht) now
    · cases hnext
  | complete timing =>
    obtain ⟨hsound, hcounts⟩ := h.complete htodo
    exact ⟨by rw [performCall, RequestLatency.complete_enabled, henabled], hsound, hcounts⟩
  | requestHandler requestId timing request =>
    obtain ⟨⟨hphase, rfl, rfl⟩, hp'⟩ := Option.ite_none_right_eq_some.mp hnext
    cases hp'
    refine ⟨henabled, ?_, congrArg _ (hcount rfl _ _ _).symm⟩
    refine hkeep _ _ hrecorded le_rfl (fun _ hw => hw)
      (.inr ⟨_, rfl, Nat.succ_pos _, ?_, ?_, rfl, rfl⟩)
    · exact h.handedId_le (by rw [htodo]; simp)
    · exact (hrecorded.current (by simp [hphase])).1.ge
  | send time fd output result =>
    refine ⟨henabled, hkeep _ _ ?_ le_rfl (fun _ hw => hw) (.inl rfl),
      congrArg _ (hcount rfl _ _ _).symm⟩
    cases result with
    | bytes n =>
      simp only [Progress.next] at hnext
      split at hnext
      · rename_i hphase _
        obtain ⟨-, hp'⟩ := Option.ite_none_right_eq_some.mp hnext
        cases hp'
        exact hrecorded.sending hphase _
      · cases hnext
    | _ =>
      cases hnext
      exact hrecorded
  | _ =>
    cases hnext
    exact ⟨henabled, hkeep _ _ hrecorded le_rfl (fun _ hw => hw) (.inl rfl),
      congrArg _ (hcount rfl _ _ _).symm⟩

theorem Sound.work (h : Sound m) (timing : RequestTimingPtr) {f : RequestTiming → RequestTiming}
    (hio : ∀ t, ioMarks (f t) = ioMarks t)
    (hworker : ∀ t, t.workerStarted = true → t.workerFinished = true →
      (f t).workerStarted = true ∧ (f t).workerFinished = true) :
    Sound (m.mark timing f) ∧ (m.mark timing f).counted = m.counted := by
  cases timing with
  | none => exact ⟨h, rfl⟩
  | some number =>
    obtain ⟨p, hp, hrecorded⟩ := h.progress
    refine ⟨⟨h.reachable, h.rested, h.history, ⟨p, hp, hrecorded.modify hio _⟩, ?_, ?_, ?_,
      h.first⟩, rfl⟩
    · exact fun n hpos hle => (h.accepted n hpos hle).modify hworker _
    · intro g hg
      simpa [MeteredConnection.mark] using h.handed g hg
    · intro q hq
      obtain ⟨hpos, hle, hw⟩ := h.queued q hq
      exact ⟨hpos, hle, hw.modify hworker _⟩

theorem Sound.copy (h : Sound m) {g : HandedRequest} (hg : g ∈ m.handed) :
    Sound { m with handed := m.handed ++ [g] } := by
  refine ⟨h.reachable, h.rested, h.history, h.progress, h.accepted, ?_, h.queued, ?_⟩
  · intro g' hg'
    rcases List.mem_append.mp hg' with hg' | hg'
    · exact h.handed g' hg'
    · exact List.mem_singleton.mp hg' ▸ h.handed g hg
  · exact fun hopen hbusy => (h.first hopen hbusy).hand (.inr hg)

theorem Sound.callBack (h : Sound m) {k : Nat} {g : HandedRequest} (hk : m.handed[k]? = some g)
    (hmarked : (m.record g.timing).all (fun t => t.workerStarted && t.workerFinished) = true)
    (result : ResponseResult) :
    Sound { m with
      handed := m.handed.set k { g with captured := none }
      completions := m.completions ++ [⟨g.requestId, g.captured, result⟩] } := by
  obtain ⟨hpos, hgen, hlength, htiming, -⟩ := h.handed g (List.mem_of_getElem? hk)
  have hworked : Worked m.timings g.requestId := by
    have hlt : g.requestId - 1 < m.timings.length := by omega
    refine ⟨m.timings[g.requestId - 1], List.getElem?_eq_getElem hlt, ?_⟩
    simpa [record, htiming, List.getElem?_eq_getElem hlt] using hmarked
  refine ⟨h.reachable, h.rested, h.history, h.progress, h.accepted, ?_, ?_, ?_⟩
  · intro g' hg'
    rcases List.mem_or_eq_of_mem_set hg' with hg' | rfl
    · exact h.handed g' hg'
    · exact ⟨hpos, hgen, hlength, htiming, .inl rfl⟩
  · intro q hq
    rcases List.mem_append.mp hq with hq | hq
    · exact h.queued q hq
    · obtain rfl := List.mem_singleton.mp hq
      exact ⟨hpos, hgen, hworked⟩
  · exact fun hopen hbusy => (h.first hopen hbusy).complete hk result

theorem Sound.deliver (h : Sound m) {q : QueuedCompletion} {rest : List QueuedCompletion}
    (hcompletions : m.completions = q :: rest) {writes : List SendResult}
    (hrun : { m with completions := rest }.run
      (.completion q.requestId q.timing q.result writes) = some m') :
    Sound m' ∧ m'.counted = m.counted := by
  refine h.run hrun (fun q' hq' => by rw [hcompletions]; exact .tail _ hq') ?_ ?_
  · rintro timing result ⟨_, ha, hopen, hbusy⟩
    obtain ⟨hid, rfl, -⟩ := Session.Action.completion.inj ha
    have hfirst := h.first hopen hbusy
    rw [FirstCarries, hcompletions, List.find?_cons_of_pos (by simp [hid])] at hfirst
    have hworked := (h.queued q (by simp [hcompletions])).2.2
    rw [hid] at hworked
    exact ⟨hfirst, hworked⟩
  · intro hnone hopen hbusy
    have hother : q.requestId ≠ m.session.connection.requestGeneration := fun hid =>
      hnone ⟨q.timing, q.result, writes, by rw [hid], hopen, hbusy⟩
    have hfirst := h.first hopen hbusy
    rwa [FirstCarries, hcompletions, List.find?_cons_of_neg (by simp [hother])] at hfirst

theorem handle_cases {a : Session.Action} {metrics metrics' : RequestLatency}
    (hstep : m.step metrics (.handle a) = some (metrics', m')) :
    m.run a = some m' ∧ metrics' = metrics ∧
      ∀ timing result, ¬m.session.Accepts a timing result := by
  cases a with
  | completion => cases hstep
  | _ =>
    obtain ⟨_, hrun, hg⟩ := Option.map_eq_some_iff.mp hstep
    cases hg
    exact ⟨hrun, rfl, by simp [Session.Accepts]⟩

/-- A step on any thread keeps the connection sound, and changes the shared counter
by what it adds to the connection's account. -/
theorem Sound.step (h : Sound m) {a : Action} {metrics metrics' : RequestLatency}
    (henabled : metrics.enabled = true) (hstep : m.step metrics a = some (metrics', m')) :
    metrics'.enabled = true ∧ Sound m' ∧
      metrics'.completedRequests + m.counted = metrics.completedRequests + m'.counted := by
  cases a with
  | handle a =>
    obtain ⟨hrun, hmetrics, hnone⟩ := handle_cases hstep
    obtain ⟨hsound, hcount⟩ := h.run hrun (fun _ hq => hq)
      (fun timing result hacc => absurd hacc (hnone timing result)) fun _ => h.first
    exact ⟨hmetrics ▸ henabled, hsound, by rw [hcount, hmetrics]⟩
  | perform now =>
    simp only [MeteredConnection.step] at hstep
    split at hstep
    · cases hstep
    · rename_i made rest htodo
      exact h.perform henabled htodo (Option.some.inj hstep)
  | workerStarted k now =>
    obtain ⟨g, -, hg⟩ := Option.map_eq_some_iff.mp hstep
    cases hg
    obtain ⟨hsound, hcount⟩ := h.work g.timing (f := RequestLatency.markWorkerStarted now)
      (fun _ => rfl) fun _ _ hf => ⟨rfl, hf⟩
    exact ⟨henabled, hsound, by rw [hcount]⟩
  | workerFinished k now =>
    obtain ⟨g, -, hg⟩ := Option.map_eq_some_iff.mp hstep
    cases hg
    obtain ⟨hsound, hcount⟩ := h.work g.timing (f := RequestLatency.markWorkerFinished now)
      (fun _ => rfl) fun _ hs _ => ⟨hs, rfl⟩
    exact ⟨henabled, hsound, by rw [hcount]⟩
  | copy k =>
    obtain ⟨g, hk, hg⟩ := Option.map_eq_some_iff.mp hstep
    cases hg
    exact ⟨henabled, h.copy (List.mem_of_getElem? hk), rfl⟩
  | complete k result =>
    obtain ⟨g, hk, hg⟩ := Option.bind_eq_some_iff.mp hstep
    obtain ⟨hmarked, hg⟩ := Option.ite_none_right_eq_some.mp hg
    cases hg
    exact ⟨henabled, h.callBack hk hmarked result, rfl⟩
  | deliver writes =>
    simp only [MeteredConnection.step] at hstep
    split at hstep
    · cases hstep
    · rename_i q rest hcompletions
      obtain ⟨_, hrun, hg⟩ := Option.map_eq_some_iff.mp hstep
      cases hg
      obtain ⟨hsound, hcount⟩ := h.deliver hcompletions hrun
      exact ⟨henabled, hsound, by rw [hcount]⟩

/-! The responses whose last byte is with the kernel. -/

/-- How many non-empty responses end within the first `sent` bytes of the stream that
the responses make up. -/
def fullySent : List ResponseResult → Nat → Nat
  | [], _ => 0
  | r :: rest, sent =>
    if r.response.length ≤ sent then
      (if nonEmpty r then 1 else 0) + fullySent rest (sent - r.response.length)
    else 0

theorem fullySent_zero (responses : List ResponseResult) : fullySent responses 0 = 0 := by
  induction responses with
  | nil => rfl
  | cons r rest ih =>
    rw [fullySent]
    split
    · rename_i hle
      have hnil : r.response = [] := List.length_eq_zero_iff.mp (Nat.le_zero.mp hle)
      simp [nonEmpty, hnil, ih]
    · rfl

theorem fullySent_take {responses : List ResponseResult} {n : Nat} (h : n ≤ responses.length)
    (sent : Nat) :
    fullySent responses (((responses.take n).flatMap ResponseResult.response).length + sent) =
      (responses.take n).countP nonEmpty + fullySent (responses.drop n) sent := by
  induction n generalizing responses with
  | zero => simp
  | succ n ih =>
    cases responses with
    | nil => simp at h
    | cons r rest =>
      have hrest := @ih rest (by simpa using h)
      rw [List.take_succ_cons, List.drop_succ_cons, List.flatMap_cons, List.length_append,
        List.countP_cons, fullySent, if_pos (by omega), Nat.add_assoc, Nat.add_sub_cancel_left,
        hrest]
      omega

theorem fullySent_next {r : ResponseResult} (rest : List ResponseResult) {sent : Nat}
    (h : sent ≤ r.response.length) :
    fullySent (r :: rest) sent ≤ 1 ∧
      (sent < r.response.length → fullySent (r :: rest) sent = 0) := by
  rw [fullySent]
  split
  · rename_i hle
    rw [show sent - r.response.length = 0 by omega, fullySent_zero]
    exact ⟨by split <;> omega, by omega⟩
  · exact ⟨Nat.zero_le _, fun _ => rfl⟩

/-- The non-empty responses of a connection whose last byte `send` has taken over. -/
def answered (m : MeteredConnection) : Nat :=
  fullySent m.session.acceptedResponses (accepted m.performed).length

theorem Sound.unsent (h : Sound m)
    (hp : progressAfter m.session.acceptedResponses m.session.connection.calls = some p)
    {r : ResponseResult} (hr : m.session.acceptedResponses[p.finished]? = some r) :
    p.phase.sent < r.response.length := by
  obtain ⟨q, hq, hstep⟩ := h.rested.progress
  obtain rfl : p = q := Option.some.inj (hp.symm.trans hq)
  have hlt := (List.getElem?_eq_some_iff.mp hr).1
  obtain ⟨finished, phase⟩ := p
  cases phase with
  | begun => exact hstep.elim
  | idle =>
    obtain ⟨-, -, -, hlength, -⟩ := hstep
    omega
  | queued =>
    obtain ⟨-, -, -, hlength, -⟩ := hstep
    omega
  | sending sent marked =>
    obtain ⟨-, hready, -, -, -, hout, -⟩ := hstep
    have hne := h.rested.unsent hready
    rw [hout, Progress.response, hr] at hne
    by_contra hge
    exact hne (List.drop_of_length_le (Nat.not_lt.mp hge))

def busy (m : MeteredConnection) : Bool := !m.todo.isEmpty

/-- The account of a connection lags behind its `send` calls only inside a handler. -/
theorem Sound.answered_bounds (h : Sound m) :
    m.counted ≤ m.answered ∧ m.answered ≤ m.counted + if m.busy then 1 else 0 := by
  obtain ⟨p, hp, -⟩ := h.progress
  have htraced := progressAfter_traced hp
  have hcounted : m.counted =
      (m.session.acceptedResponses.take p.finished).countP nonEmpty := by
    rw [counted, htraced.completes_eq, List.length_map, List.length_range']
  have hanswered : m.answered = m.counted +
      fullySent (m.session.acceptedResponses.drop p.finished) p.phase.sent := by
    rw [answered, htraced.accepted_eq, List.length_append, List.length_take,
      Nat.min_eq_left htraced.sent_le, fullySent_take htraced.finished_le, hcounted]
  suffices hnext : fullySent (m.session.acceptedResponses.drop p.finished) p.phase.sent ≤
      if m.busy then 1 else 0 by omega
  cases hdrop : m.session.acceptedResponses.drop p.finished with
  | nil => exact Nat.zero_le _
  | cons r rest =>
    have hr : m.session.acceptedResponses[p.finished]? = some r := by
      rw [← List.head?_drop, hdrop, List.head?_cons]
    have hresponse : p.response m.session.acceptedResponses = r.response := by
      simp [Progress.response, hr]
    obtain ⟨hone, hnone⟩ := fullySent_next rest (hresponse ▸ htraced.sent_le)
    split
    · exact hone
    · rename_i hbusy
      refine (hnone ?_).le
      have hcalls : m.performed = m.session.connection.calls := by
        have htodo : m.todo = [] := by simpa [busy] using hbusy
        rw [← h.history, htodo, List.append_nil]
      exact h.unsent (hcalls ▸ hp) hr

/-- What the shared counter says, at any time on any thread. -/
structure CountsAnswered (s : Composed RequestLatency MeteredConnection) : Prop where
  settled : (∀ m ∈ s.components, m.busy = false) →
    s.shared.completedRequests = (s.components.map answered).sum
  neverEarly : s.shared.completedRequests ≤ (s.components.map answered).sum
  neverMissed : (s.components.map answered).sum ≤
    s.shared.completedRequests + s.components.countP busy
  once : ∀ m ∈ s.components, ∃ n ≤ m.session.acceptedResponses.length,
    completes m.performed = (List.range' 1 n).map some
  sent : ∀ m ∈ s.components, ∀ before timing after,
    m.performed = before ++ .complete timing :: after → ∃ number, timing = some number ∧
      1 ≤ number ∧ number ≤ m.session.acceptedResponses.length ∧
      accepted before =
        (m.session.acceptedResponses.take number).flatMap ResponseResult.response
  own : ∀ m ∈ s.components, ∀ requestId timing request,
    .requestHandler requestId timing request ∈ m.performed → timing = some requestId

theorem sum_bounds {components : List MeteredConnection} (h : ∀ m ∈ components, Sound m) :
    (components.map counted).sum ≤ (components.map answered).sum ∧
      (components.map answered).sum ≤ (components.map counted).sum + components.countP busy := by
  induction components with
  | nil => exact ⟨le_rfl, le_rfl⟩
  | cons m rest ih =>
    obtain ⟨hlow, hhigh⟩ := (h m (by simp)).answered_bounds
    obtain ⟨ihlow, ihhigh⟩ := ih fun m' hm' => h m' (by simp [hm'])
    rw [List.map_cons, List.map_cons, List.sum_cons, List.sum_cons, List.countP_cons]
    exact ⟨by omega, by omega⟩

theorem established_sound (now : Nat) {fd : Int} (hfd : 0 ≤ fd) (idleTimeout : Nat) :
    Sound (established now fd idleTimeout true) where
  reachable := .start ⟨now, fd, idleTimeout, some true, hfd, rfl⟩
  rested := TcpConnection.establish_rested now fd idleTimeout
  history := rfl
  progress := ⟨⟨0, .idle⟩, rfl, recorded_of_idle rfl rfl⟩
  accepted number hpos hle := absurd (hpos.trans hle) (Nat.not_succ_le_zero 0)
  handed := by simp [established]
  queued := by simp [established]
  first _ hbusy := absurd hbusy Bool.false_ne_true

theorem reachable_accounted {s : Composed RequestLatency MeteredConnection}
    (h : Reachable parts.system s) :
    Accounted (fun metrics => metrics.enabled = true) Sound RequestLatency.completedRequests
      counted s := by
  refine Parts.accounted ?_ ?_ ?_ h
  · rintro _ rfl
    exact ⟨rfl, rfl⟩
  · rintro metrics ⟨now, fd, idleTimeout⟩ m henabled hjoin
    obtain ⟨hfd, hm⟩ := Option.ite_none_right_eq_some.mp hjoin
    cases hm
    rw [henabled]
    exact ⟨established_sound now hfd idleTimeout, rfl⟩
  · exact fun metrics m a metrics' m' henabled hsound hstep => hsound.step henabled hstep

theorem metrics_count_answered {s : Composed RequestLatency MeteredConnection}
    (h : Reachable parts.system s) : CountsAnswered s := by
  obtain ⟨-, hsound, htotal⟩ := reachable_accounted h
  obtain ⟨hlow, hhigh⟩ := sum_bounds hsound
  rw [← htotal] at hlow hhigh
  refine ⟨?_, hlow, hhigh, ?_, ?_, ?_⟩
  · intro hidle
    have hnone : s.components.countP busy = 0 := by
      simpa [List.countP_eq_zero] using hidle
    omega
  · intro m hm
    obtain ⟨p, hp, -⟩ := (hsound m hm).progress
    have htraced := progressAfter_traced hp
    exact ⟨p.finished, htraced.finished_le, htraced.completes_eq⟩
  · intro m hm before timing after heq
    obtain ⟨p, hp, -⟩ := (hsound m hm).progress
    obtain ⟨q, q', hq, hnext⟩ := progressAfter_cons (heq ▸ hp)
    exact (progressAfter_traced hq).completed hnext
  · intro m hm requestId timing request hmem
    obtain ⟨p, hp, -⟩ := (hsound m hm).progress
    obtain ⟨before, after, heq⟩ := List.append_of_mem hmem
    obtain ⟨q, q', -, hnext⟩ := progressAfter_cons (heq ▸ hp)
    obtain ⟨⟨-, rfl, htiming⟩, -⟩ := Option.ite_none_right_eq_some.mp hnext
    exact htiming

/-- Two pipelined requests. The first is answered by one callback and, too late, by
a copy of it, and its response goes out in two pieces; the second is in processing. -/
def pipelinedRun : List Action :=
  .replicate 2 (.perform 1) ++
  .handle (.event EPOLLIN
    [.bytes (ascii "GET / HTTP/1.1\r\n\r\nGET /x HTTP/1.1\r\n\r\n")] []) ::
  .replicate 5 (.perform 2) ++
  [.workerStarted 0 3, .workerFinished 0 4, .copy 0, .complete 0 ⟨ascii "ok", false⟩,
    .complete 1 ⟨ascii "late", true⟩, .deliver [.bytes 1, .again]] ++
  .replicate 5 (.perform 5) ++
  [.deliver [], .handle (.event EPOLLOUT [] [.bytes 1])] ++
  .replicate 7 (.perform 6)

def pipelinedState : Composed RequestLatency MeteredConnection :=
  (Library.TransitionSystem.run parts.system ⟨.new true, []⟩
    (.join (0, 7, 40) :: pipelinedRun.map (.step 0))).get (by decide +kernel)

theorem pipelinedState_eq : Library.TransitionSystem.run parts.system ⟨.new true, []⟩
    (.join (0, 7, 40) :: pipelinedRun.map (.step 0)) = some pipelinedState :=
  (Option.some_get _).symm

theorem pipelinedState_reachable : Reachable parts.system pipelinedState := by
  have hstart : Reachable parts.system ⟨.new true, []⟩ := .start ⟨rfl, rfl⟩
  exact hstart.run pipelinedState_eq

theorem pipelinedState_counts :
    pipelinedState.shared.completedRequests = 1 ∧ pipelinedState.components.map answered = [1] ∧
      CountsAnswered pipelinedState :=
  ⟨by decide +kernel, by decide +kernel, metrics_count_answered pipelinedState_reachable⟩

end MeteredConnection

end CppSearchServer.Net
