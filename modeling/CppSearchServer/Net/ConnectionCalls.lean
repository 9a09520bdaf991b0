import CppSearchServer.Net.TcpConnection

/-! What the calls of a connection say.
The history of calls gives the bytes received, the bytes `send` took over and
the requests handed to the request handler. The order of the calls on the loop
and on the descriptor follows a fixed protocol, whose state is what epoll holds
for the descriptor. -/

namespace CppSearchServer.Net

namespace Call

@[simp] def received : Call → Bytes
  | .recv _ _ (.bytes data) => data
  | _ => []

@[simp] def accepted : Call → Bytes
  | .send _ _ output (.bytes n) => output.take n
  | _ => []

@[simp] def handed : Call → Option Bytes
  | .requestHandler _ _ request => some request
  | _ => none

@[simp] def handedId : Call → Option Nat
  | .requestHandler requestId _ _ => some requestId
  | _ => none

@[simp] def transferTime : Call → Option Nat
  | .recv time _ (.bytes (_ :: _)) => some time
  | .send time _ _ (.bytes (_ + 1)) => some time
  | _ => none

@[simp] def idleCheck : Call → Option (Nat × Nat)
  | .runAt expiresAt expectedGeneration => some (expiresAt, expectedGeneration)
  | _ => none

end Call

def received (calls : List Call) : Bytes := calls.flatMap Call.received
def accepted (calls : List Call) : Bytes := calls.flatMap Call.accepted
def handed (calls : List Call) : List Bytes := calls.filterMap Call.handed
def handedIds (calls : List Call) : List Nat := calls.filterMap Call.handedId
def transferTimes (calls : List Call) : List Nat := calls.filterMap Call.transferTime
def scheduledChecks (calls : List Call) : List (Nat × Nat) := calls.filterMap Call.idleCheck

section Append
variable (made : Call) (calls more : List Call)

@[simp] theorem received_nil : received [] = [] := rfl
@[simp] theorem accepted_nil : accepted [] = [] := rfl
@[simp] theorem handed_nil : handed [] = [] := rfl
@[simp] theorem handedIds_nil : handedIds [] = [] := rfl
@[simp] theorem transferTimes_nil : transferTimes [] = [] := rfl
@[simp] theorem scheduledChecks_nil : scheduledChecks [] = [] := rfl

@[simp] theorem received_cons : received (made :: calls) = made.received ++ received calls := rfl

@[simp] theorem accepted_cons : accepted (made :: calls) = made.accepted ++ accepted calls := rfl

@[simp] theorem handed_cons :
    handed (made :: calls) = made.handed.toList ++ handed calls := by
  rw [handed, List.filterMap_cons]
  cases made.handed <;> rfl

@[simp] theorem handedIds_cons :
    handedIds (made :: calls) = made.handedId.toList ++ handedIds calls := by
  rw [handedIds, List.filterMap_cons]
  cases made.handedId <;> rfl

@[simp] theorem transferTimes_cons :
    transferTimes (made :: calls) = made.transferTime.toList ++ transferTimes calls := by
  rw [transferTimes, List.filterMap_cons]
  cases made.transferTime <;> rfl

@[simp] theorem scheduledChecks_cons :
    scheduledChecks (made :: calls) = made.idleCheck.toList ++ scheduledChecks calls := by
  rw [scheduledChecks, List.filterMap_cons]
  cases made.idleCheck <;> rfl

@[simp] theorem received_append : received (calls ++ more) = received calls ++ received more := by
  simp [received]

@[simp] theorem accepted_append : accepted (calls ++ more) = accepted calls ++ accepted more := by
  simp [accepted]

@[simp] theorem handed_append : handed (calls ++ more) = handed calls ++ handed more := by
  simp [handed]

@[simp] theorem handedIds_append :
    handedIds (calls ++ more) = handedIds calls ++ handedIds more := by
  simp [handedIds]

@[simp] theorem transferTimes_append :
    transferTimes (calls ++ more) = transferTimes calls ++ transferTimes more := by
  simp [transferTimes]

@[simp] theorem scheduledChecks_append :
    scheduledChecks (calls ++ more) = scheduledChecks calls ++ scheduledChecks more := by
  simp [scheduledChecks]

end Append

/-- Where a connection stands with its loop and its descriptor. -/
inductive Stage where
  | fresh
  | registered (events : EventMask)
  | removed
  | closed
deriving DecidableEq, Repr

/-- The calls a connection on descriptor `fd` may make: register once, then
`recv`, `send` and change the interest while registered, then leave the loop and
close the descriptor, and nothing on the descriptor after that. A `recv` or
`send` on the negative descriptor of a closed connection reaches no file. -/
def Stage.next (fd : Int) : Stage → Call → Option Stage
  | .fresh, .addChannel channel =>
    if channel.fd = fd then some (.registered channel.events) else none
  | .registered events, .recv _ used _ => if used = fd then some (.registered events) else none
  | .registered events, .send _ used _ _ => if used = fd then some (.registered events) else none
  | .registered _, .updateChannel channel =>
    if channel.fd = fd then some (.registered channel.events) else none
  | .registered _, .removeChannel used => if used = fd then some .removed else none
  | .removed, .closeFd used => if used = fd then some .closed else none
  | .closed, .recv _ used _ => if used < 0 then some .closed else none
  | .closed, .send _ used _ _ => if used < 0 then some .closed else none
  | stage, .runAt _ _ => some stage
  | stage, .beginRequest => some stage
  | stage, .markQueued _ => some stage
  | stage, .markReturnedToIo _ => some stage
  | stage, .markWriteStarted _ => some stage
  | stage, .complete _ => some stage
  | stage, .requestHandler _ _ _ => some stage
  | _, _ => none

def stageAfter (fd : Int) (calls : List Call) : Option Stage :=
  calls.foldlM (Stage.next fd) .fresh

theorem stageAfter_append (fd : Int) (calls more : List Call) :
    stageAfter fd (calls ++ more) =
      (stageAfter fd calls).bind fun stage => more.foldlM (Stage.next fd) stage := by
  simp [stageAfter, List.foldlM_append]

theorem stageAfter_concat {fd : Int} {calls : List Call} {stage : Stage}
    (h : stageAfter fd calls = some stage) (made : Call) :
    stageAfter fd (calls ++ [made]) = stage.next fd made := by
  simp [stageAfter_append, h]

theorem stageAfter_cons {fd : Int} {calls rest : List Call} {made : Call}
    (h : (stageAfter fd (calls ++ made :: rest)).isSome) :
    ∃ stage stage', stageAfter fd calls = some stage ∧ stage.next fd made = some stage' := by
  rw [stageAfter_append] at h
  cases hstage : stageAfter fd calls with
  | none => simp [hstage] at h
  | some stage =>
    cases hnext : stage.next fd made with
    | none => simp [hstage, hnext] at h
    | some stage' => exact ⟨stage, stage', rfl, hnext⟩

theorem Stage.next_closed {fd : Int} {made : Call} {stage' : Stage}
    (h : Stage.closed.next fd made = some stage') : stage' = .closed := by
  cases made <;> simp_all [Stage.next]

def registration (fd : Int) (calls : List Call) : Option EventMask :=
  match stageAfter fd calls with
  | some (.registered events) => some events
  | _ => none

namespace TcpConnection

/-! The helpers of the handlers as plain record updates. -/

section Updates
variable (c : TcpConnection) (made : Call)

theorem metricsCall_eq :
    c.metricsCall made =
      { c with calls := c.calls ++ if c.latencyMetrics.isSome then [made] else [] } := by
  unfold metricsCall call
  split <;> simp

theorem activeTimingCall_eq (made : RequestTimingPtr → Call) :
    c.activeTimingCall made =
      { c with
        calls := c.calls ++ if c.latencyMetrics.isSome && c.activeRequestTiming.isSome then
          [made c.activeRequestTiming] else [] } := by
  unfold activeTimingCall call
  split <;> simp

theorem close_eq :
    c.close =
      { c with
        fd := if c.fd < 0 then c.fd else -1
        calls := c.calls ++ if c.fd < 0 then [] else [.removeChannel c.fd, .closeFd c.fd] } := by
  unfold close call
  split <;> simp

theorem close_of_closed (h : c.fd < 0) : c.close = c := by
  simp [close, h]

theorem enableWriting_eq {channel : Channel} (h : c.channel = some channel) :
    c.enableWriting =
      { c with
        channel := some channel.enableWriting
        calls := c.calls ++ [.updateChannel channel.enableWriting] } := by
  simp [enableWriting, h, call]

theorem disableWriting_eq {channel : Channel} (h : c.channel = some channel) :
    c.disableWriting =
      { c with
        channel := some channel.disableWriting
        calls := c.calls ++ [.updateChannel channel.disableWriting] } := by
  simp [disableWriting, h, call]

end Updates

/-! Rules for the two system-call loops, an assertion kept by every further answer
and established after every way out, and for what follows them. -/

theorem afterRead_rule {now : Nat} {P Q : TcpConnection → Prop}
    (mark : ∀ c, P c → P (c.markActivity now))
    (process : ∀ c, P c → c.responseReady = false → c.processingRequest = false →
      c.hasCompleteRequest = true → Q c.processRequest)
    (close : ∀ c, P c → c.responseReady = false → c.processingRequest = false →
      c.hasCompleteRequest = false → Q c.close)
    (stay : ∀ c, P c → (c.processingRequest = false → c.responseReady = false →
      c.hasCompleteRequest = false ∧ c.peerClosed = false) → Q c)
    (d : Bool) (c : TcpConnection) (h : P c) : Q (afterRead now d c) := by
  unfold afterRead
  have hmark : P (if d then c.markActivity now else c) := by
    split
    · exact mark c h
    · exact h
  generalize (if d then c.markActivity now else c) = c at hmark
  dsimp only
  split_ifs with hprocess hclose
  · simp only [Bool.and_eq_true, Bool.not_eq_true'] at hprocess
    exact process c hmark hprocess.1.1 hprocess.1.2 hprocess.2
  · simp only [Bool.and_eq_true, Bool.not_eq_true', not_and, Bool.not_eq_true] at hprocess hclose
    obtain ⟨⟨-, hready⟩, hidle⟩ := hclose
    exact close c hmark hready hidle (hprocess ⟨hready, hidle⟩)
  · simp only [Bool.and_eq_true, Bool.not_eq_true', not_and, Bool.not_eq_true] at hprocess hclose
    refine stay c hmark fun hidle hready => ⟨hprocess ⟨hready, hidle⟩, ?_⟩
    by_contra hpeer
    have := hclose ⟨by simpa using hpeer, hready⟩
    simp [hidle] at this

theorem afterWrite_rule {now : Nat} {P Q : TcpConnection → Prop}
    (asked : ∀ c, P c → c.closeAfterResponse = true → Q c.close)
    (process : ∀ c, P c → c.closeAfterResponse = false → c.processingRequest = false →
      c.hasCompleteRequest = true → Q c.processRequest)
    (gone : ∀ c, P c → (c.processingRequest = false → c.hasCompleteRequest = false) → Q c.close)
    (stay : ∀ c, P c → c.closeAfterResponse = false →
      (c.processingRequest = false → c.hasCompleteRequest = false) → c.peerClosed = false →
      Q c ∧ Q (c.markActivity now))
    (d : Bool) (c : TcpConnection) (h : P c.responseSent) : Q (afterWrite now d c) := by
  unfold afterWrite
  generalize c.responseSent = c at h
  dsimp only
  split_ifs with hclose hprocess hpeer
  · exact asked c h hclose
  · simp only [Bool.and_eq_true, Bool.not_eq_true'] at hprocess
    exact process c h (by simpa using hclose) hprocess.1 hprocess.2
  all_goals
    have hquiet : c.processingRequest = false → c.hasCompleteRequest = false := by
      simpa using hprocess
  · exact gone c h hquiet
  · exact (stay c h (by simpa using hclose) hquiet (by simpa using hpeer)).2
  · exact (stay c h (by simpa using hclose) hquiet (by simpa using hpeer)).1

theorem readLoop_rule {now : Nat} {P : Bool → TcpConnection → Prop} {Q : TcpConnection → Prop}
    (data : ∀ d c b bytes, P d c →
      P true { c.call (.recv now c.fd (.bytes (b :: bytes))) with
        inputBuffer := c.inputBuffer.append (b :: bytes) })
    (eintr : ∀ d c, P d c → P d (c.call (.recv now c.fd .eintr)))
    (eof : ∀ d c, P d c →
      Q (afterRead now d { c.call (.recv now c.fd (.bytes [])) with peerClosed := true }))
    (again : ∀ d c, P d c → Q (afterRead now d (c.call (.recv now c.fd .again))))
    (fail : ∀ d c, P d c → Q (c.call (.recv now c.fd .fail)).close)
    (answers : List RecvResult) (d : Bool) (c : TcpConnection) (h : P d c) :
    Q (readLoop now d c answers) := by
  induction answers generalizing d c with
  | nil => exact again d c h
  | cons answer answers ih =>
    match answer with
    | .bytes [] => exact eof d c h
    | .bytes (b :: bytes) => exact ih true _ (data d c b bytes h)
    | .eintr => exact ih d _ (eintr d c h)
    | .again => exact again d c h
    | .fail => exact fail d c h

/-- The state in which `handleWrite` goes on after `send` took `n` bytes. -/
def tookOver (now : Nat) (n : Nat) (c : TcpConnection) : TcpConnection :=
  let output := c.outputBuffer.peek
  let c := c.call (.send now c.fd output (.bytes n))
  let c := c.activeTimingCall .markWriteStarted
  { c with outputBuffer := c.outputBuffer.retrieve n }

theorem writeLoop_rule {now : Nat} {P : Bool → TcpConnection → Prop} {Q : TcpConnection → Prop}
    (took : ∀ d c n, P d c → c.outputBuffer.peek ≠ [] → P true (tookOver now (n + 1) c))
    (eintr : ∀ d c, P d c → c.outputBuffer.peek ≠ [] →
      P d (c.call (.send now c.fd c.outputBuffer.peek .eintr)))
    (drained : ∀ d c, P d c → c.outputBuffer.peek = [] → Q (afterWrite now d c))
    (again : ∀ d c, P d c → c.outputBuffer.peek ≠ [] →
      let c := c.call (.send now c.fd c.outputBuffer.peek .again)
      Q (if d then c.markActivity now else c).enableWriting)
    (fail : ∀ d c result, P d c → c.outputBuffer.peek ≠ [] →
      result = .bytes 0 ∨ result = .fail →
      Q (c.call (.send now c.fd c.outputBuffer.peek result)).close)
    (answers : List SendResult) (d : Bool) (c : TcpConnection) (h : P d c) :
    Q (writeLoop now d c answers) := by
  induction answers generalizing d c with
  | nil =>
    unfold writeLoop
    split
    · exact drained d c h ((Buffer.empty_iff _).mp ‹_›)
    · exact again d c h (by simpa using ‹¬c.outputBuffer.empty = true›)
  | cons answer answers ih =>
    unfold writeLoop
    split
    · exact drained d c h ((Buffer.empty_iff _).mp ‹_›)
    · have hne : c.outputBuffer.peek ≠ [] := by simpa using ‹¬c.outputBuffer.empty = true›
      match answer with
      | .bytes 0 => exact fail d c _ h hne (.inl rfl)
      | .bytes (n + 1) => exact ih true _ (took d c n h hne)
      | .eintr => exact ih d _ (eintr d c h hne)
      | .again => exact again d c h hne
      | .fail => exact fail d c _ h hne (.inr rfl)

theorem handleEvent_rule {now : Nat} {revents : EventMask} {reads : List RecvResult}
    {writes : List SendResult} {c : TcpConnection} {P Q : TcpConnection → Prop}
    (error : revents.has (EPOLLERR ||| EPOLLHUP) = true → Q c.close)
    (skip : P c) (read : P (c.handleRead now reads))
    (write : ∀ c', P c' → revents.has EPOLLOUT = true → Q (c'.handleWrite now writes))
    (done : ∀ c', P c' → Q c') : Q (c.handleEvent now revents reads writes) := by
  unfold handleEvent Channel.handleEvent
  split
  · exact error ‹_›
  · have hread : P (if revents.has EPOLLIN then c.handleRead now reads else c) := by
      split
      · exact read
      · exact skip
    dsimp only
    split
    · exact write _ hread ‹_›
    · exact done _ hread

end TcpConnection

end CppSearchServer.Net
