import CppSearchServer.Net.IdleTimeout
import CppSearchServer.Net.TimerQueue

/-! Idle checks in the timer queue.
A check that meets an outdated generation comes back at once, perhaps already expired, but
with the current generation: the next time it closes the connection or waits for longer
than the queue is being drained. So no connection is called back more than twice. -/

namespace CppSearchServer.Net

open Library TimerQueue

/-- What the callback of an idle check captures: a weak pointer and the generation. -/
structure IdleCheck where
  id : Nat
  expectedGeneration : Nat
deriving DecidableEq, Repr

/-- The connections by number, `none` for one that has been destroyed, and how often the
clock has been read. -/
structure Connections where
  objects : Nat → Option TcpConnection
  reads : Nat

namespace Connections

abbrev IdleTimer := TimerQueue.Timer IdleCheck

variable (clock : Nat → Nat) (now : Int)

def runIdleCheck (check : IdleCheck) (w : Connections) : Connections × List IdleTimer :=
  match w.objects check.id with
  | none => (w, [])
  | some c =>
    let c' := c.closeIfIdle (clock w.reads) check.expectedGeneration
    (⟨Function.update w.objects check.id (some c'), w.reads + 1⟩,
      (scheduledChecks (c'.calls.drop c.calls.length)).map fun scheduled =>
        ⟨scheduled.1, ⟨check.id, scheduled.2⟩⟩)

def callbacksLeft (w : Connections) (timer : IdleTimer) : Nat :=
  if timer.expiresAt ≤ now then
    match w.objects timer.callback.id with
    | none => 1
    | some c => if c.fd < 0 ∨ timer.callback.expectedGeneration = c.idleGeneration then 1 else 2
  else 0

/-- The callbacks that the pending checks of some connections may still cause. -/
def potential (chosen : Nat → Bool) (w : Connections) (timers : Multiset IdleTimer) : Nat :=
  ((timers.filter fun timer => chosen timer.callback.id).map (callbacksLeft now w)).sum

structure OneCheckEach (w : Connections) (timers : Multiset IdleTimer) : Prop where
  nodup : (timers.map fun timer => timer.callback.id).Nodup
  timeouts : ∀ id c, w.objects id = some c → 0 < c.idleTimeout

end Connections

namespace TcpConnection

/-- What a check does: nothing more, or one further check of the current generation. Of an
outdated check it is due when it is due; of a current one, a whole timeout from now. -/
theorem closeIfIdle_checks (now expectedGeneration : Nat) (c : TcpConnection) :
    let c' := c.closeIfIdle now expectedGeneration
    let scheduled := scheduledChecks (c'.calls.drop c.calls.length)
    c'.idleTimeout = c.idleTimeout ∧ c'.idleGeneration = c.idleGeneration ∧
      (scheduled = [] ∨
        ¬(c.fd < 0 ∨ expectedGeneration = c.idleGeneration) ∧
          scheduled = [(c.lastActivityAt + c.idleTimeout, c.idleGeneration)] ∨
        scheduled = [(now + c.idleTimeout, c.idleGeneration)]) := by
  dsimp only
  unfold closeIfIdle
  split_ifs with hclosed houtdated hbusy
  · exact ⟨rfl, rfl, .inl (by simp)⟩
  · refine ⟨rfl, rfl, .inr (.inl ⟨by simp [hclosed, houtdated], ?_⟩)⟩
    simp [scheduleIdleCheck, call, Call.idleCheck]
  · refine ⟨rfl, rfl, .inr (.inr ?_)⟩
    simp [scheduleIdleCheck, call, Call.idleCheck]
  · have htimed := close_timed now c
    obtain ⟨more, hcalls, hchecks, -⟩ := htimed.calls
    refine ⟨htimed.timeout, ?_, .inl ?_⟩
    · rw [close_eq]
    · rw [hcalls, List.drop_left, hchecks]

end TcpConnection

namespace Connections

variable {clock : Nat → Nat} {now : Int} {w : Connections} {timer : IdleTimer}
  {rest timers : Multiset IdleTimer}

theorem callbacksLeft_le_two (w : Connections) (timer : IdleTimer) :
    callbacksLeft now w timer ≤ 2 := by
  unfold callbacksLeft
  split
  · split
    · omega
    · split <;> omega
  · omega

theorem callbacksLeft_of_current {c : TcpConnection}
    (hobject : w.objects timer.callback.id = some c)
    (hcurrent : timer.callback.expectedGeneration = c.idleGeneration) :
    callbacksLeft now w timer ≤ 1 := by
  unfold callbacksLeft
  rw [hobject]
  split
  · simp [hcurrent]
  · omega

theorem callbacksLeft_congr {w' : Connections}
    (h : w'.objects timer.callback.id = w.objects timer.callback.id) :
    callbacksLeft now w' timer = callbacksLeft now w timer := by
  rw [callbacksLeft, callbacksLeft, h]

theorem potential_cons (chosen : Nat → Bool) (w : Connections) (timer : IdleTimer)
    (rest : Multiset IdleTimer) : potential now chosen w (timer ::ₘ rest) =
      (if chosen timer.callback.id then callbacksLeft now w timer else 0) +
        potential now chosen w rest := by
  unfold potential
  split
  · rename_i hchosen
    rw [Multiset.filter_cons_of_pos rest hchosen, Multiset.map_cons, Multiset.sum_cons]
  · rename_i hchosen
    rw [Multiset.filter_cons_of_neg rest hchosen, Nat.zero_add]

theorem runIdleCheck_added (hclock : ∀ n, now ≤ clock n) (hdue : timer.expiresAt ≤ now)
    (htimeouts : ∀ id c, w.objects id = some c → 0 < c.idleTimeout) :
    ((runIdleCheck clock timer.callback w).2 = [] ∨
      ∃ added, (runIdleCheck clock timer.callback w).2 = [added] ∧
        added.callback.id = timer.callback.id) ∧
    ((runIdleCheck clock timer.callback w).2.map
      (callbacksLeft now (runIdleCheck clock timer.callback w).1)).sum + 1 ≤
        callbacksLeft now w timer := by
  rw [callbacksLeft, if_pos hdue, runIdleCheck]
  cases hobject : w.objects timer.callback.id with
  | none => exact ⟨.inl rfl, by simp⟩
  | some c =>
    have hpos := htimeouts _ c hobject
    obtain ⟨-, hgeneration, hnone | ⟨hleft, hone⟩ | hone⟩ :=
      c.closeIfIdle_checks (clock w.reads) timer.callback.expectedGeneration
    · dsimp only at hnone ⊢
      rw [hnone]
      refine ⟨.inl rfl, ?_⟩
      simp
      split <;> omega
    · dsimp only at hone ⊢
      rw [hone, if_neg hleft]
      refine ⟨.inr ⟨_, rfl, rfl⟩, ?_⟩
      rw [List.map_cons, List.map_nil, List.map_cons, List.map_nil, List.sum_singleton]
      exact Nat.succ_le_succ (callbacksLeft_of_current (Function.update_self ..) hgeneration.symm)
    · dsimp only at hone ⊢
      rw [hone]
      refine ⟨.inr ⟨_, rfl, rfl⟩, ?_⟩
      have hafter : ¬((clock w.reads + c.idleTimeout : Nat) : Int) ≤ now := by
        have hnow := hclock w.reads
        omega
      rw [List.map_cons, List.map_nil, List.map_cons, List.map_nil, List.sum_singleton,
        callbacksLeft, if_neg hafter]
      split <;> omega

theorem runIdleCheck_other (check : IdleCheck) (w : Connections) {id : Nat} (hid : id ≠ check.id) :
    (runIdleCheck clock check w).1.objects id = w.objects id := by
  unfold runIdleCheck
  split
  · rfl
  · exact Function.update_of_ne hid ..

theorem runIdleCheck_timeouts (clock : Nat → Nat) (check : IdleCheck)
    (h : ∀ id c, w.objects id = some c → 0 < c.idleTimeout) :
    ∀ id c, (runIdleCheck clock check w).1.objects id = some c → 0 < c.idleTimeout := by
  intro id c hc
  by_cases hid : id = check.id
  · subst hid
    unfold runIdleCheck at hc
    split at hc
    · exact h _ c hc
    · rename_i c₀ hobject
      dsimp only at hc
      rw [Function.update_self, Option.some.injEq] at hc
      rw [← hc, (c₀.closeIfIdle_checks (clock w.reads) check.expectedGeneration).1]
      exact h _ c₀ hobject
  · rw [runIdleCheck_other check w hid] at hc
    exact h id c hc

theorem runIdleCheck_step (hclock : ∀ n, now ≤ clock n) (hdue : timer.expiresAt ≤ now)
    (h : OneCheckEach w (timer ::ₘ rest)) (chosen : Nat → Bool) :
    OneCheckEach (runIdleCheck clock timer.callback w).1
        (rest + (runIdleCheck clock timer.callback w).2) ∧
      (if chosen timer.callback.id then 1 else 0) +
        potential now chosen (runIdleCheck clock timer.callback w).1
          (rest + (runIdleCheck clock timer.callback w).2) ≤
        potential now chosen w (timer ::ₘ rest) := by
  obtain ⟨hadded, hpaid⟩ := runIdleCheck_added hclock hdue h.timeouts
  have hnodup := h.nodup
  rw [Multiset.map_cons, Multiset.nodup_cons] at hnodup
  have hrest : potential now chosen (runIdleCheck clock timer.callback w).1 rest =
      potential now chosen w rest := by
    refine congrArg Multiset.sum (Multiset.map_congr rfl fun other hother => ?_)
    refine callbacksLeft_congr (runIdleCheck_other _ w fun hid => hnodup.1 ?_)
    exact hid ▸ Multiset.mem_map_of_mem _ (Multiset.mem_of_mem_filter hother)
  have htimeouts := runIdleCheck_timeouts clock timer.callback h.timeouts
  have hpositive : 1 ≤ callbacksLeft now w timer := (Nat.le_add_left 1 _).trans hpaid
  rw [potential_cons]
  rcases hadded with hnone | ⟨added, hone, hid⟩
  · rw [hnone, Multiset.coe_nil, add_zero, hrest]
    refine ⟨⟨hnodup.2, htimeouts⟩, ?_⟩
    split <;> omega
  · rw [hone] at hpaid ⊢
    rw [List.map_singleton, List.sum_singleton] at hpaid
    rw [← Multiset.cons_coe, Multiset.coe_nil, Multiset.add_cons, add_zero, potential_cons, hid,
      hrest]
    refine ⟨⟨?_, htimeouts⟩, ?_⟩
    · rw [Multiset.map_cons, Multiset.nodup_cons, hid]
      exact hnodup
    · split <;> omega

theorem potential_le_twice (chosen : Nat → Bool) (w : Connections) (timers : Multiset IdleTimer) :
    potential now chosen w timers ≤ 2 * timers.card := by
  induction timers using Multiset.induction with
  | empty => simp [potential]
  | cons timer timers ih =>
    have htwo : callbacksLeft now w timer ≤ 2 := callbacksLeft_le_two w timer
    rw [potential_cons, Multiset.card_cons]
    split <;> omega

theorem potential_le_two (id : Nat) (w : Connections) {timers : Multiset IdleTimer}
    (h : (timers.map fun timer => timer.callback.id).Nodup) :
    potential now (· = id) w timers ≤ 2 := by
  induction timers using Multiset.induction with
  | empty => simp [potential]
  | cons timer timers ih =>
    rw [Multiset.map_cons, Multiset.nodup_cons] at h
    rw [potential_cons]
    split
    · rename_i hid
      have hnone : timers.filter (fun other => decide (other.callback.id = id)) = 0 := by
        rw [Multiset.filter_eq_nil]
        intro other hother heq
        have hsame : other.callback.id = timer.callback.id :=
          (of_decide_eq_true heq).trans (of_decide_eq_true hid).symm
        exact h.1 (hsame ▸ Multiset.mem_map_of_mem _ hother)
      rw [potential, hnone]
      exact callbacksLeft_le_two w timer
    · rw [Nat.zero_add]
      exact ih h.2

section Drain
variable {Q : PriorityQueue IdleTimer Int TimerQueue.Timer.expiresAt} {pending : Q.Queue}

theorem drain_returns (hclock : ∀ n, now ≤ clock n) (h : OneCheckEach w (Q.contents pending)) :
    ∃ result, runExpiredTimers Q (runIdleCheck clock) now
      (2 * (Q.contents pending).card + 1) w pending = some result := by
  refine runExpiredTimers_returns OneCheckEach (potential now fun _ => true)
    (fun w timer rest h hdue => ?_) h ?_
  · obtain ⟨hnext, hpaid⟩ := runIdleCheck_step hclock hdue h fun _ => true
    refine ⟨hnext, ?_⟩
    rw [if_pos rfl] at hpaid
    omega
  · exact Nat.lt_succ_of_le (potential_le_twice _ w _)

theorem callbacks_le_two (hclock : ∀ n, now ≤ clock n) (h : OneCheckEach w (Q.contents pending))
    {fuel : Nat} {calls : List (Called IdleTimer)} {w' : Connections} {pending' : Q.Queue}
    (hrun : runExpiredTimers Q (runIdleCheck clock) now fuel w pending = some (calls, w', pending'))
    (id : Nat) : calls.countP (fun call => call.element.callback.id = id) ≤ 2 := by
  have hcount := (runExpiredTimers_drains hrun).countP_le OneCheckEach (potential now (· = id))
    (fun timer => timer.callback.id = id)
    (fun w timer rest h hdue => runIdleCheck_step hclock hdue h (· = id)) h
  exact hcount.trans (potential_le_two id w h.nodup)

/-- Draining idle checks ends, with two callbacks for each connection at most, whatever the
clock says as long as it is not behind. -/
theorem idleDrain_terminates (hclock : ∀ n, now ≤ clock n)
    (h : OneCheckEach w (Q.contents pending)) :
    ∃ calls w' pending', (∀ fuel, 2 * (Q.contents pending).card < fuel →
        runExpiredTimers Q (runIdleCheck clock) now fuel w pending = some (calls, w', pending')) ∧
      ∀ id, calls.countP (fun call => call.element.callback.id = id) ≤ 2 := by
  obtain ⟨⟨calls, w', pending'⟩, hrun⟩ := drain_returns hclock h
  refine ⟨calls, w', pending', fun fuel hfuel => ?_, callbacks_le_two hclock h hrun⟩
  exact runExpiredTimers_mono hrun hfuel

end Drain

/-- An open connection whose only check is outdated, and a second one that is gone. -/
def outdated : Connections where
  objects id :=
    if id = 0 then
      some { TcpConnection.new 7 10 none with lastActivityAt := 5, idleGeneration := 2 }
    else none
  reads := 0

def outdatedChecks : Multiset IdleTimer := {⟨20, ⟨0, 1⟩⟩, ⟨30, ⟨1, 1⟩⟩}

theorem outdated_oneCheckEach : OneCheckEach outdated outdatedChecks where
  nodup := by decide
  timeouts id c h := by
    obtain ⟨-, heq⟩ := Option.ite_none_right_eq_some.mp h
    cases heq
    decide

theorem outdated_terminates : ∃ calls w' pending',
    (∀ fuel, 2 * outdatedChecks.card < fuel →
      runExpiredTimers (PriorityQueue.sorting TimerQueue.Timer.expiresAt)
        (runIdleCheck fun _ => 100) 100 fuel outdated [⟨20, ⟨0, 1⟩⟩, ⟨30, ⟨1, 1⟩⟩] =
          some (calls, w', pending')) ∧
      ∀ id, calls.countP (fun call => call.element.callback.id = id) ≤ 2 :=
  idleDrain_terminates (Q := PriorityQueue.sorting TimerQueue.Timer.expiresAt) (fun _ => by decide)
    outdated_oneCheckEach

end Connections

end CppSearchServer.Net
