import CppSearchServer.Library.Draining
import Mathlib.Data.Int.Order.Basic

/-! `net::TimerQueue`. Time points are nanoseconds, a callback is whatever the caller makes
of it: running it changes the world and may add timers to the queue. -/

namespace CppSearchServer.Net

open Library

structure TimerQueue.Timer (Callback : Type*) where
  expiresAt : Int
  callback : Callback

namespace TimerQueue

def intMax : Int := 2147483647

/-- `std::chrono::ceil<milliseconds>` of a duration in nanoseconds. -/
def ceilMilliseconds (duration : Int) : Int :=
  let truncated := duration.tdiv 1000000
  if truncated * 1000000 < duration then truncated + 1 else truncated

section
variable {Callback World : Type*} (Q : PriorityQueue (Timer Callback) Int Timer.expiresAt)

def addTimer (expiresAt : Int) (callback : Callback) (timers : Q.Queue) : Q.Queue :=
  Q.push ⟨expiresAt, callback⟩ timers

def millisecondsUntilNextTimer (now : Int) (timers : Q.Queue) : Int :=
  match Q.top timers with
  | none => -1
  | some timer =>
    if timer.expiresAt ≤ now then 0
    else
      let remaining := ceilMilliseconds (timer.expiresAt - now)
      if remaining ≥ intMax then intMax else remaining

variable (invoke : Callback → World → World × List (Timer Callback)) (now : Int)

/-- The loop of `runExpiredTimers`, for at most `fuel` rounds, with the calls it made. What
a callback adds goes through `addTimer`, in this order. -/
def runExpiredTimers : Nat → World → Q.Queue →
    Option (List (Called (Timer Callback)) × World × Q.Queue)
  | 0, _, _ => none
  | fuel + 1, world, timers =>
    match Q.top timers with
    | none => some ([], world, timers)
    | some timer =>
      if timer.expiresAt ≤ now then
        let invoked := invoke timer.callback world
        let timers := invoked.2.foldl
          (fun timers added => addTimer Q added.expiresAt added.callback timers) (Q.pop timers)
        (runExpiredTimers fuel invoked.1 timers).map fun result =>
          (⟨timer, invoked.2⟩ :: result.1, result.2)
      else some ([], world, timers)

abbrev DrainsTimers (world : World) (pending : Multiset (Timer Callback))
    (calls : List (Called (Timer Callback))) (world' : World)
    (pending' : Multiset (Timer Callback)) : Prop :=
  Drains Timer.expiresAt (fun timer => invoke timer.callback) now world pending calls
    world' pending'

structure LeastWait (timers : Multiset (Timer Callback)) (m : Int) : Prop where
  enough : ∃ timer ∈ timers, timer.expiresAt ≤ now + m * 1000000
  least : ∀ n : Int, (∃ timer ∈ timers, timer.expiresAt ≤ now + n * 1000000) → m ≤ n

variable {Q invoke now} {world world' : World} {timers timers' : Q.Queue}
  {calls : List (Called (Timer Callback))} {fuel : Nat}

theorem contents_addAll (added : List (Timer Callback)) (timers : Q.Queue) :
    Q.contents (added.foldl
      (fun timers added => addTimer Q added.expiresAt added.callback timers) timers) =
      Q.contents timers + added :=
  Q.contents_pushAll added timers

theorem runExpiredTimers_drains
    (h : runExpiredTimers Q invoke now fuel world timers = some (calls, world', timers')) :
    DrainsTimers invoke now world (Q.contents timers) calls world' (Q.contents timers') := by
  induction fuel generalizing world timers calls with
  | zero => cases h
  | succ fuel ih =>
    rw [runExpiredTimers] at h
    cases htop : Q.top timers with
    | none =>
      rw [htop] at h
      cases h
      rw [Q.top_none _ htop]
      exact .done (by simp)
    | some timer =>
      have hleast := Q.top_least timers timer htop
      rw [htop] at h
      dsimp only at h
      split at h
      · rename_i hdue
        obtain ⟨⟨calls, world', timers'⟩, hrest, heq⟩ := Option.map_eq_some_iff.mp h
        cases heq
        have hdrains := ih hrest
        rw [contents_addAll] at hdrains
        rw [Q.contents_pop timers timer htop] at hleast ⊢
        exact .call hdue (fun b hb => hleast b (Multiset.mem_cons_of_mem hb)) hdrains
      · rename_i hlate
        cases h
        refine .done fun other hother hdue => hlate ?_
        exact (hleast other hother).trans hdue

theorem runExpiredTimers_returns (possible : World → Multiset (Timer Callback) → Prop)
    (potential : World → Multiset (Timer Callback) → Nat)
    (step : ∀ world timer rest, possible world (timer ::ₘ rest) → timer.expiresAt ≤ now →
      possible (invoke timer.callback world).1 (rest + (invoke timer.callback world).2) ∧
        potential (invoke timer.callback world).1 (rest + (invoke timer.callback world).2) <
          potential world (timer ::ₘ rest))
    (hpossible : possible world (Q.contents timers))
    (hfuel : potential world (Q.contents timers) < fuel) :
    ∃ result, runExpiredTimers Q invoke now fuel world timers = some result := by
  induction fuel generalizing world timers with
  | zero => exact absurd hfuel (Nat.not_lt_zero _)
  | succ fuel ih =>
    rw [runExpiredTimers]
    cases htop : Q.top timers with
    | none => exact ⟨_, rfl⟩
    | some timer =>
      dsimp only
      split
      · rename_i hdue
        rw [Q.contents_pop timers timer htop] at hpossible hfuel
        obtain ⟨hnext, hless⟩ := step world timer _ hpossible hdue
        rw [← contents_addAll] at hnext hless
        obtain ⟨result, hresult⟩ := ih hnext (by omega)
        rw [hresult]
        exact ⟨_, rfl⟩
      · exact ⟨_, rfl⟩

theorem runExpiredTimers_mono {result : List (Called (Timer Callback)) × World × Q.Queue}
    (h : runExpiredTimers Q invoke now fuel world timers = some result) {more : Nat}
    (hmore : fuel ≤ more) : runExpiredTimers Q invoke now more world timers = some result := by
  induction fuel generalizing world timers more result with
  | zero => cases h
  | succ fuel ih =>
    obtain ⟨more, rfl⟩ : ∃ more', more = more' + 1 := ⟨more - 1, by omega⟩
    rw [runExpiredTimers] at h ⊢
    cases htop : Q.top timers with
    | none =>
      rw [htop] at h
      exact h
    | some timer =>
      rw [htop] at h
      dsimp only at h ⊢
      split
      · rename_i hdue
        rw [if_pos hdue] at h
        obtain ⟨rest, hrest, rfl⟩ := Option.map_eq_some_iff.mp h
        rw [ih hrest (by omega)]
        rfl
      · rename_i hlate
        rw [if_neg hlate] at h
        exact h

/-! The wait. -/

theorem le_ceilMilliseconds {duration : Int} (hpos : 0 < duration) :
    duration ≤ ceilMilliseconds duration * 1000000 ∧ 0 < ceilMilliseconds duration ∧
      ∀ n : Int, duration ≤ n * 1000000 → ceilMilliseconds duration ≤ n := by
  have htruncated : duration.tdiv 1000000 = duration / 1000000 :=
    Int.tdiv_eq_ediv_of_nonneg hpos.le
  rw [ceilMilliseconds, htruncated]
  split
  · exact ⟨by omega, by omega, fun n hn => by omega⟩
  · exact ⟨by omega, by omega, fun n hn => by omega⟩

theorem millisecondsUntilNextTimer_of_none (htop : Q.top timers = none) :
    millisecondsUntilNextTimer Q now timers = -1 := by
  rw [millisecondsUntilNextTimer, htop]

theorem millisecondsUntilNextTimer_of_some {timer : Timer Callback}
    (htop : Q.top timers = some timer) (hlate : now < timer.expiresAt) :
    ∃ m, LeastWait now (Q.contents timers) m ∧ 0 < m ∧
      millisecondsUntilNextTimer Q now timers = min intMax m := by
  obtain ⟨henough, hpos, hleast⟩ := le_ceilMilliseconds (Int.sub_pos_of_lt hlate)
  have hmem : timer ∈ Q.contents timers := by
    rw [Q.contents_pop timers timer htop]
    exact Multiset.mem_cons_self _ _
  refine ⟨ceilMilliseconds (timer.expiresAt - now), ⟨⟨timer, hmem, by omega⟩, ?_⟩, hpos, ?_⟩
  · rintro n ⟨other, hother, hn⟩
    have hfirst := Q.top_least timers timer htop other hother
    exact hleast n (by omega)
  · rw [millisecondsUntilNextTimer, htop]
    dsimp only
    rw [if_neg (Int.not_le.mpr hlate)]
    split <;> omega

/-- Each timer that is due by `now` has been called once, in the order of their expiries as
far as they were there, and the others remain; the wait is until the first of these. -/
structure RunsWhatIsDue (invoke : Callback → World → World × List (Timer Callback)) (now : Int)
    (world : World) (timers : Q.Queue) (calls : List (Called (Timer Callback))) (world' : World)
    (timers' : Q.Queue) : Prop where
  replayed : Called.Replays (fun timer => invoke timer.callback) world calls world'
  called : Called.elements calls =
    (Q.contents timers + Called.additions calls).filter (·.expiresAt ≤ now)
  remaining : Q.contents timers' =
    (Q.contents timers + Called.additions calls).filter (¬·.expiresAt ≤ now)
  smallest : ∀ before call behind, calls = before ++ call :: behind → ∃ pending,
    Q.contents timers + Called.additions before =
      Called.elements before + (call.element ::ₘ pending) ∧
    ∀ other ∈ pending, call.element.expiresAt ≤ other.expiresAt
  wait_none : millisecondsUntilNextTimer Q now timers' = -1 ↔ Q.contents timers' = 0
  wait_some : Q.contents timers' ≠ 0 → millisecondsUntilNextTimer Q now timers' ≠ 0 ∧
    ∃ m, LeastWait now (Q.contents timers') m ∧
      millisecondsUntilNextTimer Q now timers' = min intMax m

theorem wait_exact (hlate : ∀ timer ∈ Q.contents timers, ¬timer.expiresAt ≤ now) :
    (millisecondsUntilNextTimer Q now timers = -1 ↔ Q.contents timers = 0) ∧
    (Q.contents timers ≠ 0 → millisecondsUntilNextTimer Q now timers ≠ 0 ∧
      ∃ m, LeastWait now (Q.contents timers) m ∧
        millisecondsUntilNextTimer Q now timers = min intMax m) := by
  have hmax : 0 < intMax := by decide
  cases htop : Q.top timers with
  | none =>
    have hempty := Q.top_none timers htop
    exact ⟨iff_of_true (millisecondsUntilNextTimer_of_none htop) hempty,
      fun hne => absurd hempty hne⟩
  | some timer =>
    have hcontents := Q.contents_pop timers timer htop
    have hmem : timer ∈ Q.contents timers := hcontents ▸ Multiset.mem_cons_self _ _
    obtain ⟨m, hleast, hpos, hwait⟩ :=
      millisecondsUntilNextTimer_of_some htop (Int.not_le.mp (hlate timer hmem))
    have hne : Q.contents timers ≠ 0 := hcontents ▸ Multiset.cons_ne_zero
    refine ⟨iff_of_false (by omega) hne, fun _ => ⟨by omega, m, hleast, hwait⟩⟩

theorem runExpiredTimers_exact
    (h : runExpiredTimers Q invoke now fuel world timers = some (calls, world', timers')) :
    RunsWhatIsDue invoke now world timers calls world' timers' := by
  have hdrains := runExpiredTimers_drains h
  obtain ⟨hnone, hsome⟩ := wait_exact hdrains.remaining
  exact {
    replayed := hdrains.replays
    called := hdrains.elements_eq
    remaining := hdrains.remaining_eq
    smallest := fun _ _ _ hcalls => hdrains.smallest hcalls
    wait_none := hnone
    wait_some := hsome }

end

/-- The first callback adds one timer that is due and one that is not. -/
def sampleInvoke : Nat → Unit → Unit × List (Timer Nat)
  | 0, _ => ((), [⟨7, 1⟩, ⟨30, 2⟩])
  | _, _ => ((), [])

def sampleCalls : List (Called (Timer Nat)) := [⟨⟨5, 0⟩, [⟨7, 1⟩, ⟨30, 2⟩]⟩, ⟨⟨7, 1⟩, []⟩]

theorem sampleInvoke_run : runExpiredTimers (PriorityQueue.sorting Timer.expiresAt) sampleInvoke 10
    4 () [⟨20, 3⟩, ⟨5, 0⟩] = some (sampleCalls, (), [⟨20, 3⟩, ⟨30, 2⟩]) := rfl

theorem sampleInvoke_exact :
    RunsWhatIsDue (Q := PriorityQueue.sorting Timer.expiresAt) sampleInvoke 10 () [⟨20, 3⟩, ⟨5, 0⟩]
      sampleCalls () [⟨20, 3⟩, ⟨30, 2⟩] :=
  runExpiredTimers_exact sampleInvoke_run

end TimerQueue

end CppSearchServer.Net
