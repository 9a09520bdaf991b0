import CppSearchServer.Library.TransitionSystem
import Mathlib.Algebra.BigOperators.Fin
import Mathlib.Data.Int.CardIntervalMod

/-! `net::EventLoopGroup` with `m` threads, and the thread that calls it: the threads are
started one after the other, each with a handshake on its condition variable, and joined by
the destructor. Each block under a mutex is one step, but for that of `~EventLoopThread`,
which calls into the loop. The caller may wake up by itself, and a thread may fail to start.
What a loop does is not looked into. -/

namespace CppSearchServer.Net

open Library.TransitionSystem

/-- Where `threadMain` is: at the construction of `loop`, behind it, behind the unlock, in
`loop.loop()`, behind it, behind `loop_ = nullptr`, and at its end. -/
inductive ThreadMain where
  | unspawned
  | constructing
  | constructed
  | notifying
  | looping
  | leaving
  | cleared
  | exited
deriving DecidableEq

namespace ThreadMain

def published : ThreadMain → Bool
  | .notifying | .looping | .leaving => true
  | _ => false

def alive : ThreadMain → Bool
  | .constructed | .notifying | .looping | .leaving | .cleared => true
  | _ => false

end ThreadMain

/-- `quit` is that of `loop`; `destroyed` says that the destructor has run. -/
structure EventLoopThread where
  started : Bool
  main : ThreadMain
  quit : Bool
  destroyed : Bool
deriving DecidableEq

/-- The calling thread. `starting i` is the loop of `start` before thread `i`; `spawning`,
`locking` and `waiting` are inside its `startLoop`, before the thread is created, before the
predicate is tested and in the wait set. `locked`, `quitting` and `joining` are inside
`~EventLoopThread`, the first two with the mutex and `quitting` behind the store of `quit_`. -/
inductive GroupCaller (m : Nat) where
  | idle
  | starting (i : Nat)
  | spawning (i : Fin m)
  | locking (i : Fin m)
  | waiting (i : Fin m)
  | destroying
  | locked (i : Fin m)
  | quitting (i : Fin m)
  | joining (i : Fin m)
  | destroyed
deriving DecidableEq

namespace GroupCaller

variable {m : Nat}

def concerns : GroupCaller m → Option (Fin m)
  | .spawning i | .locking i | .waiting i | .locked i | .quitting i | .joining i => some i
  | .idle | .starting _ | .destroying | .destroyed => none

def inStart : GroupCaller m → Bool
  | .starting _ | .spawning _ | .locking _ | .waiting _ => true
  | _ => false

def inDestructor : GroupCaller m → Bool
  | .destroying | .locked _ | .quitting _ | .joining _ | .destroyed => true
  | _ => false

def awaits (i : Fin m) : GroupCaller m → Bool
  | .locking j | .waiting j => i = j
  | _ => false

def holds (i : Fin m) : GroupCaller m → Bool
  | .locked j | .quitting j => i = j
  | _ => false

def asks (i : Fin m) : GroupCaller m → Bool
  | .quitting j | .joining j => i = j
  | _ => false

end GroupCaller

/-- `handedOut` is what `nextLoop` has returned and `thrown` what was thrown to the caller.
Nothing happens any more behind `terminated`, the end of the process, nor behind a `fault`: a
member function called on a destroyed loop, or a read past the end of `loops_`. -/
structure EventLoopGroup (m : Nat) where
  threads : Fin m → EventLoopThread
  loops : List (Fin m)
  nextIndex : Nat
  started : Bool
  caller : GroupCaller m
  handedOut : List (Fin m)
  thrown : List String
  terminated : Bool
  fault : Bool

namespace EventLoopGroup

variable {m : Nat}

/-- `construct` may throw, which nothing in the thread catches. -/
inductive ThreadAction where
  | construct (throws : Bool)
  | publish
  | notifyOne
  | leave
  | clear
  | exit

/-- `spawn` is the construction of the thread, and what it throws. -/
inductive Action (m : Nat) where
  | start
  | startLoop
  | spawn (error : Option String)
  | wait
  | wakeUp
  | nextLoop
  | destroy
  | lock (i : Fin m)
  | quit
  | wakeup
  | join
  | destroyed
  | thread (i : Fin m) (a : ThreadAction)

def new (m : Nat) : Except String (EventLoopGroup m) :=
  if m = 0 then .error "EventLoopGroup is empty"
  else .ok
    { threads := fun _ => ⟨false, .unspawned, false, false⟩
      loops := []
      nextIndex := 0
      started := false
      caller := .idle
      handedOut := []
      thrown := []
      terminated := false
      fault := false }

def setThread (i : Fin m) (thread : EventLoopThread) (s : EventLoopGroup m) : EventLoopGroup m :=
  { s with threads := Function.update s.threads i thread }

def setMain (i : Fin m) (main : ThreadMain) (s : EventLoopGroup m) : EventLoopGroup m :=
  s.setThread i { s.threads i with main := main }

def throw (what : String) (s : EventLoopGroup m) : EventLoopGroup m :=
  { s with caller := .idle, thrown := s.thrown ++ [what] }

def start (s : EventLoopGroup m) : EventLoopGroup m :=
  if s.started then s.throw "EventLoopGroup has already been started"
  else { s with caller := .starting 0 }

def startLoop (i : Nat) (s : EventLoopGroup m) : EventLoopGroup m :=
  if h : i < m then
    if (s.threads ⟨i, h⟩).started then s.throw "EventLoopThread has already been started"
    else { s.setThread ⟨i, h⟩ { s.threads ⟨i, h⟩ with started := true } with
      caller := .spawning ⟨i, h⟩ }
  else { s with started := true, caller := .idle }

def spawn (i : Fin m) (s : EventLoopGroup m) : Option String → EventLoopGroup m
  | none => { s.setMain i .constructing with caller := .locking i }
  | some what => s.throw what

def wait (i : Fin m) (s : EventLoopGroup m) : EventLoopGroup m :=
  if (s.threads i).main.published then
    { s with loops := s.loops ++ [i], caller := .starting (i + 1) }
  else { s with caller := .waiting i }

def nextLoop (s : EventLoopGroup m) : EventLoopGroup m :=
  if s.started = false ∨ s.loops = [] then s.throw "EventLoopGroup eror"
  else
    match s.loops[s.nextIndex]? with
    | some i =>
      { s with
        nextIndex := if s.loops.length ≤ s.nextIndex + 1 then 0 else s.nextIndex + 1
        handedOut := s.handedOut ++ [i] }
    | none => { s with fault := true }

def quit (i : Fin m) (s : EventLoopGroup m) : EventLoopGroup m :=
  if (s.threads i).main.published then
    { s.setThread i { s.threads i with quit := true } with caller := .quitting i }
  else { s with caller := .joining i }

def wakeup (i : Fin m) (s : EventLoopGroup m) : EventLoopGroup m :=
  if (s.threads i).main.alive then { s with caller := .joining i } else { s with fault := true }

def join (i : Fin m) (s : EventLoopGroup m) : Option (EventLoopGroup m) :=
  if (s.threads i).main = .unspawned ∨ (s.threads i).main = .exited then
    some { s.setThread i { s.threads i with destroyed := true } with caller := .destroying }
  else none

def notifyOne (i : Fin m) (s : EventLoopGroup m) : EventLoopGroup m :=
  { s.setMain i .looping with
    caller := if s.caller = .waiting i then .locking i else s.caller }

def threadStep (i : Fin m) (s : EventLoopGroup m) : ThreadAction → Option (EventLoopGroup m)
  | .construct throws =>
    if (s.threads i).main = .constructing then
      some (if throws then { s with terminated := true } else s.setMain i .constructed)
    else none
  | .publish =>
    if (s.threads i).main = .constructed ∧ s.caller.holds i = false then
      some (s.setMain i .notifying)
    else none
  | .notifyOne => if (s.threads i).main = .notifying then some (s.notifyOne i) else none
  | .leave =>
    if (s.threads i).main = .looping ∧ (s.threads i).quit = true then some (s.setMain i .leaving)
    else none
  | .clear =>
    if (s.threads i).main = .leaving ∧ s.caller.holds i = false then some (s.setMain i .cleared)
    else none
  | .exit => if (s.threads i).main = .cleared then some (s.setMain i .exited) else none

def step (s : EventLoopGroup m) (a : Action m) : Option (EventLoopGroup m) :=
  if s.terminated = false ∧ s.fault = false then
    match s.caller, a with
    | .idle, .start => some s.start
    | .starting i, .startLoop => some (s.startLoop i)
    | .spawning i, .spawn error => some (s.spawn i error)
    | .locking i, .wait => some (s.wait i)
    | .waiting i, .wakeUp => some { s with caller := .locking i }
    | .idle, .nextLoop => some s.nextLoop
    | .idle, .destroy => some { s with caller := .destroying }
    | .destroying, .lock i =>
      if (s.threads i).destroyed = false then some { s with caller := .locked i } else none
    | .locked i, .quit => some (s.quit i)
    | .quitting i, .wakeup => some (s.wakeup i)
    | .joining i, .join => s.join i
    | .destroying, .destroyed =>
      if ∀ i, (s.threads i).destroyed = true then some { s with caller := .destroyed } else none
    | _, .thread i a => s.threadStep i a
    | _, _ => none
  else none

def system (m : Nat) : System (EventLoopGroup m) (Action m) where
  initial s := new m = .ok s
  step := step

inductive Move (s : EventLoopGroup m) : Action m → EventLoopGroup m → Prop where
  | start : s.caller = .idle → Move s .start s.start
  | startLoop {i : Nat} : s.caller = .starting i → Move s .startLoop (s.startLoop i)
  | spawn {i : Fin m} {error : Option String} : s.caller = .spawning i →
      Move s (.spawn error) (s.spawn i error)
  | wait {i : Fin m} : s.caller = .locking i → Move s .wait (s.wait i)
  | wakeUp {i : Fin m} : s.caller = .waiting i → Move s .wakeUp { s with caller := .locking i }
  | nextLoop : s.caller = .idle → Move s .nextLoop s.nextLoop
  | destroy : s.caller = .idle → Move s .destroy { s with caller := .destroying }
  | lock {i : Fin m} : s.caller = .destroying → (s.threads i).destroyed = false →
      Move s (.lock i) { s with caller := .locked i }
  | quit {i : Fin m} : s.caller = .locked i → Move s .quit (s.quit i)
  | wakeup {i : Fin m} : s.caller = .quitting i → Move s .wakeup (s.wakeup i)
  | join {i : Fin m} {t : EventLoopGroup m} : s.caller = .joining i → s.join i = some t →
      Move s .join t
  | destroyed : s.caller = .destroying → (∀ i, (s.threads i).destroyed = true) →
      Move s .destroyed { s with caller := .destroyed }
  | thread {i : Fin m} {a : ThreadAction} {t : EventLoopGroup m} : s.threadStep i a = some t →
      Move s (.thread i a) t

variable {s t : EventLoopGroup m} {i j : Fin m} {a : Action m}

theorem step_move (ht : s.step a = some t) : Move s a t := by
  obtain ⟨-, ht⟩ := Option.ite_none_right_eq_some.mp ht
  split at ht
  · rename_i hcaller _
    cases ht
    exact .start hcaller
  · rename_i hcaller _
    cases ht
    exact .startLoop hcaller
  · rename_i hcaller _
    cases ht
    exact .spawn hcaller
  · rename_i hcaller _
    cases ht
    exact .wait hcaller
  · rename_i hcaller _
    cases ht
    exact .wakeUp hcaller
  · rename_i hcaller _
    cases ht
    exact .nextLoop hcaller
  · rename_i hcaller _
    cases ht
    exact .destroy hcaller
  · rename_i hcaller _
    obtain ⟨hleft, ht⟩ := Option.ite_none_right_eq_some.mp ht
    cases ht
    exact .lock hcaller hleft
  · rename_i hcaller _
    cases ht
    exact .quit hcaller
  · rename_i hcaller _
    cases ht
    exact .wakeup hcaller
  · rename_i hcaller _
    exact .join hcaller ht
  · rename_i hcaller _
    obtain ⟨hall, ht⟩ := Option.ite_none_right_eq_some.mp ht
    cases ht
    exact .destroyed hcaller hall
  · exact .thread ht
  · cases ht

section Fits

def Fits (caller : GroupCaller m) (i : Fin m) (thread : EventLoopThread) : Prop :=
  (thread.destroyed = true → caller.inDestructor = true ∧ caller.concerns ≠ some i) ∧
    match thread.main with
    | .unspawned =>
      thread.quit = false ∧ caller.awaits i = false ∧ caller ≠ .quitting i
    | .constructing | .constructed =>
      thread.started = true ∧ thread.destroyed = false ∧ thread.quit = false ∧
        caller.awaits i = true
    | .notifying =>
      thread.started = true ∧ thread.destroyed = false ∧ thread.quit = caller.asks i ∧
        caller ≠ .spawning i
    | .looping =>
      thread.started = true ∧ thread.destroyed = false ∧ thread.quit = caller.asks i ∧
        caller ≠ .spawning i ∧ caller ≠ .waiting i
    | .leaving =>
      thread.started = true ∧ thread.destroyed = false ∧ thread.quit = true ∧
        caller.asks i = true
    | .cleared => thread.started = true ∧ thread.destroyed = false ∧ caller = .joining i
    | .exited =>
      thread.started = true ∧ caller ≠ .spawning i ∧
        (thread.destroyed = true ∨ caller = .joining i)

variable {caller caller' : GroupCaller m} {thread : EventLoopThread}

theorem apart (h : caller.concerns ≠ some i) :
    caller.awaits i = false ∧ caller.asks i = false ∧ caller ≠ .spawning i ∧
      caller ≠ .waiting i ∧ caller ≠ .quitting i ∧ caller ≠ .joining i := by
  cases caller <;>
    simp_all [GroupCaller.concerns, GroupCaller.awaits, GroupCaller.asks, eq_comm]

theorem Fits.elsewhere (h : Fits caller i thread) (hi : caller.concerns ≠ some i)
    (hi' : caller'.concerns ≠ some i)
    (hdestructor : caller.inDestructor = true → caller'.inDestructor = true) :
    Fits caller' i thread := by
  obtain ⟨hawaits, hasks, hspawning, hwaiting, hquitting, hjoining⟩ := apart hi
  obtain ⟨hawaits', hasks', hspawning', hwaiting', hquitting', hjoining'⟩ := apart hi'
  obtain ⟨hdestroyed, h⟩ := h
  refine ⟨fun heq => ⟨hdestructor (hdestroyed heq).1, hi'⟩, ?_⟩
  cases hmain : thread.main <;> simp_all

theorem Fits.turn {threads threads' : Fin m → EventLoopThread}
    (h : ∀ j, Fits caller j (threads j)) (hothers : ∀ j, j ≠ i → threads' j = threads j)
    (hcaller : caller.concerns = none ∨ caller.concerns = some i)
    (hcaller' : caller'.concerns = none ∨ caller'.concerns = some i)
    (hdestructor : caller.inDestructor = true → caller'.inDestructor = true)
    (hi : Fits caller' i (threads' i)) (j : Fin m) : Fits caller' j (threads' j) := by
  by_cases hj : j = i
  · exact hj ▸ hi
  · have hne : ∀ c : GroupCaller m, c.concerns = none ∨ c.concerns = some i →
        c.concerns ≠ some j := by
      rintro c (hc | hc) <;> simp [hc, Ne.symm hj]
    rw [hothers j hj]
    exact (h j).elsewhere (hne _ hcaller) (hne _ hcaller') hdestructor

end Fits

/-- `start` has taken the loops of the first `i` threads. -/
structure Collects (s : EventLoopGroup m) (i : Nat) : Prop where
  le : i ≤ m
  loops : s.loops.map Fin.val = List.range i
  started : ∀ j : Fin m, j < i → (s.threads j).started = true

/-- A first `start` has failed, and any other fails as well. -/
def Spoilt (s : EventLoopGroup m) : Prop := ∃ j : Fin m, j.val = 0 ∧ (s.threads j).started = true

/-- Where `start` is, as long as it has not returned. -/
def StartFits (s : EventLoopGroup m) : Prop :=
  match s.caller with
  | .idle => s.Collects 0 ∨ s.Spoilt
  | .starting i => s.Collects i ∨ i = 0 ∧ s.Spoilt
  | .spawning i | .locking i | .waiting i => s.Collects i ∧ (s.threads i).started = true
  | _ => True

section StartFits

theorem Collects.of_started {k : Nat} (h : s.Collects k) (hloops : t.loops = s.loops)
    (hstarted : ∀ j, (s.threads j).started = true → (t.threads j).started = true) :
    t.Collects k :=
  ⟨h.le, hloops ▸ h.loops, fun j hj => hstarted j (h.started j hj)⟩

theorem Spoilt.of_started (h : s.Spoilt)
    (hstarted : ∀ j, (s.threads j).started = true → (t.threads j).started = true) : t.Spoilt :=
  h.imp fun j hj => ⟨hj.1, hstarted j hj.2⟩

theorem Collects.spoilt (h : s.Collects i) (hi : (s.threads i).started = true) : s.Spoilt := by
  rcases Nat.eq_zero_or_pos i.val with hzero | hpos
  · exact ⟨i, hzero, hi⟩
  · exact ⟨⟨0, by omega⟩, rfl, h.started _ hpos⟩

@[simp] theorem setMain_started (main : ThreadMain) :
    ((s.setMain i main).threads j).started = (s.threads j).started := by
  by_cases hj : j = i
  · subst hj
    simp [setMain, setThread]
  · simp [setMain, setThread, hj]

theorem StartFits.of_started (h : s.StartFits) (hcaller : t.caller = s.caller)
    (hloops : t.loops = s.loops)
    (hstarted : ∀ j, (s.threads j).started = true → (t.threads j).started = true) :
    t.StartFits := by
  unfold StartFits at h ⊢
  rw [hcaller]
  split at h
  · exact h.imp (·.of_started hloops hstarted) (·.of_started hstarted)
  · exact h.imp (·.of_started hloops hstarted) (.imp id (·.of_started hstarted))
  · exact h.imp (·.of_started hloops hstarted) (hstarted _)
  · exact h.imp (·.of_started hloops hstarted) (hstarted _)
  · exact h.imp (·.of_started hloops hstarted) (hstarted _)
  · exact h

end StartFits

structure Sound (s : EventLoopGroup m) : Prop where
  some_thread : 0 < m
  fits : ∀ i, Fits s.caller i (s.threads i)
  starts : s.started = false → s.StartFits
  loops : s.started = true → s.loops.map Fin.val = List.range m ∧ s.caller.inStart = false
  nextIndex : s.nextIndex = s.handedOut.length % m
  handedOut : s.handedOut.map Fin.val = (List.range s.handedOut.length).map (· % m)
  gone : s.caller = .destroyed → ∀ i, (s.threads i).destroyed = true
  harmless : s.fault = false

theorem new_sound (h : new m = .ok s) : Sound s := by
  unfold new at h
  split at h
  · cases h
  · rename_i hm
    cases h
    refine ⟨by omega, fun i => ⟨nofun, rfl, rfl, nofun⟩,
      fun _ => .inl ⟨by omega, rfl, fun j hj => ?_⟩, ?_, rfl, rfl, ?_, rfl⟩
    · exact absurd hj (by omega)
    · exact nofun
    · exact nofun

theorem Sound.step_of_fits (h : Sound s) (hhanded : t.handedOut = s.handedOut)
    (hnext : t.nextIndex = s.nextIndex) (hfits : ∀ i, Fits t.caller i (t.threads i))
    (hstarts : t.started = false → t.StartFits)
    (hloops : t.started = true → t.loops.map Fin.val = List.range m ∧ t.caller.inStart = false)
    (hgone : t.caller = .destroyed → ∀ i, (t.threads i).destroyed = true)
    (hharmless : t.fault = false) : Sound t where
  some_thread := h.some_thread
  fits := hfits
  starts := hstarts
  loops := hloops
  nextIndex := by rw [hnext, hhanded]; exact h.nextIndex
  handedOut := by rw [hhanded]; exact h.handedOut
  gone := hgone
  harmless := hharmless

theorem Sound.fits_of (h : Sound s) {caller : GroupCaller m} (hcaller : s.caller = caller)
    (i : Fin m) : Fits caller i (s.threads i) :=
  hcaller ▸ h.fits i

theorem Sound.start (h : Sound s) (hcaller : s.caller = .idle) : Sound s.start := by
  have hstarts := h.starts
  unfold StartFits at hstarts
  rw [hcaller] at hstarts
  unfold EventLoopGroup.start
  split
  · rename_i hstarted
    exact h.step_of_fits rfl rfl (h.fits_of hcaller) (fun hnot => by simp [throw, hstarted] at hnot)
      (fun hstarted => ⟨(h.loops hstarted).1, rfl⟩) nofun h.harmless
  · rename_i hstarted
    refine h.step_of_fits rfl rfl
      (fun i => (h.fits_of hcaller i).elsewhere nofun nofun nofun) (fun hnot => ?_)
      (fun hstarted' => absurd hstarted' hstarted) nofun h.harmless
    exact (hstarts hnot).imp (·.of_started rfl fun _ => id)
      fun hspoilt => ⟨rfl, hspoilt.of_started fun _ => id⟩

theorem Sound.startLoop (h : Sound s) {i : Nat} (hcaller : s.caller = .starting i) :
    Sound (s.startLoop i) := by
  have hstarted : s.started = false := by
    by_contra hstarted
    have hloops := (h.loops (by simpa using hstarted)).2
    rw [hcaller] at hloops
    cases hloops
  have hstarts := h.starts hstarted
  unfold StartFits at hstarts
  rw [hcaller] at hstarts
  unfold EventLoopGroup.startLoop
  split_ifs with hi hthread
  · refine h.step_of_fits rfl rfl
      (fun j => (h.fits_of hcaller j).elsewhere nofun nofun nofun) (fun _ => .inr ?_)
      (fun hstarted' => absurd hstarted' (by simp [throw, hstarted])) nofun h.harmless
    rcases hstarts with hcollects | ⟨-, hspoilt⟩
    · rcases Nat.eq_zero_or_pos i with hzero | hpos
      · exact ⟨⟨i, hi⟩, hzero, hthread⟩
      · exact ⟨⟨0, h.some_thread⟩, rfl, hcollects.started _ hpos⟩
    · exact hspoilt
  · have hcollects : s.Collects i := by
      rcases hstarts with hcollects | ⟨rfl, j, hj, hspoilt⟩
      · exact hcollects
      · obtain rfl : j = ⟨0, hi⟩ := Fin.ext hj
        exact absurd hspoilt hthread
    refine h.step_of_fits rfl rfl 
      (Fits.turn (h.fits_of hcaller) (fun j hj => Function.update_of_ne hj ..) (.inl rfl) (.inr rfl)
        nofun ?_)
      (fun _ => ⟨⟨hcollects.le, hcollects.loops, fun j hj => ?_⟩, by simp [setThread]⟩)
      (fun hstarted' => absurd hstarted' (by simp [setThread, hstarted])) nofun h.harmless
    · obtain ⟨hdestroyed, hfits⟩ := h.fits_of hcaller ⟨i, hi⟩
      change Fits _ _ (Function.update s.threads _ _ _)
      rw [Function.update_self]
      have hleft : (s.threads ⟨i, hi⟩).destroyed = false := by
        by_contra hdestroyed'
        exact absurd (hdestroyed (by simpa using hdestroyed')).1 nofun
      refine ⟨fun hdestroyed' => absurd hdestroyed' (by simp [hleft]), ?_⟩
      cases hmain : (s.threads ⟨i, hi⟩).main <;> simp_all [GroupCaller.awaits]
    · have hne : j ≠ ⟨i, hi⟩ := fun heq => by simp [heq] at hj
      simpa [setThread, hne] using hcollects.started j hj
  · have him : m ≤ i := not_lt.mp hi
    refine h.step_of_fits rfl rfl
      (fun j => (h.fits_of hcaller j).elsewhere nofun nofun nofun) nofun
      (fun _ => ⟨?_, rfl⟩) nofun h.harmless
    rcases hstarts with hcollects | ⟨rfl, -⟩
    · rw [hcollects.loops, le_antisymm hcollects.le him]
    · exact absurd h.some_thread (by omega)

theorem Sound.collects (h : Sound s) {caller : GroupCaller m} (hcaller : s.caller = caller)
    (hstart : caller.inStart = true) (hi : caller.concerns = some i) :
    s.started = false ∧ s.Collects i ∧ (s.threads i).started = true := by
  have hstarted : s.started = false := by
    by_contra hstarted
    have hloops := (h.loops (by simpa using hstarted)).2
    rw [hcaller, hstart] at hloops
    cases hloops
  have hstarts := h.starts hstarted
  unfold StartFits at hstarts
  rw [hcaller] at hstarts
  cases caller <;> cases hstart <;> cases hi <;> exact ⟨hstarted, hstarts⟩

theorem Fits.spawning (h : Fits (.spawning i) i (s.threads i)) :
    (s.threads i).main = .unspawned ∧ (s.threads i).quit = false ∧
      (s.threads i).destroyed = false := by
  obtain ⟨hdestroyed, h⟩ := h
  have hleft : (s.threads i).destroyed = false := by
    by_contra hdestroyed'
    exact absurd (hdestroyed (by simpa using hdestroyed')).1 nofun
  cases hmain : (s.threads i).main <;> simp_all [GroupCaller.awaits, GroupCaller.asks]

theorem Sound.spawn (h : Sound s) (hcaller : s.caller = .spawning i) (error : Option String) :
    Sound (s.spawn i error) := by
  obtain ⟨hstarted, hcollects, hthread⟩ := h.collects hcaller rfl rfl
  obtain ⟨hmain, hquit, hleft⟩ := (h.fits_of hcaller i).spawning
  cases error with
  | none =>
    have hnot : (s.spawn i none).started ≠ true := by
      simp [EventLoopGroup.spawn, setMain, setThread, hstarted]
    refine h.step_of_fits rfl rfl
      (Fits.turn (h.fits_of hcaller) (fun j hj => Function.update_of_ne hj ..) (.inr rfl) (.inr rfl)
        nofun ?_)
      (fun _ => ⟨hcollects.of_started rfl fun j => ?_, ?_⟩) (fun hstarted => absurd hstarted hnot)
      nofun h.harmless
    · change Fits _ _ (Function.update s.threads _ _ _)
      rw [Function.update_self]
      exact ⟨fun hdestroyed => absurd hdestroyed (by simp [hleft]), hthread, hleft, hquit,
        decide_eq_true rfl⟩
    · exact (setMain_started .constructing).symm ▸ id
    · exact (setMain_started .constructing).trans hthread
  | some what =>
    have hnot : (s.spawn i (some what)).started ≠ true := by
      simp [EventLoopGroup.spawn, throw, hstarted]
    refine h.step_of_fits rfl rfl
      (Fits.turn (h.fits_of hcaller) (fun _ _ => rfl) (.inr rfl) (.inl rfl) nofun ?_)
      (fun _ => .inr (hcollects.spoilt hthread)) (fun hstarted => absurd hstarted hnot) nofun
      h.harmless
    refine ⟨fun hdestroyed => absurd hdestroyed (by simp [EventLoopGroup.spawn, throw, hleft]), ?_⟩
    simp [EventLoopGroup.spawn, throw, hmain, hquit, GroupCaller.awaits]

theorem Fits.awaited {caller : GroupCaller m} {thread : EventLoopThread}
    (h : Fits caller i thread) (hcaller : caller.inStart = true)
    (hawaits : caller.awaits i = true) :
    thread.destroyed = false ∧ thread.quit = false ∧ thread.started = true ∧
      (thread.main = .constructing ∨ thread.main = .constructed ∨ thread.main = .notifying ∨
        thread.main = .looping ∧ caller ≠ .waiting i) := by
  obtain ⟨hdestroyed, h⟩ := h
  have hleft : thread.destroyed = false := by
    by_contra hdestroyed'
    have hdestructor := (hdestroyed (by simpa using hdestroyed')).1
    cases caller <;> simp_all [GroupCaller.inStart, GroupCaller.inDestructor]
  have hasks : caller.asks i = false := by
    cases caller <;> simp_all [GroupCaller.awaits, GroupCaller.asks]
  have hjoining : caller ≠ .joining i := by
    rintro rfl
    cases hawaits
  cases hmain : thread.main <;> simp_all

theorem Sound.wait (h : Sound s) (hcaller : s.caller = .locking i) : Sound (s.wait i) := by
  obtain ⟨hstarted, hcollects, hthread⟩ := h.collects hcaller rfl rfl
  obtain ⟨hleft, hquit, -, hmain⟩ := (h.fits_of hcaller i).awaited rfl (decide_eq_true rfl)
  unfold EventLoopGroup.wait
  split
  · rename_i hpublished
    refine h.step_of_fits rfl rfl
      (Fits.turn (h.fits_of hcaller) (fun _ _ => rfl) (.inr rfl) (.inl rfl) nofun
        ⟨fun hdestroyed => absurd hdestroyed (by simp [hleft]), ?_⟩)
      (fun _ => .inl ⟨i.isLt, ?_, fun j hj => ?_⟩)
      (fun hstarted' => absurd hstarted' (by simp [hstarted])) nofun h.harmless
    · rcases hmain with hmain | hmain | hmain | ⟨hmain, -⟩ <;>
        simp_all [ThreadMain.published, GroupCaller.asks]
    · rw [List.map_append, hcollects.loops, List.range_succ]
      rfl
    · rcases Nat.lt_succ_iff_lt_or_eq.mp hj with hlt | heq
      · exact hcollects.started j hlt
      · exact Fin.ext heq ▸ hthread
  · rename_i hunpublished
    refine h.step_of_fits rfl rfl
      (Fits.turn (h.fits_of hcaller) (fun _ _ => rfl) (.inr rfl) (.inr rfl) nofun
        ⟨fun hdestroyed => absurd hdestroyed (by simp [hleft]), ?_⟩)
      (fun _ => ⟨hcollects.of_started rfl fun _ => id, hthread⟩)
      (fun hstarted' => absurd hstarted' (by simp [hstarted])) nofun h.harmless
    rcases hmain with hmain | hmain | hmain | ⟨hmain, -⟩ <;>
      simp_all [ThreadMain.published, GroupCaller.awaits]

theorem Sound.wakeUp (h : Sound s) (hcaller : s.caller = .waiting i) :
    Sound { s with caller := .locking i } := by
  obtain ⟨hstarted, hcollects, hthread⟩ := h.collects hcaller rfl rfl
  obtain ⟨hleft, hquit, -, hmain⟩ := (h.fits_of hcaller i).awaited rfl (decide_eq_true rfl)
  refine h.step_of_fits rfl rfl
    (Fits.turn (h.fits_of hcaller) (fun _ _ => rfl) (.inr rfl) (.inr rfl) nofun
      ⟨fun hdestroyed => absurd hdestroyed (by simp [hleft]), ?_⟩)
    (fun _ => ⟨hcollects.of_started rfl fun _ => id, hthread⟩)
    (fun hstarted' => absurd hstarted' (by simp [hstarted])) nofun h.harmless
  rcases hmain with hmain | hmain | hmain | ⟨hmain, hne⟩
  · rw [hmain]
    exact ⟨hthread, hleft, hquit, decide_eq_true rfl⟩
  · rw [hmain]
    exact ⟨hthread, hleft, hquit, decide_eq_true rfl⟩
  · rw [hmain]
    exact ⟨hthread, hleft, hquit, nofun⟩
  · exact absurd rfl hne

theorem wrap (hm : 0 < m) (n : Nat) :
    (if m ≤ n % m + 1 then 0 else n % m + 1) = (n + 1) % m := by
  rw [← Nat.mod_add_mod]
  split_ifs with hlast
  · rw [show n % m + 1 = m from le_antisymm (Nat.mod_lt n hm) hlast, Nat.mod_self]
  · rw [Nat.mod_eq_of_lt (not_le.mp hlast)]

theorem Sound.nextLoop (h : Sound s) (hcaller : s.caller = .idle) : Sound s.nextLoop := by
  have hthrow : Sound (s.throw "EventLoopGroup eror") := by
    refine h.step_of_fits rfl rfl (h.fits_of hcaller) (fun hstarted => ?_)
      (fun hstarted => ⟨(h.loops hstarted).1, rfl⟩) nofun h.harmless
    have hstarts := h.starts hstarted
    unfold StartFits at hstarts
    rw [hcaller] at hstarts
    exact hstarts.imp (·.of_started rfl fun _ => id) (·.of_started fun _ => id)
  unfold EventLoopGroup.nextLoop
  split
  · exact hthrow
  · rename_i hready
    have hstarted : s.started = true := by
      by_contra hstarted
      exact hready (.inl (by simpa using hstarted))
    have hloops := (h.loops hstarted).1
    have hlength : s.loops.length = m := by simpa using congrArg List.length hloops
    have hindex : s.nextIndex < m := h.nextIndex ▸ Nat.mod_lt _ h.some_thread
    split
    · rename_i i hi
      have hval : i.val = s.nextIndex := by
        have hget := congrArg (·[s.nextIndex]?) hloops
        simpa [hi, hindex] using hget
      refine ⟨h.some_thread, h.fits, fun hnot => absurd hstarted (by simpa using hnot), h.loops,
        ?_, ?_, h.gone, h.harmless⟩
      · simp only [hlength, List.length_append, List.length_cons, List.length_nil]
        rw [h.nextIndex]
        exact wrap h.some_thread _
      · rw [List.map_append, List.length_append, List.length_singleton, List.range_succ,
          List.map_append, h.handedOut, List.map_singleton, List.map_singleton, hval, h.nextIndex]
    · rename_i hnone
      exact absurd (List.getElem?_eq_none_iff.mp hnone) (by omega)

theorem Sound.destructs (h : Sound s) {threads : Fin m → EventLoopThread} {caller : GroupCaller m}
    (hfits : ∀ i, Fits caller i (threads i)) (hdestructor : caller.inDestructor = true)
    (hgone : caller = .destroyed → ∀ i, (threads i).destroyed = true) :
    Sound { s with threads := threads, caller := caller } := by
  refine h.step_of_fits rfl rfl hfits (fun _ => ?_) (fun hstarted => ⟨(h.loops hstarted).1, ?_⟩)
    hgone h.harmless
  · unfold StartFits
    dsimp only
    split <;> trivial
  · show caller.inStart = false
    cases caller with
    | starting | spawning | locking | waiting => cases hdestructor
    | _ => rfl

theorem Sound.lock (h : Sound s) (hcaller : s.caller = .destroying)
    (hleft : (s.threads i).destroyed = false) : Sound { s with caller := .locked i } := by
  refine h.destructs (Fits.turn (h.fits_of hcaller) (fun _ _ => rfl) (.inl rfl) (.inr rfl)
    (fun _ => rfl) ⟨fun hdestroyed => absurd hdestroyed (by simp [hleft]), ?_⟩) rfl nofun
  obtain ⟨-, hfits⟩ := h.fits_of hcaller i
  cases hmain : (s.threads i).main <;> simp_all [GroupCaller.awaits, GroupCaller.asks]

theorem Fits.not_destroyed {caller : GroupCaller m} {thread : EventLoopThread}
    (h : Fits caller i thread) (hi : caller.concerns = some i) : thread.destroyed = false := by
  by_contra hdestroyed
  exact (h.1 (by simpa using hdestroyed)).2 hi

theorem Sound.quit (h : Sound s) (hcaller : s.caller = .locked i) : Sound (s.quit i) := by
  have hfits := h.fits_of hcaller i
  have hleft := hfits.not_destroyed rfl
  obtain ⟨-, hfits⟩ := hfits
  unfold EventLoopGroup.quit
  split
  · rename_i hpublished
    refine h.destructs (Fits.turn (h.fits_of hcaller)
      (fun j hj => Function.update_of_ne hj ..) (.inr rfl) (.inr rfl) (fun _ => rfl) ?_) rfl nofun
    change Fits _ _ (Function.update s.threads _ _ _)
    rw [Function.update_self]
    refine ⟨fun hdestroyed => absurd hdestroyed (by simp [hleft]), ?_⟩
    cases hmain : (s.threads i).main <;> simp_all [ThreadMain.published, GroupCaller.asks]
  · rename_i hunpublished
    refine h.destructs (Fits.turn (h.fits_of hcaller) (fun _ _ => rfl) (.inr rfl) (.inr rfl)
      (fun _ => rfl) ⟨fun hdestroyed => absurd hdestroyed (by simp [hleft]), ?_⟩) rfl nofun
    cases hmain : (s.threads i).main <;>
      simp_all [ThreadMain.published, GroupCaller.awaits]

/-- The mutex is still held, so the loop is still there. -/
theorem Sound.wakeup (h : Sound s) (hcaller : s.caller = .quitting i) : Sound (s.wakeup i) := by
  have hfits := h.fits_of hcaller i
  have hleft := hfits.not_destroyed rfl
  obtain ⟨-, hfits⟩ := hfits
  have halive : (s.threads i).main.alive = true := by
    cases hmain : (s.threads i).main <;> simp_all [ThreadMain.alive, GroupCaller.awaits]
  unfold EventLoopGroup.wakeup
  rw [if_pos halive]
  refine h.destructs (Fits.turn (h.fits_of hcaller) (fun _ _ => rfl) (.inr rfl) (.inr rfl)
    (fun _ => rfl) ⟨fun hdestroyed => absurd hdestroyed (by simp [hleft]), ?_⟩) rfl nofun
  cases hmain : (s.threads i).main <;> simp_all [GroupCaller.awaits, GroupCaller.asks]

theorem Sound.join (h : Sound s) (hcaller : s.caller = .joining i) (ht : s.join i = some t) :
    Sound t := by
  obtain ⟨hmain, ht⟩ := Option.ite_none_right_eq_some.mp ht
  cases ht
  refine h.destructs (Fits.turn (h.fits_of hcaller)
    (fun j hj => Function.update_of_ne hj ..) (.inr rfl) (.inl rfl) (fun _ => rfl) ?_) rfl nofun
  obtain ⟨-, hfits⟩ := h.fits_of hcaller i
  change Fits _ _ (Function.update s.threads _ _ _)
  rw [Function.update_self]
  refine ⟨fun _ => ⟨rfl, nofun⟩, ?_⟩
  rcases hmain with hmain | hmain
  · simp_all [GroupCaller.awaits]
  · simp_all

theorem Sound.destroyed (h : Sound s) (hcaller : s.caller = .destroying)
    (hall : ∀ i, (s.threads i).destroyed = true) : Sound { s with caller := .destroyed } :=
  h.destructs (fun i => (h.fits_of hcaller i).elsewhere nofun nofun fun _ => rfl) rfl
    fun _ => hall

theorem Sound.setMain (h : Sound s) {main : ThreadMain}
    (hfits : Fits s.caller i { s.threads i with main := main }) : Sound (s.setMain i main) := by
  refine h.step_of_fits rfl rfl (fun j => ?_)
    (fun hstarted => (h.starts hstarted).of_started rfl rfl fun j hj => ?_) h.loops
    (fun hgone j => ?_) h.harmless
  · change Fits _ _ (Function.update s.threads _ _ _)
    rw [Function.update_apply]
    split_ifs with hj
    · exact hj ▸ hfits
    · exact h.fits j
  · exact (setMain_started main).trans hj
  · have hdestroyed := h.gone hgone j
    by_cases hj : j = i
    · subst hj
      simpa [EventLoopGroup.setMain, setThread] using hdestroyed
    · simpa [EventLoopGroup.setMain, setThread, hj] using hdestroyed

theorem Sound.notifyOne (h : Sound s) (hmain : (s.threads i).main = .notifying) :
    Sound (s.notifyOne i) := by
  obtain ⟨hdestroyed, hfits⟩ := h.fits i
  rw [hmain] at hfits
  obtain ⟨hstarted, hleft, hquit, hspawning⟩ := hfits
  by_cases hcaller : s.caller = .waiting i
  · have hwoken := h.wakeUp hcaller
    have hnotified : Sound ({ s with caller := .locking i }.setMain i .looping) := by
      refine hwoken.setMain ⟨fun heq => absurd heq (by simp [hleft]), hstarted, hleft, ?_,
        nofun, nofun⟩
      exact hquit.trans (by rw [hcaller]; rfl)
    unfold EventLoopGroup.notifyOne
    rw [if_pos hcaller]
    exact hnotified
  · unfold EventLoopGroup.notifyOne
    rw [if_neg hcaller]
    exact h.setMain ⟨hdestroyed, hstarted, hleft, hquit, hspawning, hcaller⟩

theorem Sound.threadStep (h : Sound s) {a : ThreadAction} (ht : s.threadStep i a = some t) :
    Sound t := by
  obtain ⟨hdestroyed, hfits⟩ := h.fits i
  cases a with
  | construct throws =>
    obtain ⟨hmain, ht⟩ := Option.ite_none_right_eq_some.mp ht
    cases ht
    rw [hmain] at hfits
    cases throws
    · exact h.setMain ⟨hdestroyed, hfits⟩
    · exact ⟨h.some_thread, h.fits, fun hnot => (h.starts hnot).of_started rfl rfl fun _ => id,
        h.loops, h.nextIndex, h.handedOut, h.gone, h.harmless⟩
  | publish =>
    obtain ⟨⟨hmain, -⟩, ht⟩ := Option.ite_none_right_eq_some.mp ht
    cases ht
    rw [hmain] at hfits
    obtain ⟨hstarted, hleft, hquit, hawaits⟩ := hfits
    refine h.setMain ⟨hdestroyed, hstarted, hleft, ?_, ?_⟩
    · cases hcaller : s.caller <;> simp_all [GroupCaller.awaits, GroupCaller.asks]
    · rintro hcaller
      rw [hcaller] at hawaits
      cases hawaits
  | notifyOne =>
    obtain ⟨hmain, ht⟩ := Option.ite_none_right_eq_some.mp ht
    cases ht
    exact h.notifyOne hmain
  | leave =>
    obtain ⟨⟨hmain, hquit⟩, ht⟩ := Option.ite_none_right_eq_some.mp ht
    cases ht
    rw [hmain] at hfits
    obtain ⟨hstarted, hleft, hasks, -⟩ := hfits
    exact h.setMain ⟨hdestroyed, hstarted, hleft, hquit, hasks ▸ hquit⟩
  | clear =>
    obtain ⟨⟨hmain, hholds⟩, ht⟩ := Option.ite_none_right_eq_some.mp ht
    cases ht
    rw [hmain] at hfits
    obtain ⟨hstarted, hleft, -, hasks⟩ := hfits
    refine h.setMain ⟨hdestroyed, hstarted, hleft, ?_⟩
    cases hcaller : s.caller <;> simp_all [GroupCaller.asks, GroupCaller.holds]
  | exit =>
    obtain ⟨hmain, ht⟩ := Option.ite_none_right_eq_some.mp ht
    cases ht
    rw [hmain] at hfits
    obtain ⟨hstarted, -, hcaller⟩ := hfits
    exact h.setMain ⟨hdestroyed, hstarted, by rw [hcaller]; exact nofun, .inr hcaller⟩

theorem Sound.step (h : Sound s) (ht : s.step a = some t) : Sound t := by
  cases step_move ht with
  | start hcaller => exact h.start hcaller
  | startLoop hcaller => exact h.startLoop hcaller
  | spawn hcaller => exact h.spawn hcaller _
  | wait hcaller => exact h.wait hcaller
  | wakeUp hcaller => exact h.wakeUp hcaller
  | nextLoop hcaller => exact h.nextLoop hcaller
  | destroy hcaller =>
    exact h.destructs (fun i => (h.fits_of hcaller i).elsewhere nofun nofun nofun) rfl nofun
  | lock hcaller hleft => exact h.lock hcaller hleft
  | quit hcaller => exact h.quit hcaller
  | wakeup hcaller => exact h.wakeup hcaller
  | join hcaller ht => exact h.join hcaller ht
  | destroyed hcaller hall => exact h.destroyed hcaller hall
  | thread ht => exact h.threadStep ht

theorem reachable_sound (h : Reachable (system m) s) : Sound s :=
  h.invariant (fun _ => new_sound) fun _ _ _ _ ih ht => ih.step ht

theorem spawned_of_step (ht : s.step a = some t) (hi : (s.threads i).main ≠ .unspawned) :
    (t.threads i).main ≠ .unspawned := by
  have hset : ∀ j (thread : EventLoopThread), thread.main ≠ .unspawned ∨
      thread.main = (s.threads j).main →
      ((s.setThread j thread).threads i).main ≠ .unspawned := by
    intro j thread hthread
    by_cases hj : i = j
    · subst hj
      simpa [setThread] using hthread.elim id fun heq => heq ▸ hi
    · simpa [setThread, hj] using hi
  cases step_move ht with
  | start => unfold start; split <;> exact hi
  | startLoop => unfold startLoop; split_ifs; exacts [hi, hset _ _ (.inr rfl), hi]
  | @spawn _ error => cases error; exacts [hset _ _ (.inl nofun), hi]
  | wait => unfold wait; split <;> exact hi
  | wakeUp | destroy | lock | destroyed => exact hi
  | nextLoop => unfold nextLoop; split; exacts [hi, by split <;> exact hi]
  | quit => unfold quit; split; exacts [hset _ _ (.inr rfl), hi]
  | wakeup => unfold wakeup; split <;> exact hi
  | join _ ht =>
    obtain ⟨-, ht⟩ := Option.ite_none_right_eq_some.mp ht
    cases ht
    exact hset _ _ (.inr rfl)
  | @thread _ b _ ht =>
    cases b with
    | construct throws =>
      obtain ⟨-, ht⟩ := Option.ite_none_right_eq_some.mp ht
      cases ht
      cases throws
      · exact hset _ _ (.inl nofun)
      · exact hi
    | publish | notifyOne | leave | clear | exit =>
      obtain ⟨-, ht⟩ := Option.ite_none_right_eq_some.mp ht
      cases ht
      exact hset _ _ (.inl nofun)

theorem loops_of_step (ht : s.step a = some t) (hi : i ∈ t.loops) :
    i ∈ s.loops ∨ (s.threads i).main.published = true := by
  cases step_move ht with
  | start => unfold start at hi; split at hi <;> exact .inl hi
  | startLoop => unfold startLoop at hi; split_ifs at hi <;> exact .inl hi
  | @spawn _ error => cases error <;> exact .inl hi
  | wait =>
    unfold wait at hi
    split at hi
    · rename_i hpublished
      rcases List.mem_append.mp hi with hi | hi
      · exact .inl hi
      · exact .inr (List.mem_singleton.mp hi ▸ hpublished)
    · exact .inl hi
  | wakeUp | destroy | lock | destroyed => exact .inl hi
  | nextLoop =>
    unfold nextLoop at hi
    split at hi
    · exact .inl hi
    · split at hi <;> exact .inl hi
  | quit => unfold quit at hi; split at hi <;> exact .inl hi
  | wakeup => unfold wakeup at hi; split at hi <;> exact .inl hi
  | join _ ht =>
    obtain ⟨-, ht⟩ := Option.ite_none_right_eq_some.mp ht
    cases ht
    exact .inl hi
  | @thread _ b _ ht =>
    cases b <;> obtain ⟨-, ht⟩ := Option.ite_none_right_eq_some.mp ht <;> cases ht
    · split at hi <;> exact .inl hi
    all_goals exact .inl hi

theorem reachable_spawned (h : Reachable (system m) s) :
    ∀ i ∈ s.loops, (s.threads i).main ≠ .unspawned := by
  refine h.invariant (P := fun s => ∀ i ∈ s.loops, (s.threads i).main ≠ .unspawned)
    (fun s hs i hi => ?_) fun s a t _ ih ht i hi => ?_
  · simp only [system, new] at hs
    split at hs
    · cases hs
    · cases hs
      cases hi
  · rcases loops_of_step ht hi with hi | hpublished
    · exact spawned_of_step ht (ih i hi)
    · exact spawned_of_step ht fun hmain => by
        rw [hmain] at hpublished
        cases hpublished

theorem count_turns (hm : 0 < m) {turns : List (Fin m)}
    (h : turns.map Fin.val = (List.range turns.length).map (· % m)) (i : Fin m) :
    turns.count i = turns.length / m + if i.val < turns.length % m then 1 else 0 := by
  have hshare := Nat.count_modEq_card turns.length hm i.val
  rw [Nat.mod_eq_of_lt i.isLt] at hshare
  have hval : turns.count i = (turns.map Fin.val).count i.val :=
    (List.count_map_of_injective _ _ Fin.val_injective _).symm
  rw [hval, h, List.count_eq_countP, List.countP_map, ← hshare, Nat.count]
  refine List.countP_congr fun n _ => ?_
  simp [Nat.ModEq, Nat.mod_eq_of_lt i.isLt]

structure Serves (s : EventLoopGroup m) : Prop where
  harmless : s.fault = false
  /-- Once `start` has returned, `loops_` are the loops of all threads, in order. -/
  loops : s.started = true → s.loops = List.finRange m
  /-- They run until the destructor asks them to quit. -/
  running : s.started = true → s.caller.inDestructor = false → ∀ i,
    (s.threads i).main.published = true ∧ (s.threads i).quit = false
  turns : ∀ i, s.handedOut.count i =
    s.handedOut.length / m + if i.val < s.handedOut.length % m then 1 else 0
  /-- No thread outlives its `EventLoopThread`. -/
  joined : ∀ i, (s.threads i).destroyed = true →
    (s.threads i).main = .unspawned ∨ (s.threads i).main = .exited
  gone : s.caller = .destroyed → ∀ i, (s.threads i).destroyed = true

theorem group_serves (h : Reachable (system m) s) : Serves s := by
  have hsound := reachable_sound h
  have hspawned := reachable_spawned h
  have hloops : s.started = true → s.loops = List.finRange m := fun hstarted =>
    List.map_injective_iff.mpr Fin.val_injective (by simpa using (hsound.loops hstarted).1)
  refine ⟨hsound.harmless, hloops, fun hstarted hcaller i => ?_,
    count_turns hsound.some_thread hsound.handedOut, fun i hdestroyed => ?_, hsound.gone⟩
  · have hstart := (hsound.loops hstarted).2
    have hi := hspawned i (by simp [hloops hstarted])
    have hasks : s.caller.asks i = false ∧ s.caller.awaits i = false ∧ s.caller ≠ .joining i := by
      cases hc : s.caller <;>
        simp_all [GroupCaller.inStart, GroupCaller.inDestructor, GroupCaller.asks,
          GroupCaller.awaits]
    obtain ⟨hdestroyed, hfits⟩ := hsound.fits i
    cases hmain : (s.threads i).main <;> simp_all [ThreadMain.published]
  · obtain ⟨-, hfits⟩ := hsound.fits i
    cases hmain : (s.threads i).main <;> simp_all

def freshGroup : EventLoopGroup 2 :=
  ⟨fun _ => ⟨false, .unspawned, false, false⟩, [], 0, false, .idle, [], [], false, false⟩

def firstThread : Fin 2 := ⟨0, Nat.two_pos⟩

def secondThread : Fin 2 := ⟨1, Nat.one_lt_two⟩

def startActions : List (Action 2) :=
  [.start, .startLoop, .spawn none, .wait, .wakeUp, .wait, .thread firstThread (.construct false),
    .thread firstThread .publish, .thread firstThread .notifyOne, .wait, .startLoop, .spawn none,
    .thread secondThread (.construct false), .thread secondThread .publish, .wait, .startLoop]

def startedGroup : EventLoopGroup 2 :=
  (run (system 2) freshGroup (startActions ++ [.nextLoop, .nextLoop, .nextLoop])).get (by decide)

theorem startedGroup_serves :
    startedGroup.started = true ∧ startedGroup.handedOut = [0, 1, 0] ∧ Serves startedGroup :=
  ⟨by decide, by decide, group_serves (Reachable.run (.start rfl) (Option.some_get _).symm)⟩

/-! How much is left of a member function that has been called, and of the threads. -/

section Rank

/-- The notification leaves room for the caller that it wakes up. -/
def mainRank : ThreadMain → Nat
  | .unspawned => 8
  | .constructing => 7
  | .constructed => 6
  | .notifying => 5
  | .looping => 3
  | .leaving => 2
  | .cleared => 1
  | .exited => 0

def callerRank : GroupCaller m → Nat
  | .spawning _ => 5
  | .locking _ => 4
  | .waiting _ | .destroying => 3
  | .starting _ | .locked _ => 2
  | .quitting _ => 1
  | .idle | .joining _ | .destroyed => 0

def threadRank (thread : EventLoopThread) : Nat :=
  mainRank thread.main + (if thread.started then 0 else 4) + if thread.destroyed then 0 else 4

def rank (s : EventLoopGroup m) : Nat :=
  ∑ i, threadRank (s.threads i) + callerRank s.caller + (!s.terminated).toNat

/-- What a step may add: the calls of member functions, and waking up by oneself. -/
def Action.cost : Action m → Nat
  | .start => 3
  | .nextLoop => 1
  | .destroy => 4
  | .wakeUp => 2
  | _ => 0

end Rank

end EventLoopGroup

end CppSearchServer.Net
