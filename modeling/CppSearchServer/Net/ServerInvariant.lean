import CppSearchServer.Net.ConnectionInvariant
import CppSearchServer.Net.Server
import Mathlib.Data.List.Nodup

/-! What keeps descriptor numbers and connections apart.
An open descriptor has one owner. What the loop and epoll hold for it follows from
the calls its owner has made, so a number that is free, or belongs to a connection
not yet established, is registered nowhere. An entry of the batch either still
belongs to whoever was registered, or the swap of the tasks is over and nobody is
registered under its number before the batch ends. -/

namespace CppSearchServer.Net

open Library.TransitionSystem

def Stage.entry (id : Nat) : Stage → Option (Owner × EventMask)
  | .registered events => some (.connection id, events)
  | _ => none

def LoopTask.establishes : LoopTask → Option (Int × Nat)
  | .establish fd id => some (fd, id)
  | .finishRequest .. => none

namespace Server

def upcoming (s : Server) : List (Int × Nat) :=
  (s.tasks ++ s.pendingTasks).filterMap LoopTask.establishes ++ s.acceptor.toList

def remaining (s : Server) (id : Nat) : List Call := if id = s.active then s.todo else []

def expected (s : Server) (fd : Int) : Option (Owner × EventMask) :=
  match s.opened fd with
  | some .wakeup => some (.wakeup, readInterest)
  | some (.connection id) => (stageAfter fd (s.executed id)).bind (Stage.entry id)
  | some .foreign | none => none

structure Ownership (settings : Settings) (s : Server) : Prop where
  owner : ∀ fd id, s.opened fd = some (.connection id) → s.accepted[id]? = some fd ∧ id ∉ s.closed
  wakeup : ∀ fd, s.opened fd = some .wakeup ↔ fd = settings.wakeupFd
  nonneg : ∀ fd ∈ s.accepted, 0 ≤ fd
  closed_nodup : s.closed.Nodup
  closed_lt : ∀ id ∈ s.closed, id < s.accepted.length
  upcoming : ∀ p ∈ s.upcoming, s.opened p.1 = some (.connection p.2) ∧ s.connections p.2 = none
  upcoming_nodup : s.upcoming.Nodup

structure Established (s : Server) (id : Nat) (fd : Int) (c : TcpConnection) : Prop where
  accepted : s.accepted[id]? = some fd
  sound : c.Sound fd
  calls : c.calls = s.executed id ++ s.remaining id
  opened : s.opened fd = some (.connection id) ↔ stageAfter fd (s.executed id) ≠ some .closed

structure Tables (s : Server) : Prop where
  channels : ∀ fd, s.channels fd = (s.expected fd).map Prod.fst
  epoll : ∀ fd, s.epoll fd = (s.expected fd).map Prod.snd
  fresh : ∀ id, s.connections id = none → s.executed id = []
  established : ∀ id c, s.connections id = some c → ∃ fd, s.Established id fd c
  active : s.todo ≠ [] → ∃ c, s.connections s.active = some c

/-- The entry still belongs to its registrant. Write readiness was asked for by a
connection with a response to send, which keeps it until this entry is taken. -/
inductive Current (settings : Settings) (s : Server) (event : EpollEvent) : Prop where
  | wakeup : event.fd = settings.wakeupFd → event.registrant = some .wakeup →
      Current settings s event
  | connection {id : Nat} {c : TcpConnection} :
      event.registrant = some (.connection id) → s.opened event.fd = some (.connection id) →
      s.connections id = some c →
      (event.revents.has EPOLLOUT = true → c.responseReady = true ∨ c.fd < 0) →
      Current settings s event

/-- The registrant is gone, and nobody is registered under its number before the
next swap. -/
structure Stale (settings : Settings) (s : Server) (event : EpollEvent) : Prop where
  not_wakeup : event.fd ≠ settings.wakeupFd
  swapped : ∀ other ∈ s.batch, other.fd ≠ settings.wakeupFd
  unregistered : ∀ id, s.opened event.fd = some (.connection id) → s.connections id = none
  no_task : ∀ id, .establish event.fd id ∉ s.tasks

structure Batch (settings : Settings) (s : Server) : Prop where
  outside : s.phase ≠ .dispatching → s.phase ≠ .runningTasks → s.batch = []
  tasks : s.phase ≠ .runningTasks → s.tasks = []
  nodup : (s.batch.map EpollEvent.fd).Nodup
  taken : s.phase = .dispatching → s.todo ≠ [] →
    ∀ event ∈ s.batch, s.accepted[s.active]? ≠ some event.fd
  swapped : s.phase = .runningTasks → ∀ event ∈ s.batch, event.fd ≠ settings.wakeupFd
  entries : ∀ event ∈ s.batch, s.Current settings event ∨ s.Stale settings event

structure Sound (settings : Settings) (s : Server) : Prop where
  ownership : Ownership settings s
  tables : Tables s
  batch : Batch settings s

variable {settings : Settings} {s t : Server} {id : Nat} {fd : Int}

theorem mem_upcoming_of_tasks (h : .establish fd id ∈ s.tasks) : (fd, id) ∈ s.upcoming :=
  List.mem_append_left _ (List.mem_filterMap.mpr ⟨_, List.mem_append_left _ h, rfl⟩)

theorem expected_wakeup (h : s.opened fd = some .wakeup) :
    s.expected fd = some (.wakeup, readInterest) := by
  simp [expected, h]

theorem expected_connection (h : s.opened fd = some (.connection id)) :
    s.expected fd = (stageAfter fd (s.executed id)).bind (Stage.entry id) := by
  simp [expected, h]

theorem expected_none (hwakeup : s.opened fd ≠ some .wakeup)
    (hfresh : ∀ id, s.opened fd = some (.connection id) → s.executed id = []) :
    s.expected fd = none := by
  unfold expected
  split
  · exact absurd ‹_› hwakeup
  · rename_i id hopened
    rw [hfresh id hopened]
    rfl
  · rfl
  · rfl

theorem new_expected (now : Nat) (peers : Nat → Peer) (files : Int → Bool) (fd : Int) :
    (new settings now peers files).expected fd =
      if fd = settings.wakeupFd then some (.wakeup, readInterest) else none := by
  by_cases hfd : fd = settings.wakeupFd
  · simp [expected, new, hfd]
  · by_cases hfile : files fd <;> simp [expected, new, hfd, hfile]

theorem new_sound (now : Nat) (peers : Nat → Peer) (files : Int → Bool) :
    Sound settings (new settings now peers files) where
  ownership :=
    { owner := fun fd id h => by
        simp only [new] at h
        split_ifs at h <;> cases h
      wakeup := fun fd => by
        simp only [new]
        split_ifs <;> simp_all
      nonneg := by simp [new]
      closed_nodup := List.nodup_nil
      closed_lt := by simp [new]
      upcoming := by simp [new, Server.upcoming]
      upcoming_nodup := List.nodup_nil }
  tables :=
    { channels := fun fd => by
        rw [new_expected, apply_ite (Option.map Prod.fst)]
        rfl
      epoll := fun fd => by
        rw [new_expected, apply_ite (Option.map Prod.snd)]
        rfl
      fresh := fun _ _ => rfl
      established := fun _ _ h => by cases h
      active := fun h => absurd rfl h }
  batch :=
    { outside := fun _ _ => rfl
      tasks := fun _ => rfl
      nodup := List.nodup_nil
      taken := fun h => by cases h
      swapped := fun h => by cases h
      entries := by simp [new] }

/-! Steps that leave all an assertion reads as it was. -/

theorem Ownership.congr (h : Ownership settings s) (hopened : t.opened = s.opened)
    (haccepted : t.accepted = s.accepted) (hclosed : t.closed = s.closed)
    (hupcoming : t.upcoming = s.upcoming) (hconnections : t.connections = s.connections) :
    Ownership settings t := by
  constructor
  · rw [hopened, haccepted, hclosed]; exact h.owner
  · rw [hopened]; exact h.wakeup
  · rw [haccepted]; exact h.nonneg
  · rw [hclosed]; exact h.closed_nodup
  · rw [hclosed, haccepted]; exact h.closed_lt
  · rw [hupcoming, hopened, hconnections]; exact h.upcoming
  · rw [hupcoming]; exact h.upcoming_nodup

theorem Tables.congr (h : Tables s) (hopened : t.opened = s.opened)
    (haccepted : t.accepted = s.accepted) (hchannels : t.channels = s.channels)
    (hepoll : t.epoll = s.epoll) (hconnections : t.connections = s.connections)
    (hactive : t.active = s.active) (htodo : t.todo = s.todo)
    (hexecuted : t.executed = s.executed) : Tables t := by
  have hexpected : t.expected = s.expected := by
    funext fd
    rw [expected, expected, hopened, hexecuted]
  constructor
  · rw [hchannels, hexpected]; exact h.channels
  · rw [hepoll, hexpected]; exact h.epoll
  · rw [hconnections, hexecuted]; exact h.fresh
  · intro id c hc
    obtain ⟨fd, hest⟩ := h.established id c (hconnections ▸ hc)
    refine ⟨fd, haccepted ▸ hest.accepted, hest.sound, ?_, ?_⟩
    · rw [hexecuted, remaining, hactive, htodo]; exact hest.calls
    · rw [hopened, hexecuted]; exact hest.opened
  · rw [htodo, hactive, hconnections]; exact h.active

theorem Current.congr {event : EpollEvent} (h : s.Current settings event)
    (hopened : t.opened = s.opened) (hconnections : t.connections = s.connections) :
    t.Current settings event := by
  cases h with
  | wakeup hfd hregistrant => exact .wakeup hfd hregistrant
  | connection hregistrant howner hc hout =>
    exact .connection hregistrant (hopened ▸ howner) (hconnections ▸ hc) hout

theorem Batch.entries_of (h : Batch settings s) (hopened : t.opened = s.opened)
    (hconnections : t.connections = s.connections) (hbatch : t.batch ⊆ s.batch)
    (htasks : t.tasks ⊆ s.tasks) :
    ∀ event ∈ t.batch, t.Current settings event ∨ t.Stale settings event := by
  intro event hmem
  rcases h.entries event (hbatch hmem) with hcurrent | hstale
  · exact .inl (hcurrent.congr hopened hconnections)
  · exact .inr ⟨hstale.not_wakeup, fun other hother => hstale.swapped other (hbatch hother),
      by rw [hopened, hconnections]; exact hstale.unregistered,
      fun id htask => hstale.no_task id (htasks htask)⟩

theorem Batch.congr (h : Batch settings s) (hopened : t.opened = s.opened)
    (haccepted : t.accepted = s.accepted) (hconnections : t.connections = s.connections)
    (hactive : t.active = s.active) (htodo : t.todo = s.todo) (hphase : t.phase = s.phase)
    (hbatch : t.batch = s.batch) (htasks : t.tasks = s.tasks) : Batch settings t := by
  constructor
  · rw [hphase, hbatch]; exact h.outside
  · rw [hphase, htasks]; exact h.tasks
  · rw [hbatch]; exact h.nodup
  · rw [hphase, htodo, hbatch, haccepted, hactive]; exact h.taken
  · rw [hphase, hbatch]; exact h.swapped
  · exact h.entries_of hopened hconnections (fun _ hmem => hbatch ▸ hmem)
      (fun _ hmem => htasks ▸ hmem)

theorem Ownership.unique (h : Ownership settings s) {fd' : Int}
    (hfd : s.opened fd = some (.connection id)) (haccepted : s.accepted[id]? = some fd') :
    fd = fd' := by
  have := (h.owner fd id hfd).1
  simpa [this] using haccepted

theorem Ownership.upcoming_ne (h : Ownership settings s) {p : Int × Nat} {c : TcpConnection}
    (hp : p ∈ s.upcoming) (hfd : s.opened fd = some (.connection id))
    (hc : s.connections id = some c) : p.1 ≠ fd := by
  rintro rfl
  obtain ⟨howner, hnone⟩ := h.upcoming p hp
  obtain rfl : id = p.2 := by simpa [hfd] using howner
  simp [hc] at hnone

theorem Ownership.release (h : Ownership settings s) {owner : Option Owner}
    (hold : s.opened fd ≠ some .wakeup) (hnew : owner = none ∨ owner = some .foreign)
    (hopened : t.opened = Function.update s.opened fd owner)
    (haccepted : t.accepted = s.accepted)
    (hclosed : t.closed = s.closed ∨
      ∃ id, s.opened fd = some (.connection id) ∧ t.closed = s.closed ++ [id])
    (hupcoming : ∀ p ∈ t.upcoming, p ∈ s.upcoming ∧ p.1 ≠ fd) (hnodup : t.upcoming.Nodup)
    (hconnections : t.connections = s.connections) : Ownership settings t := by
  have hsame : ∀ {fd' owner'}, t.opened fd' = some owner' → owner' ≠ .foreign →
      fd' ≠ fd ∧ s.opened fd' = some owner' := by
    intro fd' owner' h' hne
    rw [hopened, Function.update_apply] at h'
    split_ifs at h' with hfd
    · rcases hnew with rfl | rfl <;> simp_all
    · exact ⟨hfd, h'⟩
  have hmem : ∀ id ∈ t.closed, id ∈ s.closed ∨ s.opened fd = some (.connection id) := by
    intro id hid
    rcases hclosed with heq | ⟨id', hid', heq⟩
    · exact .inl (heq ▸ hid)
    · rcases List.mem_append.mp (heq ▸ hid) with hid | hid
      · exact .inl hid
      · exact .inr (List.mem_singleton.mp hid ▸ hid')
  refine ⟨?_, ?_, ?_, ?_, ?_, ?_, hnodup⟩
  · intro fd' id h'
    obtain ⟨hne, h'⟩ := hsame h' nofun
    refine ⟨haccepted ▸ (h.owner fd' id h').1, fun hid => ?_⟩
    rcases hmem id hid with hid | hid
    · exact (h.owner fd' id h').2 hid
    · exact hne (h.unique h' (h.owner fd id hid).1)
  · intro fd'
    refine ⟨fun h' => (h.wakeup fd').mp (hsame h' nofun).2, fun h' => ?_⟩
    have hwakeup := (h.wakeup fd').mpr h'
    have hne : fd' ≠ fd := fun heq => hold (heq ▸ hwakeup)
    rw [hopened, Function.update_of_ne hne, hwakeup]
  · rw [haccepted]
    exact h.nonneg
  · rcases hclosed with heq | ⟨id, hid, heq⟩ <;> rw [heq]
    · exact h.closed_nodup
    · rw [← List.concat_eq_append]
      exact List.Nodup.concat (h.owner fd id hid).2 h.closed_nodup
  · intro id hid
    rw [haccepted]
    rcases hmem id hid with hid | hid
    · exact h.closed_lt id hid
    · exact (List.getElem?_eq_some_iff.mp (h.owner fd id hid).1).1
  · intro p hp
    obtain ⟨hp, hne⟩ := hupcoming p hp
    rw [hopened, Function.update_of_ne hne, hconnections]
    exact h.upcoming p hp

theorem Established.opened_iff {c : TcpConnection} (h : s.Established id fd c) {stage : Stage}
    (hstage : stageAfter fd (s.executed id) = some stage) :
    s.opened fd = some (.connection id) ↔ stage ≠ .closed := by
  rw [h.opened, hstage]
  simp

theorem Established.expected_eq {c : TcpConnection} (h : s.Established id fd c) {stage : Stage}
    (hstage : stageAfter fd (s.executed id) = some stage) (hopen : stage ≠ .closed) :
    s.expected fd = stage.entry id := by
  rw [expected_connection ((h.opened_iff hstage).mpr hopen), hstage]
  rfl

end Server

end CppSearchServer.Net
