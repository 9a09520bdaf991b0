import CppSearchServer.Net.IdleTimeout
import CppSearchServer.Net.ServerCalls

/-! The invariant over whole runs: the acceptor and the rest of the process, then
the thread of the loop. -/

namespace CppSearchServer.Net.Server

open Library.TransitionSystem

variable {settings : Settings} {s t : Server} {id : Nat} {fd : Int}

/-! The acceptor and the rest of the process. They open and close descriptors, but
none that a connection of this loop has registered. -/

structure Reassigned (s t : Server) (fd : Int) (owner : Option Owner) : Prop where
  opened : t.opened = Function.update s.opened fd owner
  not_wakeup : s.opened fd ≠ some .wakeup
  unregistered : ∀ id, s.opened fd = some (.connection id) → s.connections id = none
  owner_not_wakeup : owner ≠ some .wakeup
  owner_unregistered : ∀ id, owner = some (.connection id) → s.connections id = none
  accepted : s.accepted <+: t.accepted
  channels : t.channels = s.channels
  epoll : t.epoll = s.epoll
  connections : t.connections = s.connections
  active : t.active = s.active
  todo : t.todo = s.todo
  executed : t.executed = s.executed
  phase : t.phase = s.phase
  batch : t.batch = s.batch
  tasks : t.tasks = s.tasks

section Reassigned
variable {owner : Option Owner}

theorem Reassigned.accepted_eq (h : Reassigned s t fd owner) {fd' : Int}
    (hid : s.accepted[id]? = some fd') : t.accepted[id]? = some fd' := by
  obtain ⟨more, hmore⟩ := h.accepted
  rw [← hmore, List.getElem?_append_left (List.getElem?_eq_some_iff.mp hid).1, hid]

theorem Reassigned.opened_iff (h : Reassigned s t fd owner) {c : TcpConnection}
    (hc : s.connections id = some c) (fd' : Int) :
    t.opened fd' = some (.connection id) ↔ s.opened fd' = some (.connection id) := by
  rw [h.opened, Function.update_apply]
  split_ifs with hfd
  · subst hfd
    have hnew := h.owner_unregistered id
    have hold := h.unregistered id
    simp only [hc, reduceCtorEq] at hnew hold
    exact ⟨fun heq => (hnew heq).elim, fun heq => (hold heq).elim⟩
  · rfl

theorem Reassigned.expected (h : Reassigned s t fd owner) (hs : Tables s) (fd' : Int) :
    t.expected fd' = s.expected fd' := by
  by_cases hfd : fd' = fd
  · subst hfd
    have hopened : t.opened fd' = owner := by rw [h.opened, Function.update_self]
    rw [expected_none h.not_wakeup fun id hid => hs.fresh id (h.unregistered id hid),
      expected_none (hopened ▸ h.owner_not_wakeup) fun id hid => by
        rw [h.executed]
        exact hs.fresh id (h.owner_unregistered id (hopened ▸ hid))]
  · unfold Server.expected
    rw [h.opened, Function.update_of_ne hfd, h.executed]

theorem Reassigned.tables (h : Reassigned s t fd owner) (hs : Tables s) : Tables t where
  channels fd' := by rw [h.channels, h.expected hs]; exact hs.channels fd'
  epoll fd' := by rw [h.epoll, h.expected hs]; exact hs.epoll fd'
  fresh := by rw [h.connections, h.executed]; exact hs.fresh
  established id c hc := by
    rw [h.connections] at hc
    obtain ⟨fd', hest⟩ := hs.established id c hc
    refine ⟨fd', h.accepted_eq hest.accepted, hest.sound, ?_, ?_⟩
    · rw [h.executed, remaining, h.active, h.todo]
      exact hest.calls
    · rw [h.opened_iff hc, h.executed]
      exact hest.opened
  active := by rw [h.todo, h.active, h.connections]; exact hs.active

theorem Reassigned.batchOf (h : Reassigned s t fd owner) (hs : Sound settings s) :
    Batch settings t where
  outside := by rw [h.phase, h.batch]; exact hs.batch.outside
  tasks := by rw [h.phase, h.tasks]; exact hs.batch.tasks
  nodup := by rw [h.batch]; exact hs.batch.nodup
  taken := by
    rw [h.phase, h.batch, h.active, h.todo]
    intro hphase htodo event hmem heq
    obtain ⟨c, hc⟩ := hs.tables.active htodo
    obtain ⟨fd', hest⟩ := hs.tables.established _ c hc
    rw [h.accepted_eq hest.accepted] at heq
    exact hs.batch.taken hphase htodo event hmem (hest.accepted.trans heq)
  swapped := by rw [h.phase, h.batch]; exact hs.batch.swapped
  entries event hmem := by
    rw [h.batch] at hmem
    rcases hs.batch.entries event hmem with hcurrent | hstale
    · cases hcurrent with
      | wakeup hfd hregistrant => exact .inl (.wakeup hfd hregistrant)
      | connection hregistrant hopened hc hout =>
        exact .inl (.connection hregistrant ((h.opened_iff hc _).mpr hopened)
          (h.connections ▸ hc) hout)
    · refine .inr ⟨hstale.not_wakeup, h.batch ▸ hstale.swapped, ?_, h.tasks ▸ hstale.no_task⟩
      intro id hid
      rw [h.opened, Function.update_apply] at hid
      rw [h.connections]
      split_ifs at hid with hfd
      · exact h.owner_unregistered id hid
      · exact hstale.unregistered id hid

theorem Reassigned.sound (h : Reassigned s t fd owner) (hs : Sound settings s)
    (howned : Ownership settings t) : Sound settings t :=
  ⟨howned, h.tables hs.tables, h.batchOf hs⟩

end Reassigned

theorem Ownership.upcoming_opened (h : Ownership settings s) (fd : Int)
    (hfd : ∀ id, s.opened fd ≠ some (.connection id)) :
    ∀ p ∈ s.upcoming, p ∈ s.upcoming ∧ p.1 ≠ fd :=
  fun p hp => ⟨hp, fun heq => hfd p.2 (heq ▸ (h.upcoming p hp).1)⟩

theorem Ownership.acceptor (h : Ownership settings s) (hacceptor : s.acceptor = some (fd, id)) :
    s.opened fd = some (.connection id) ∧ s.connections id = none ∧
      ((s.tasks ++ s.pendingTasks).filterMap LoopTask.establishes).Nodup ∧
      ∀ p ∈ (s.tasks ++ s.pendingTasks).filterMap LoopTask.establishes,
        p ∈ s.upcoming ∧ p.1 ≠ fd := by
  have hupcoming : s.upcoming =
      (s.tasks ++ s.pendingTasks).filterMap LoopTask.establishes ++ [(fd, id)] := by
    rw [Server.upcoming, hacceptor]
    rfl
  have hnodup := h.upcoming_nodup
  obtain ⟨howner, hnone⟩ := h.upcoming (fd, id) (by simp [hupcoming])
  rw [hupcoming, List.nodup_append] at hnodup
  refine ⟨howner, hnone, hnodup.1, fun p hp => ?_⟩
  have hmem : p ∈ s.upcoming := hupcoming ▸ List.mem_append_left _ hp
  refine ⟨hmem, fun heq => ?_⟩
  have hp' := (h.upcoming p hmem).1
  have hid : p.2 = id := by simpa [heq, howner, eq_comm] using hp'
  exact hnodup.2.2 p hp (fd, id) (by simp) (Prod.ext heq hid)

theorem Tables.next_none (h : Tables s) : s.connections s.accepted.length = none := by
  cases hc : s.connections s.accepted.length with
  | none => rfl
  | some c =>
    obtain ⟨fd, hest⟩ := h.established _ c hc
    simpa using hest.accepted

theorem Ownership.accept (h : Ownership settings s) (htables : Tables s) (hfd : 0 ≤ fd)
    (hnone : s.opened fd = none) (hacceptor : s.acceptor = none) :
    Ownership settings { s.setOpened fd (some (.connection s.accepted.length)) with
      accepted := s.accepted ++ [fd]
      acceptor := some (fd, s.accepted.length) } := by
  have hupcoming : s.upcoming =
      (s.tasks ++ s.pendingTasks).filterMap LoopTask.establishes := by
    simp [Server.upcoming, hacceptor]
  have hqueue := h.upcoming_opened fd (by simp [hnone])
  have hother : ∀ p ∈ s.upcoming, p.1 ≠ fd := fun p hp => (hqueue p hp).2
  constructor
  · intro fd' id hid
    simp only [setOpened, Function.update_apply] at hid
    split_ifs at hid with heq
    · cases hid
      exact ⟨by simp [heq], fun hmem => Nat.lt_irrefl _ (h.closed_lt _ hmem)⟩
    · obtain ⟨haccepted, hclosed⟩ := h.owner fd' id hid
      refine ⟨?_, hclosed⟩
      rw [List.getElem?_append_left (List.getElem?_eq_some_iff.mp haccepted).1, haccepted]
  · intro fd'
    simp only [setOpened, Function.update_apply]
    split_ifs with heq
    · simpa [heq, hnone] using h.wakeup fd
    · exact h.wakeup fd'
  · simpa using fun fd' hfd' => hfd'.elim (h.nonneg fd') (· ▸ hfd)
  · exact h.closed_nodup
  · intro id hid
    have := h.closed_lt id hid
    simp
    omega
  · intro p hp
    simp only [Server.upcoming, Option.toList_some, List.mem_append, List.mem_singleton] at hp
    rcases hp with hp | rfl
    · have hp : p ∈ s.upcoming := hupcoming ▸ hp
      simp only [setOpened, Function.update_of_ne (hother p hp)]
      exact h.upcoming p hp
    · exact ⟨Function.update_self .., htables.next_none⟩
  · have hconcat : ((s.tasks ++ s.pendingTasks).filterMap LoopTask.establishes ++
        [(fd, s.accepted.length)]).Nodup := by
      rw [← List.concat_eq_append, ← hupcoming]
      exact List.Nodup.concat (fun hmem => hother _ hmem rfl) h.upcoming_nodup
    exact hconcat

theorem Sound.queued (h : Sound settings s) (now : Nat) (peers : Nat → Peer)
    (acceptor : Option (Int × Nat)) (pendingTasks : List LoopTask)
    (hupcoming : ({ s with acceptor := acceptor, pendingTasks := pendingTasks } : Server).upcoming =
      s.upcoming) :
    Sound settings { s with
      now := now
      peers := peers
      acceptor := acceptor
      pendingTasks := pendingTasks } :=
  ⟨h.ownership.congr rfl rfl rfl hupcoming rfl, h.tables.congr rfl rfl rfl rfl rfl rfl rfl rfl,
    h.batch.congr rfl rfl rfl rfl rfl rfl rfl rfl⟩

theorem Sound.outsideStep (h : Sound settings s) {a : Action} (ht : s.outsideStep a = some t) :
    Sound settings t := by
  cases a with
  | tick =>
    cases ht
    exact h.queued (s.now + 1) s.peers s.acceptor s.pendingTasks rfl
  | peer id action =>
    cases ht
    exact h.queued s.now _ s.acceptor s.pendingTasks rfl
  | openOther fd =>
    obtain ⟨⟨-, hnone⟩, ht⟩ := Option.ite_none_right_eq_some.mp ht
    cases ht
    have hre : Reassigned s (s.setOpened fd (some .foreign)) fd (some .foreign) :=
      ⟨rfl, by simp [hnone], by simp [hnone], nofun, nofun, List.prefix_rfl, rfl, rfl, rfl, rfl,
        rfl, rfl, rfl, rfl, rfl⟩
    exact hre.sound h (h.ownership.release hre.not_wakeup (.inr rfl) rfl rfl (.inl rfl)
      (h.ownership.upcoming_opened fd (by simp [hnone])) h.ownership.upcoming_nodup rfl)
  | closeOther fd =>
    obtain ⟨hforeign, ht⟩ := Option.ite_none_right_eq_some.mp ht
    cases ht
    have hre : Reassigned s (s.setOpened fd none) fd none :=
      ⟨rfl, by simp [hforeign], by simp [hforeign], nofun, nofun, List.prefix_rfl, rfl, rfl, rfl,
        rfl, rfl, rfl, rfl, rfl, rfl⟩
    exact hre.sound h (h.ownership.release hre.not_wakeup (.inl rfl) rfl rfl (.inl rfl)
      (h.ownership.upcoming_opened fd (by simp [hforeign])) h.ownership.upcoming_nodup rfl)
  | accept fd =>
    obtain ⟨⟨hfd, hnone, hacceptor⟩, ht⟩ := Option.ite_none_right_eq_some.mp ht
    cases ht
    have hre : Reassigned s { s.setOpened fd (some (.connection s.accepted.length)) with
        accepted := s.accepted ++ [fd]
        acceptor := some (fd, s.accepted.length) } fd (some (.connection s.accepted.length)) :=
      ⟨rfl, by simp [hnone], by simp [hnone], nofun,
        fun id hid => by cases hid; exact h.tables.next_none,
        List.prefix_append .., rfl, rfl, rfl, rfl, rfl, rfl, rfl, rfl, rfl⟩
    exact hre.sound h (h.ownership.accept h.tables hfd hnone hacceptor)
  | discard =>
    simp only [Server.outsideStep] at ht
    split at ht
    · rename_i fd id hacceptor
      cases ht
      obtain ⟨howner, hnone, hnodup, hqueue⟩ := h.ownership.acceptor hacceptor
      have hre : Reassigned s { s.setOpened fd none with
          acceptor := none, closed := s.closed ++ [id] } fd none :=
        ⟨rfl, by simp [howner], by simpa [howner] using hnone, nofun, nofun, List.prefix_rfl, rfl,
          rfl, rfl, rfl, rfl, rfl, rfl, rfl, rfl⟩
      refine hre.sound h (h.ownership.release hre.not_wakeup (.inl rfl) rfl rfl
        (.inr ⟨id, howner, rfl⟩) ?_ ?_ rfl)
      · simpa [Server.upcoming, setOpened] using hqueue
      · simpa [Server.upcoming, setOpened] using hnodup
    · cases ht
  | queueEstablish =>
    simp only [Server.outsideStep] at ht
    split at ht
    · rename_i fd id hacceptor
      cases ht
      refine h.queued s.now s.peers none (s.pendingTasks ++ [.establish fd id]) ?_
      simp [Server.upcoming, hacceptor, LoopTask.establishes]
    · cases ht
  | otherLoop =>
    simp only [Server.outsideStep] at ht
    split at ht
    · rename_i fd id hacceptor
      cases ht
      obtain ⟨howner, hnone, hnodup, hqueue⟩ := h.ownership.acceptor hacceptor
      have hre : Reassigned s { s.setOpened fd (some .foreign) with acceptor := none } fd
          (some .foreign) :=
        ⟨rfl, by simp [howner], by simpa [howner] using hnone, nofun, nofun, List.prefix_rfl, rfl,
          rfl, rfl, rfl, rfl, rfl, rfl, rfl, rfl⟩
      refine hre.sound h (h.ownership.release hre.not_wakeup (.inr rfl) rfl rfl (.inl rfl)
        ?_ ?_ rfl)
      · simpa [Server.upcoming, setOpened] using hqueue
      · simpa [Server.upcoming, setOpened] using hnodup
    · cases ht
  | complete id requestId timing result =>
    obtain ⟨-, ht⟩ := Option.ite_none_right_eq_some.mp ht
    cases ht
    refine h.queued s.now s.peers s.acceptor
      (s.pendingTasks ++ [.finishRequest id requestId timing result]) ?_
    simp [Server.upcoming, LoopTask.establishes]
  | _ => cases ht

/-! The thread of the loop, between two handlers. -/

inductive LoopMove (settings : Settings) (s : Server) : Action → Server → Prop where
  | wait {events : List (Int × EventMask)} :
      s.phase = .waiting → (events.map Prod.fst).Nodup →
      events.all (s.reportable settings) = true →
      LoopMove settings s (.wait events) { s with
        phase := .dispatching
        batch := events.map fun event => ⟨event.1, event.2, s.channels event.1⟩ }
  | drop {event : EpollEvent} {batch : List EpollEvent} {reads : List RecvResult}
      {writes : List SendResult} {counter : Bool} :
      s.phase = .dispatching → s.batch = event :: batch →
      LoopMove settings s (.dispatch reads writes counter) { s with
        batch := batch
        dispatched := s.dispatched ++ [⟨event.registrant, s.channels event.fd⟩] }
  | swap {event : EpollEvent} {batch : List EpollEvent} {reads : List RecvResult}
      {writes : List SendResult} :
      s.phase = .dispatching → s.batch = event :: batch → s.channels event.fd = some .wakeup →
      LoopMove settings s (.dispatch reads writes true) { s with
        batch := batch
        dispatched := s.dispatched ++ [⟨event.registrant, s.channels event.fd⟩]
        phase := .runningTasks
        tasks := s.pendingTasks
        pendingTasks := [] }
  | deliver {event : EpollEvent} {batch : List EpollEvent} {reads : List RecvResult}
      {writes : List SendResult} {counter : Bool} {id : Nat} :
      s.phase = .dispatching → s.batch = event :: batch →
      s.channels event.fd = some (.connection id) →
      LoopMove settings s (.dispatch reads writes counter)
        (runHandler id (TcpConnection.handleEvent s.now event.revents reads writes) { s with
          batch := batch
          dispatched := s.dispatched ++ [⟨event.registrant, s.channels event.fd⟩] })
  | endBatch : s.phase = .dispatching → s.batch = [] →
      LoopMove settings s .endBatch { s with phase := .timers s.now }
  | establish {fd : Int} {id : Nat} {tasks : List LoopTask} {writes : List SendResult} :
      s.phase = .runningTasks → s.tasks = .establish fd id :: tasks →
      LoopMove settings s (.runTask writes)
        ({ s with tasks := tasks }.runTask settings writes (.establish fd id))
  | finishRequest {id requestId : Nat} {timing : RequestTimingPtr} {result : ResponseResult}
      {tasks : List LoopTask} {writes : List SendResult} :
      s.phase = .runningTasks → s.tasks = .finishRequest id requestId timing result :: tasks →
      LoopMove settings s (.runTask writes)
        ({ s with tasks := tasks }.runTask settings writes
          (.finishRequest id requestId timing result))
  | endTasks : s.phase = .runningTasks → s.tasks = [] →
      LoopMove settings s .endTasks { s with phase := .dispatching }
  | runTimer {timer : Timer} {now : Nat} : s.phase = .timers now → timer ∈ s.timers →
      LoopMove settings s (.runTimer timer)
        ({ s with timers := s.timers.erase timer }.runHandler timer.id
          (TcpConnection.closeIfIdle s.now timer.expectedGeneration))
  | endTimers {now : Nat} : s.phase = .timers now →
      LoopMove settings s .endTimers { s with phase := .waiting }

theorem dispatch_move {reads : List RecvResult} {writes : List SendResult} {counter : Bool}
    (hphase : s.phase = .dispatching) (ht : s.dispatch reads writes counter = some t) :
    LoopMove settings s (.dispatch reads writes counter) t := by
  unfold Server.dispatch at ht
  split at ht
  · cases ht
  rename_i event batch hbatch
  dsimp only at ht
  split at ht
  · split at ht <;> cases ht
    · rename_i hfound hcounter
      subst hcounter
      exact .swap hphase hbatch hfound
    · exact .drop hphase hbatch
  · cases ht
    exact .deliver hphase hbatch ‹_›
  all_goals
    cases ht
    exact .drop hphase hbatch

theorem loopStep_move {a : Action} (ht : s.loopStep settings a = some t) :
    LoopMove settings s a t := by
  cases a with
  | wait events =>
    obtain ⟨⟨hphase, hnodup, hreported⟩, ht⟩ := Option.ite_none_right_eq_some.mp ht
    cases ht
    exact .wait hphase hnodup hreported
  | dispatch reads writes counter =>
    obtain ⟨hphase, ht⟩ := Option.ite_none_right_eq_some.mp ht
    exact dispatch_move hphase ht
  | endBatch =>
    obtain ⟨⟨hphase, hbatch⟩, ht⟩ := Option.ite_none_right_eq_some.mp ht
    cases ht
    exact .endBatch hphase hbatch
  | runTask writes =>
    simp only [Server.loopStep] at ht
    split at ht <;> cases ht
    rename_i task tasks hphase htasks
    cases task with
    | establish fd id => exact .establish hphase htasks
    | finishRequest id requestId timing result => exact .finishRequest hphase htasks
  | endTasks =>
    obtain ⟨⟨hphase, htasks⟩, ht⟩ := Option.ite_none_right_eq_some.mp ht
    cases ht
    exact .endTasks hphase htasks
  | runTimer timer =>
    simp only [Server.loopStep] at ht
    split at ht
    · obtain ⟨⟨hmem, -⟩, ht⟩ := Option.ite_none_right_eq_some.mp ht
      cases ht
      exact .runTimer ‹_› hmem
    · cases ht
  | endTimers =>
    simp only [Server.loopStep] at ht
    split at ht
    · obtain ⟨-, ht⟩ := Option.ite_none_right_eq_some.mp ht
      cases ht
      exact .endTimers ‹_›
    · cases ht
  | _ => cases ht

theorem Established.calls_eq {c : TcpConnection} (h : s.Established id fd c) (htodo : s.todo = []) :
    c.calls = s.executed id := by
  rw [h.calls, remaining, htodo]
  simp

theorem Established.settled {c : TcpConnection} (h : s.Established id fd c) (htodo : s.todo = [])
    (hopened : s.opened fd = some (.connection id)) : c.Settled fd := by
  refine h.sound.resolve_right fun hclosed => h.opened.mp hopened ?_
  rw [← h.calls_eq htodo, hclosed.stage]

theorem Tables.enter (h : Tables s) (htodo : s.todo = []) {c c' : TcpConnection}
    (haccepted : s.accepted[id]? = some fd) (hcalls : c.calls = s.executed id)
    (hopened : s.opened fd = some (.connection id) ↔ stageAfter fd (s.executed id) ≠ some .closed)
    (hsound : c'.Sound fd) (hextended : c.calls <+: c'.calls) : Tables (s.enter id c c') where
  channels := h.channels
  epoll := h.epoll
  fresh id' hid' := by
    by_cases heq : id' = id
    · simp [Server.enter, heq] at hid'
    · exact h.fresh id' (by simpa [Server.enter, heq] using hid')
  established id' c'' hc'' := by
    by_cases heq : id' = id
    · subst heq
      obtain rfl : c' = c'' := by simpa [Server.enter] using hc''
      refine ⟨fd, haccepted, hsound, ?_, hopened⟩
      obtain ⟨more, hmore⟩ := hextended
      simp [Server.enter, remaining, ← hmore, hcalls]
    · obtain ⟨fd', hest⟩ := h.established id' c'' (by simpa [Server.enter, heq] using hc'')
      refine ⟨fd', hest.accepted, hest.sound, ?_, hest.opened⟩
      rw [hest.calls_eq htodo]
      simp [Server.enter, remaining, heq]
  active _ := ⟨c', Function.update_self ..⟩

theorem Ownership.enter (h : Ownership settings s) {c c' : TcpConnection}
    (hid : ∀ p ∈ s.upcoming, p.2 ≠ id) : Ownership settings (s.enter id c c') := by
  refine ⟨h.owner, h.wakeup, h.nonneg, h.closed_nodup, h.closed_lt, fun p hp => ?_,
    h.upcoming_nodup⟩
  obtain ⟨hopened, hnone⟩ := h.upcoming p hp
  exact ⟨hopened, (Function.update_of_ne (hid p hp) ..).trans hnone⟩

theorem Batch.enter (h : Batch settings s) {c c' : TcpConnection}
    (htaken : s.phase = .dispatching → ∀ event ∈ s.batch, s.accepted[id]? ≠ some event.fd)
    (hkeeps : ∀ event ∈ s.batch, s.opened event.fd = some (.connection id) →
      s.connections id = some c ∧ (event.revents.has EPOLLOUT = true →
        c.responseReady = true ∨ c.fd < 0 → c'.responseReady = true ∨ c'.fd < 0)) :
    Batch settings (s.enter id c c') where
  outside := h.outside
  tasks := h.tasks
  nodup := h.nodup
  taken hphase _ := htaken hphase
  swapped := h.swapped
  entries event hmem := by
    rcases h.entries event hmem with hcurrent | hstale
    · cases hcurrent with
      | wakeup hfd hregistrant => exact .inl (.wakeup hfd hregistrant)
      | @connection id' c'' hregistrant hopened hc'' hout =>
        by_cases heq : id' = id
        · subst heq
          obtain ⟨hc, hready⟩ := hkeeps event hmem hopened
          obtain rfl : c = c'' := by simpa [hc] using hc''
          exact .inl (.connection hregistrant hopened (Function.update_self ..)
            fun hout' => hready hout' (hout hout'))
        · exact .inl (.connection hregistrant hopened
            ((Function.update_of_ne heq ..).trans hc'') hout)
    · refine .inr ⟨hstale.not_wakeup, hstale.swapped, fun id' hopened => ?_, hstale.no_task⟩
      have hnone := hstale.unregistered id' hopened
      have heq : id' ≠ id := by
        rintro rfl
        simp [(hkeeps event hmem hopened).1] at hnone
      exact (Function.update_of_ne heq ..).trans hnone

theorem Sound.runHandler (h : Sound settings s) (htodo : s.todo = [])
    {handler : TcpConnection → TcpConnection}
    (hhandler : ∀ fd c, s.Established id fd c → s.connections id = some c →
      (handler c).Sound fd ∧ c.calls <+: (handler c).calls)
    (htaken : s.phase = .dispatching → ∀ event ∈ s.batch, s.accepted[id]? ≠ some event.fd)
    (hkeeps : ∀ event ∈ s.batch, s.opened event.fd = some (.connection id) →
      event.revents.has EPOLLOUT = true → ∀ c, s.connections id = some c →
        c.responseReady = true ∨ c.fd < 0 → (handler c).responseReady = true ∨ (handler c).fd < 0) :
    Sound settings (s.runHandler id handler) := by
  unfold Server.runHandler
  split
  · exact h
  · rename_i c hc
    obtain ⟨fd, hest⟩ := h.tables.established id c hc
    obtain ⟨hsound, hextended⟩ := hhandler fd c hest hc
    refine ⟨h.ownership.enter fun p hp heq => ?_,
      h.tables.enter htodo hest.accepted (hest.calls_eq htodo) hest.opened hsound hextended,
      h.batch.enter htaken fun event hmem hopened =>
        ⟨hc, fun hout => hkeeps event hmem hopened hout c hc⟩⟩
    have hnone := (h.ownership.upcoming p hp).2
    simp [heq, hc] at hnone

theorem Batch.next (h : Batch settings s) (hphase : s.phase = .dispatching)
    (htodo : s.todo = []) {event : EpollEvent} {batch : List EpollEvent}
    (hbatch : s.batch = event :: batch) (dispatched : List Delivery) :
    Batch settings { s with batch := batch, dispatched := dispatched } := by
  have hsubset : batch ⊆ s.batch := hbatch ▸ List.subset_cons_self event batch
  refine ⟨fun hne => absurd hphase hne, h.tasks, ?_, fun _ hne => absurd htodo hne,
    fun hrunning other hother => h.swapped hrunning other (hsubset hother),
    h.entries_of rfl rfl hsubset (List.Subset.refl _)⟩
  have hnodup := h.nodup
  rw [hbatch] at hnodup
  exact (List.nodup_cons.mp hnodup).2

theorem Batch.not_next (h : Batch settings s) {event : EpollEvent} {batch : List EpollEvent}
    (hbatch : s.batch = event :: batch) : ∀ other ∈ batch, other.fd ≠ event.fd := by
  have hnodup := h.nodup
  rw [hbatch, List.map_cons, List.nodup_cons] at hnodup
  exact fun other hother heq => hnodup.1 (heq ▸ List.mem_map_of_mem hother)

theorem Tables.owner_of_channels (h : Tables s) {owner : Owner}
    (hfound : s.channels fd = some owner) : s.opened fd = some owner := by
  rw [h.channels] at hfound
  unfold expected at hfound
  split at hfound
  · rename_i hopened
    cases hfound
    exact hopened
  · rename_i id hopened
    cases hstage : stageAfter fd (s.executed id) with
    | none => simp [hstage] at hfound
    | some stage => cases stage <;> simp_all [Stage.entry]
  · cases hfound
  · cases hfound

theorem Sound.swapTasks (h : Sound settings s) (hphase : s.phase = .dispatching)
    {event : EpollEvent} {batch : List EpollEvent} (hbatch : s.batch = event :: batch)
    (hfound : s.channels event.fd = some .wakeup) (dispatched : List Delivery) :
    Sound settings { s with
      batch := batch, dispatched := dispatched, phase := .runningTasks, tasks := s.pendingTasks
      pendingTasks := [] } := by
  have hfd := (h.ownership.wakeup event.fd).mp (h.tables.owner_of_channels hfound)
  have hnext := h.batch.not_next hbatch
  have hnodup := h.batch.nodup
  have htasks := h.batch.tasks (by simp [hphase])
  have hupcoming : ∀ t : Server, t.tasks = s.pendingTasks → t.pendingTasks = [] →
      t.acceptor = s.acceptor → t.upcoming = s.upcoming := by
    intro t ht hp ha
    simp [Server.upcoming, ht, hp, ha, htasks]
  refine ⟨h.ownership.congr rfl rfl rfl (hupcoming _ rfl rfl rfl) rfl,
    h.tables.congr rfl rfl rfl rfl rfl rfl rfl rfl,
    ⟨fun _ hne => absurd rfl hne, fun hne => absurd rfl hne, ?_,
      fun heq => Phase.noConfusion heq, ?_, ?_⟩⟩
  · rw [hbatch] at hnodup
    exact (List.nodup_cons.mp hnodup).2
  · exact fun _ other hother heq => hnext other hother (heq.trans hfd.symm)
  · intro other hother
    rcases h.batch.entries other (hbatch ▸ List.mem_cons_of_mem _ hother) with hcurrent | hstale
    · exact .inl (hcurrent.congr rfl rfl)
    · exact absurd hfd (hstale.swapped event (by simp [hbatch]))

theorem Sound.write_ready (h : Sound settings s) {event : EpollEvent} (hmem : event ∈ s.batch)
    (hopened : s.opened event.fd = some (.connection id)) {c : TcpConnection}
    (hc : s.connections id = some c) (hout : event.revents.has EPOLLOUT = true) :
    c.responseReady = true ∨ c.fd < 0 := by
  rcases h.batch.entries event hmem with hcurrent | hstale
  · cases hcurrent with
    | wakeup hfd _ =>
      have hwakeup := (h.ownership.wakeup event.fd).mpr hfd
      simp [hopened] at hwakeup
    | @connection id' c' _ hopened' hc' hready =>
      obtain rfl : id = id' := by simpa [hopened] using hopened'
      obtain rfl : c = c' := by simpa [hc] using hc'
      exact hready hout
  · simp [hstale.unregistered id hopened] at hc

theorem Sound.drop (h : Sound settings s) (hphase : s.phase = .dispatching) (htodo : s.todo = [])
    {event : EpollEvent} {batch : List EpollEvent} (hbatch : s.batch = event :: batch)
    (dispatched : List Delivery) :
    Sound settings { s with batch := batch, dispatched := dispatched } :=
  ⟨h.ownership.congr rfl rfl rfl rfl rfl, h.tables.congr rfl rfl rfl rfl rfl rfl rfl rfl,
    h.batch.next hphase htodo hbatch dispatched⟩

theorem Sound.deliver (h : Sound settings s) (hphase : s.phase = .dispatching)
    (htodo : s.todo = []) {event : EpollEvent} {batch : List EpollEvent}
    (hbatch : s.batch = event :: batch) (hfound : s.channels event.fd = some (.connection id))
    (reads : List RecvResult) (writes : List SendResult) (dispatched : List Delivery) :
    Sound settings ({ s with batch := batch, dispatched := dispatched }.runHandler id
      (TcpConnection.handleEvent s.now event.revents reads writes)) := by
  have hopened := h.tables.owner_of_channels hfound
  have haccepted := (h.ownership.owner _ _ hopened).1
  have hother := h.batch.not_next hbatch
  refine (h.drop hphase htodo hbatch dispatched).runHandler htodo ?_ ?_ ?_
  · intro fd c hest hc
    obtain rfl : event.fd = fd := by simpa [haccepted] using hest.accepted
    have hsettled := hest.settled htodo hopened
    have hfd := h.ownership.nonneg _ (List.mem_of_getElem? haccepted)
    refine ⟨TcpConnection.handleEvent_sound hfd s.now _ reads writes hsettled fun hout => ?_,
      (TcpConnection.handleEvent_timed s.now _ reads writes c).calls_extended⟩
    refine (h.write_ready (by simp [hbatch]) hopened hc hout).resolve_right fun hneg => ?_
    rw [hsettled.registered.fd_eq] at hneg
    omega
  · intro _ event' hmem heq
    exact hother event' hmem (Option.some.inj (heq.symm.trans haccepted))
  · intro event' hmem hopened'
    exact absurd (h.ownership.unique hopened' haccepted) (hother event' hmem)

theorem Batch.nextTask (h : Batch settings s) (hphase : s.phase = .runningTasks) {task : LoopTask}
    {tasks : List LoopTask} (htasks : s.tasks = task :: tasks) :
    Batch settings { s with tasks := tasks } := by
  have hsubset : tasks ⊆ s.tasks := htasks ▸ List.subset_cons_self task tasks
  exact ⟨h.outside, fun hne => absurd hphase hne, h.nodup, h.taken, h.swapped,
    h.entries_of rfl rfl (List.Subset.refl _) hsubset⟩

theorem Sound.establish (h : Sound settings s) (hphase : s.phase = .runningTasks)
    (htodo : s.todo = []) {tasks : List LoopTask} (htasks : s.tasks = .establish fd id :: tasks)
    (writes : List SendResult) :
    Sound settings ({ s with tasks := tasks }.runTask settings writes (.establish fd id)) := by
  have hupcoming : s.upcoming = (fd, id) :: ({ s with tasks := tasks } : Server).upcoming := by
    simp [Server.upcoming, htasks, LoopTask.establishes]
  have hnodup := h.ownership.upcoming_nodup
  rw [hupcoming, List.nodup_cons] at hnodup
  have hmem : ∀ p ∈ ({ s with tasks := tasks } : Server).upcoming, p ∈ s.upcoming := fun p hp => by
    simp [hupcoming, hp]
  obtain ⟨hopened, hnone⟩ := h.ownership.upcoming (fd, id) (by simp [hupcoming])
  have haccepted := (h.ownership.owner fd id hopened).1
  have hfd := h.ownership.nonneg fd (List.mem_of_getElem? haccepted)
  have hfresh := h.tables.fresh id hnone
  have howned : Ownership settings { s with tasks := tasks } :=
    ⟨h.ownership.owner, h.ownership.wakeup, h.ownership.nonneg, h.ownership.closed_nodup,
      h.ownership.closed_lt, fun p hp => h.ownership.upcoming p (hmem p hp), hnodup.2⟩
  have htables : Tables { s with tasks := tasks } :=
    h.tables.congr rfl rfl rfl rfl rfl rfl rfl rfl
  refine ⟨howned.enter fun p hp heq => hnodup.1 ?_,
    htables.enter htodo haccepted hfresh.symm ?_ (.inl ?_) List.nil_prefix,
    (h.batch.nextTask hphase htasks).enter (by simp [hphase]) fun event hevent hopened' => ?_⟩
  · obtain rfl := h.ownership.unique (h.ownership.upcoming p (hmem p hp)).1 (heq ▸ haccepted)
    exact heq ▸ hp
  · simpa [hfresh, stageAfter] using hopened
  · exact TcpConnection.establish_settled ..
  · exfalso
    obtain rfl := h.ownership.unique hopened' haccepted
    rcases h.batch.entries event hevent with hcurrent | hstale
    · cases hcurrent with
      | wakeup hfd _ => exact h.batch.swapped hphase event hevent hfd
      | connection _ hopened'' hc _ =>
        obtain rfl : id = _ := by simpa [hopened] using hopened''
        simp [hnone] at hc
    · exact hstale.no_task id (by simp [htasks])

theorem finishRequest_keeps {c : TcpConnection} (hsound : c.Sound fd) (now requestId : Nat)
    (timing : RequestTimingPtr) (result : ResponseResult) (writes : List SendResult)
    (h : c.responseReady = true ∨ c.fd < 0) :
    c.finishRequest now requestId timing result writes = c := by
  rcases TcpConnection.finishRequest_cases now requestId timing result writes c with
    ⟨heq, -⟩ | ⟨hopen, hprocessing, -, -⟩
  · exact heq
  · have hready := h.resolve_right (by omega)
    have hsettled := hsound.resolve_right fun hclosed => hclosed.open_false hopen
    exact absurd ⟨hprocessing, hready⟩ hsettled.exclusive

theorem Sound.finishRequest (h : Sound settings s) (hphase : s.phase = .runningTasks)
    (htodo : s.todo = []) {requestId : Nat} {timing : RequestTimingPtr} {result : ResponseResult}
    {tasks : List LoopTask} (htasks : s.tasks = .finishRequest id requestId timing result :: tasks)
    (writes : List SendResult) :
    Sound settings ({ s with tasks := tasks }.runTask settings writes
      (.finishRequest id requestId timing result)) := by
  have hupcoming : ({ s with tasks := tasks } : Server).upcoming = s.upcoming := by
    simp [Server.upcoming, htasks, List.filterMap_cons, LoopTask.establishes]
  have hs : Sound settings { s with tasks := tasks } :=
    ⟨h.ownership.congr rfl rfl rfl hupcoming rfl, h.tables.congr rfl rfl rfl rfl rfl rfl rfl rfl,
      h.batch.nextTask hphase htasks⟩
  refine hs.runHandler htodo ?_ (by simp [hphase]) ?_
  · intro fd c hest _
    have hfd := h.ownership.nonneg fd (List.mem_of_getElem? hest.accepted)
    exact ⟨TcpConnection.finishRequest_sound hfd _ _ _ _ _ hest.sound,
      (TcpConnection.finishRequest_timed ..).calls_extended⟩
  · intro _ _ _ _ c hc hready
    obtain ⟨fd, hest⟩ := h.tables.established id c hc
    rwa [finishRequest_keeps hest.sound _ _ _ _ _ hready]

theorem Sound.runTimer (h : Sound settings s) {now : Nat} (hphase : s.phase = .timers now)
    (htodo : s.todo = []) (timers : List Timer) (id expectedGeneration : Nat) :
    Sound settings ({ s with timers := timers }.runHandler id
      (TcpConnection.closeIfIdle s.now expectedGeneration)) := by
  have hbatch := h.batch.outside (by simp [hphase]) (by simp [hphase])
  have hs : Sound settings { s with timers := timers } :=
    ⟨h.ownership.congr rfl rfl rfl rfl rfl, h.tables.congr rfl rfl rfl rfl rfl rfl rfl rfl,
      h.batch.congr rfl rfl rfl rfl rfl rfl rfl rfl⟩
  refine hs.runHandler htodo ?_ (by simp [hphase]) (by simp [hbatch])
  intro fd c hest _
  have hfd := h.ownership.nonneg fd (List.mem_of_getElem? hest.accepted)
  exact ⟨TcpConnection.closeIfIdle_sound hfd _ _ hest.sound,
    TcpConnection.closeIfIdle_extended ..⟩

/-- Every event `epoll_wait` returns belongs to whoever is registered then. -/
theorem Sound.reported_current (h : Sound settings s) (htodo : s.todo = [])
    {event : Int × EventMask} (hreported : s.reportable settings event = true) :
    s.Current settings ⟨event.1, event.2, s.channels event.1⟩ := by
  unfold reportable at hreported
  split at hreported
  · cases hreported
  rename_i events hepoll
  have hexpected := h.tables.epoll event.1
  rw [hepoll, eq_comm, Option.map_eq_some_iff] at hexpected
  obtain ⟨⟨owner, mask⟩, hentry, hmask⟩ := hexpected
  have hchannels : s.channels event.1 = some owner := by rw [h.tables.channels, hentry]; rfl
  have hopened := h.tables.owner_of_channels hchannels
  cases owner with
  | wakeup => exact .wakeup ((h.ownership.wakeup event.1).mp hopened) hchannels
  | foreign => simp [expected, hopened] at hentry
  | connection id =>
    rw [expected_connection hopened] at hentry
    cases hc : s.connections id with
    | none =>
      rw [h.tables.fresh id hc] at hentry
      cases hentry
    | some c =>
      refine .connection hchannels hopened hc fun hout => .inl ?_
      obtain ⟨fd, hest⟩ := h.tables.established id c hc
      obtain rfl := h.ownership.unique hopened hest.accepted
      have hstage := (hest.settled htodo hopened).registered.stage
      rw [hest.calls_eq htodo] at hstage
      rw [hstage] at hentry
      obtain rfl : c.interest = mask := by simpa [Stage.entry] using hentry
      obtain rfl : c.interest = events := hmask
      simp only [Bool.and_eq_true, Bool.or_eq_true, hout, Bool.not_true, Bool.false_eq_true,
        false_or] at hreported
      exact Session.interest_has_out.mp hreported.1.2

theorem Sound.wait (h : Sound settings s) (hphase : s.phase = .waiting) (htodo : s.todo = [])
    {events : List (Int × EventMask)} (hnodup : (events.map Prod.fst).Nodup)
    (hreported : events.all (s.reportable settings) = true) :
    Sound settings { s with
      phase := .dispatching
      batch := events.map fun event => ⟨event.1, event.2, s.channels event.1⟩ } := by
  refine ⟨h.ownership.congr rfl rfl rfl rfl rfl, h.tables.congr rfl rfl rfl rfl rfl rfl rfl rfl,
    ⟨fun hne => absurd rfl hne, fun _ => h.batch.tasks (by simp [hphase]), ?_,
      fun _ hne => absurd htodo hne, nofun, ?_⟩⟩
  · rwa [List.map_map]
  · intro event hmem
    obtain ⟨reported, hreported', rfl⟩ := List.mem_map.mp hmem
    have hcurrent := h.reported_current htodo (List.all_eq_true.mp hreported _ hreported')
    exact .inl (hcurrent.congr rfl rfl)

theorem Sound.moveTo (h : Sound settings s) (htodo : s.todo = []) (htasks : s.tasks = [])
    {phase : Phase} (houtside : phase ≠ .dispatching → s.batch = []) (hto : phase ≠ .runningTasks) :
    Sound settings { s with phase := phase } := by
  exact ⟨h.ownership.congr rfl rfl rfl rfl rfl, h.tables.congr rfl rfl rfl rfl rfl rfl rfl rfl,
    ⟨fun hne _ => houtside hne, fun _ => htasks, h.batch.nodup, fun _ hne => absurd htodo hne,
      fun heq => absurd heq hto, h.batch.entries_of rfl rfl (List.Subset.refl _)
        (List.Subset.refl _)⟩⟩

theorem Sound.loopStep (h : Sound settings s) (htodo : s.todo = []) {a : Action}
    (hmove : LoopMove settings s a t) : Sound settings t := by
  cases hmove with
  | wait hphase hnodup hreported => exact h.wait hphase htodo hnodup hreported
  | drop hphase hbatch => exact h.drop hphase htodo hbatch _
  | swap hphase hbatch hfound => exact h.swapTasks hphase hbatch hfound _
  | deliver hphase hbatch hfound => exact h.deliver hphase htodo hbatch hfound ..
  | endBatch hphase hbatch =>
    exact h.moveTo htodo (h.batch.tasks (by simp [hphase])) (fun _ => hbatch) nofun
  | establish hphase htasks => exact h.establish hphase htodo htasks _
  | finishRequest hphase htasks => exact h.finishRequest hphase htodo htasks _
  | endTasks _ htasks => exact h.moveTo htodo htasks (fun hne => absurd rfl hne) nofun
  | runTimer hphase => exact h.runTimer hphase htodo ..
  | endTimers hphase =>
    exact h.moveTo htodo (h.batch.tasks (by simp [hphase]))
      (fun _ => h.batch.outside (by simp [hphase]) (by simp [hphase])) nofun

theorem step_cases {a : Action} (ht : s.step settings a = some t) :
    s.process = .running ∧ (a = .execute ∧ s.execute = some t ∨
      s.todo = [] ∧ LoopMove settings s a t ∨ s.outsideStep a = some t) := by
  obtain ⟨hrunning, ht⟩ := Option.ite_none_right_eq_some.mp ht
  refine ⟨hrunning, ?_⟩
  split at ht
  case h_1 => exact .inl ⟨rfl, ht⟩
  case h_9 => exact .inr (.inr ht)
  all_goals
    obtain ⟨htodo, ht⟩ := Option.ite_none_right_eq_some.mp ht
    exact .inr (.inl ⟨htodo, loopStep_move ht⟩)

theorem Sound.step (h : Sound settings s) {a : Action} (ht : s.step settings a = some t) :
    Sound settings t := by
  obtain ⟨-, ⟨-, ht⟩ | ⟨htodo, hmove⟩ | ht⟩ := step_cases ht
  · exact h.execute ht
  · exact h.loopStep htodo hmove
  · exact h.outsideStep ht

theorem reachable_sound (h : Reachable (system settings) s) : Sound settings s :=
  h.invariant (fun _ ⟨_, _, _, hs⟩ => hs ▸ new_sound ..) fun _ _ _ _ ih ht => ih.step ht

end CppSearchServer.Net.Server
