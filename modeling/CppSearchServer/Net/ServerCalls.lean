import CppSearchServer.Net.ServerInvariant

/-! The calls of a handler, one at a time.
Where the active connection stands in the call protocol decides what its next call
does: it moves the entry of the caller's own descriptor to the next stage, or closes
that descriptor, and reaches no other. -/

namespace CppSearchServer.Net.Server

variable {settings : Settings} {s t : Server} {id : Nat} {fd : Int}

/-! The effect of one call, by the stages it leads from and to. -/

structure CallFrame (s t : Server) : Prop where
  now : t.now = s.now
  peers : t.peers = s.peers
  accepted : t.accepted = s.accepted
  acceptor : t.acceptor = s.acceptor
  pendingTasks : t.pendingTasks = s.pendingTasks
  phase : t.phase = s.phase
  batch : t.batch = s.batch
  tasks : t.tasks = s.tasks
  connections : t.connections = s.connections
  active : t.active = s.active
  todo : t.todo = s.todo
  executed : t.executed = s.executed
  dispatched : t.dispatched = s.dispatched

theorem perform_frame (s : Server) (made : Call) : CallFrame s (s.perform made) := by
  cases made with
  | addChannel channel => rw [perform, addChannel]; split_ifs <;> constructor <;> rfl
  | updateChannel channel => rw [perform, updateChannel]; split_ifs <;> constructor <;> rfl
  | removeChannel fd => rw [perform, removeChannel]; split_ifs <;> constructor <;> rfl
  | _ => constructor <;> rfl

structure Standing (s : Server) (fd : Int) (stage : Stage) : Prop where
  opened : s.opened fd = some (.connection s.active) ↔ stage ≠ .closed
  unique : ∀ fd', s.opened fd' = some (.connection s.active) → fd' = fd
  channels : stage ≠ .closed → s.channels fd = (stage.entry s.active).map Prod.fst
  epoll : stage ≠ .closed → s.epoll fd = (stage.entry s.active).map Prod.snd

/-- A call reaches the caller's own descriptor and nothing else. -/
structure Effect (stage stage' : Stage) (made : Call) (s t : Server) : Prop where
  opened : ∀ fd, t.opened fd =
    if s.opened fd = some (.connection s.active) ∧ stage' = .closed then none else s.opened fd
  closed : t.closed =
    if stage ≠ .closed ∧ stage' = .closed then s.closed ++ [s.active] else s.closed
  channels : ∀ fd, t.channels fd =
    if s.opened fd = some (.connection s.active) then (stage'.entry s.active).map Prod.fst
    else s.channels fd
  epoll : ∀ fd, t.epoll fd =
    if s.opened fd = some (.connection s.active) then (stage'.entry s.active).map Prod.snd
    else s.epoll fd
  process : t.process = s.process ∨ t.process = .killed ∧
    ∃ time used output result, made = .send time used output result ∧ s.raisesSigpipe used = true
  used : ∀ use ∈ t.used, use ∈ s.used ∨ (0 ≤ use.fd → use.owner = some (.connection use.id))

theorem mem_recordUse (h : 0 ≤ fd → s.opened fd = some (.connection s.active)) :
    ∀ use ∈ (s.recordUse fd).used, use ∈ s.used ∨
      (0 ≤ use.fd → use.owner = some (.connection use.id)) := by
  intro use hmem
  rcases List.mem_append.mp hmem with hmem | hmem
  · exact .inl hmem
  · rw [List.mem_singleton.mp hmem]
    exact .inr h

section Standing
variable {stage stage' : Stage} {made : Call}

theorem Standing.channels_eq (h : Standing s fd stage) (fd' : Int) : s.channels fd' =
    if s.opened fd' = some (.connection s.active) then (stage.entry s.active).map Prod.fst
    else s.channels fd' := by
  split_ifs with hactive
  · obtain rfl := h.unique fd' hactive
    exact h.channels (h.opened.mp hactive)
  · rfl

theorem Standing.epoll_eq (h : Standing s fd stage) (fd' : Int) : s.epoll fd' =
    if s.opened fd' = some (.connection s.active) then (stage.entry s.active).map Prod.snd
    else s.epoll fd' := by
  split_ifs with hactive
  · obtain rfl := h.unique fd' hactive
    exact h.epoll (h.opened.mp hactive)
  · rfl

theorem Standing.opened_eq (h : Standing s fd stage) (fd' : Int) : s.opened fd' =
    if s.opened fd' = some (.connection s.active) ∧ stage = .closed then none
    else s.opened fd' := by
  rw [if_neg]
  rintro ⟨hactive, hclosed⟩
  obtain rfl := h.unique fd' hactive
  exact h.opened.mp hactive hclosed

theorem Standing.update_eq (h : Standing s fd stage) (hopen : stage ≠ .closed) {β : Type*}
    (f : Int → β) (b : β) (fd' : Int) : Function.update f fd b fd' =
      if s.opened fd' = some (.connection s.active) then b else f fd' := by
  by_cases hfd : fd' = fd
  · subst hfd
    rw [Function.update_self, if_pos (h.opened.mpr hopen)]
  · rw [Function.update_of_ne hfd, if_neg fun hactive => hfd (h.unique fd' hactive)]

theorem Standing.quiet (h : Standing s fd stage) (hopened : t.opened = s.opened)
    (hclosed : t.closed = s.closed) (hchannels : t.channels = s.channels)
    (hepoll : t.epoll = s.epoll)
    (hprocess : t.process = s.process ∨ t.process = .killed ∧ ∃ time used output result,
      made = .send time used output result ∧ s.raisesSigpipe used = true)
    (hused : ∀ use ∈ t.used, use ∈ s.used ∨
      (0 ≤ use.fd → use.owner = some (.connection use.id))) :
    Effect stage stage made s t where
  opened fd' := by rw [hopened]; exact h.opened_eq fd'
  closed := by rw [hclosed, if_neg (by simp)]
  channels fd' := by rw [hchannels]; exact h.channels_eq fd'
  epoll fd' := by rw [hepoll]; exact h.epoll_eq fd'
  process := hprocess
  used := hused

theorem Standing.recv (h : Standing s fd stage) {used : Int}
    (hused : 0 ≤ used → s.opened used = some (.connection s.active)) :
    Effect stage stage made s (s.recordUse used) :=
  h.quiet rfl rfl rfl rfl (.inl rfl) (mem_recordUse hused)

theorem Standing.send (h : Standing s fd stage) {time : Nat} {used : Int} {output : Bytes}
    {result : SendResult} (hused : 0 ≤ used → s.opened used = some (.connection s.active)) :
    Effect stage stage (.send time used output result) s (s.send used) := by
  refine h.quiet rfl rfl rfl rfl ?_ (mem_recordUse hused)
  unfold Server.send
  split_ifs with hsigpipe
  · exact .inr ⟨rfl, time, used, output, result, rfl, hsigpipe⟩
  · exact .inl rfl

theorem Standing.entry (h : Standing s fd stage) (hopen : stage ≠ .closed)
    (hopen' : stage' ≠ .closed) (hopened : t.opened = s.opened) (hclosed : t.closed = s.closed)
    (hchannels : t.channels =
      Function.update s.channels fd ((stage'.entry s.active).map Prod.fst))
    (hepoll : t.epoll = Function.update s.epoll fd ((stage'.entry s.active).map Prod.snd))
    (hprocess : t.process = s.process) (hused : t.used = s.used) :
    Effect stage stage' made s t where
  opened fd' := by rw [hopened, if_neg fun hactive => hopen' hactive.2]
  closed := by rw [hclosed, if_neg fun hclosed => hopen' hclosed.2]
  channels fd' := by rw [hchannels]; exact h.update_eq hopen ..
  epoll fd' := by rw [hepoll]; exact h.update_eq hopen ..
  process := .inl hprocess
  used use hmem := .inl (hused ▸ hmem)

theorem Standing.close (h : Standing s fd .removed) :
    Effect .removed .closed made s (s.closeFd fd) where
  opened fd' := by
    simp only [and_true]
    exact h.update_eq nofun ..
  closed := rfl
  channels fd' := h.channels_eq fd'
  epoll fd' := h.update_eq nofun ..
  process := .inl rfl
  used := mem_recordUse fun _ => h.opened.mpr nofun

theorem perform_effect (h : Standing s fd stage) (hnext : stage.next fd made = some stage') :
    Effect stage stage' made s (s.perform made) := by
  unfold Stage.next at hnext
  split at hnext
  case h_1 channel =>
    obtain ⟨rfl, hstage⟩ := Option.ite_none_right_eq_some.mp hnext
    cases hstage
    have hadd : (s.opened channel.fd).isSome ∧ s.epoll channel.fd = none :=
      ⟨by simp [h.opened.mpr], h.epoll nofun⟩
    rw [perform, addChannel, if_pos hadd]
    exact h.entry nofun nofun rfl rfl rfl rfl rfl rfl
  case h_2 events time used result =>
    obtain ⟨rfl, hstage⟩ := Option.ite_none_right_eq_some.mp hnext
    cases hstage
    exact h.recv fun _ => h.opened.mpr nofun
  case h_3 events time used output result =>
    obtain ⟨rfl, hstage⟩ := Option.ite_none_right_eq_some.mp hnext
    cases hstage
    exact h.send fun _ => h.opened.mpr nofun
  case h_4 events channel =>
    obtain ⟨rfl, hstage⟩ := Option.ite_none_right_eq_some.mp hnext
    cases hstage
    have hmod : (s.epoll channel.fd).isSome := by rw [h.epoll nofun]; rfl
    have hsame := Function.update_eq_self channel.fd s.channels
    rw [h.channels nofun] at hsame
    rw [perform, updateChannel, if_pos hmod]
    exact h.entry nofun nofun rfl rfl hsame.symm rfl rfl rfl
  case h_5 events used =>
    obtain ⟨rfl, hstage⟩ := Option.ite_none_right_eq_some.mp hnext
    cases hstage
    have hfound : s.channels used ≠ none := by rw [h.channels nofun]; nofun
    have hdel : (s.epoll used).isSome := by rw [h.epoll nofun]; rfl
    rw [perform, removeChannel, if_neg hfound, if_pos hdel]
    exact h.entry nofun nofun rfl rfl rfl rfl rfl rfl
  case h_6 used =>
    obtain ⟨rfl, hstage⟩ := Option.ite_none_right_eq_some.mp hnext
    cases hstage
    exact h.close
  case h_7 time used result =>
    obtain ⟨hneg, hstage⟩ := Option.ite_none_right_eq_some.mp hnext
    cases hstage
    exact h.recv fun hused => absurd hneg (by omega)
  case h_8 time used output result =>
    obtain ⟨hneg, hstage⟩ := Option.ite_none_right_eq_some.mp hnext
    cases hstage
    exact h.send fun hused => absurd hneg (by omega)
  case h_16 => cases hnext
  all_goals
    cases hnext
    exact h.quiet rfl rfl rfl rfl (.inl rfl) fun _ hmem => .inl hmem

end Standing

/-! One call of the active connection. -/

structure CallStep (s t : Server) (made : Call) (todo : List Call) (fd : Int) (c : TcpConnection)
    (stage stage' : Stage) : Prop where
  todo_eq : s.todo = made :: todo
  result : t = (s.startCall made todo).perform made
  connection : s.connections s.active = some c
  established : s.Established s.active fd c
  before : stageAfter fd (s.executed s.active) = some stage
  next : stage.next fd made = some stage'
  effect : Effect stage stage' made s t
  frame : CallFrame (s.startCall made todo) t

theorem execute_callStep (h : Sound settings s) (ht : s.execute = some t) :
    ∃ made todo fd c stage stage', CallStep s t made todo fd c stage stage' := by
  unfold execute at ht
  split at ht
  · cases ht
  rename_i made todo htodo
  cases ht
  obtain ⟨c, hc⟩ := h.tables.active (by rw [htodo]; nofun)
  obtain ⟨fd, hest⟩ := h.tables.established _ c hc
  have hcalls : c.calls = s.executed s.active ++ made :: todo := by
    rw [hest.calls, remaining, if_pos rfl, htodo]
  obtain ⟨stage, stage', hbefore, hnext⟩ := stageAfter_cons (hcalls ▸ hest.sound.stage)
  have hstanding : Standing (s.startCall made todo) fd stage :=
    { opened := hest.opened_iff hbefore
      unique := fun fd' hactive => h.ownership.unique hactive hest.accepted
      channels := fun hopen => (h.tables.channels fd).trans
        (congrArg _ (hest.expected_eq hbefore hopen))
      epoll := fun hopen => (h.tables.epoll fd).trans
        (congrArg _ (hest.expected_eq hbefore hopen)) }
  have heffect := perform_effect hstanding hnext
  exact ⟨made, todo, fd, c, stage, stage', htodo, rfl, hc, hest, hbefore, hnext,
    ⟨heffect.opened, heffect.closed, heffect.channels, heffect.epoll, heffect.process,
      heffect.used⟩, perform_frame _ made⟩

section CallStep
variable {made : Call} {todo : List Call} {c : TcpConnection} {stage stage' : Stage}

theorem CallStep.executed_active (h : CallStep s t made todo fd c stage stage') :
    t.executed s.active = s.executed s.active ++ [made] := by
  rw [h.frame.executed]
  exact Function.update_self ..

theorem CallStep.executed_of_ne (h : CallStep s t made todo fd c stage stage')
    (hid : id ≠ s.active) : t.executed id = s.executed id := by
  rw [h.frame.executed]
  exact Function.update_of_ne hid ..

theorem CallStep.remaining_of_ne (h : CallStep s t made todo fd c stage stage')
    (hid : id ≠ s.active) : t.remaining id = s.remaining id := by
  have hactive : t.active = s.active := h.frame.active
  rw [remaining, remaining, hactive, if_neg hid, if_neg hid]

theorem CallStep.opened_iff (h : CallStep s t made todo fd c stage stage') :
    s.opened fd = some (.connection s.active) ↔ stage ≠ .closed :=
  h.established.opened_iff h.before

theorem CallStep.opened_of_ne (h : CallStep s t made todo fd c stage stage') {fd' : Int}
    (hne : s.opened fd' ≠ some (.connection s.active)) : t.opened fd' = s.opened fd' := by
  rw [h.effect.opened, if_neg fun hactive => hne hactive.1]

theorem CallStep.after (h : CallStep s t made todo fd c stage stage') :
    stageAfter fd (s.executed s.active ++ [made]) = some stage' :=
  (stageAfter_concat h.before made).trans h.next

theorem CallStep.opened_iff_after (h : CallStep s t made todo fd c stage stage') :
    t.opened fd = some (.connection s.active) ↔ stage' ≠ .closed := by
  rw [h.effect.opened]
  by_cases hclosed : stage' = .closed
  · split_ifs with hactive
    · simp [hclosed]
    · simpa [hclosed] using hactive
  · have hopen : stage ≠ .closed := fun heq => hclosed (Stage.next_closed (heq ▸ h.next))
    simp [hclosed, h.opened_iff.mpr hopen]

/-- A call opens nothing. -/
theorem CallStep.opened_before (h : CallStep s t made todo fd c stage stage') {fd' : Int}
    {owner : Owner} (hopened : t.opened fd' = some owner) : s.opened fd' = some owner := by
  rw [h.effect.opened] at hopened
  split_ifs at hopened
  exact hopened

theorem CallStep.opened_other (h : CallStep s t made todo fd c stage stage')
    (hid : id ≠ s.active) (fd' : Int) :
    t.opened fd' = some (.connection id) ↔ s.opened fd' = some (.connection id) := by
  rw [h.effect.opened]
  split_ifs with hactive
  · simp [hactive.1, Ne.symm hid]
  · rfl

theorem CallStep.expected (h : CallStep s t made todo fd c stage stage')
    (howned : Ownership settings s) (fd' : Int) : t.expected fd' =
      if s.opened fd' = some (.connection s.active) then stage'.entry s.active
      else s.expected fd' := by
  split_ifs with hactive
  · obtain rfl := howned.unique hactive h.established.accepted
    by_cases hclosed : stage' = .closed
    · have hnone : t.opened fd' = none := by rw [h.effect.opened, if_pos ⟨hactive, hclosed⟩]
      rw [Server.expected, hnone, hclosed]
      rfl
    · have hopened : t.opened fd' = some (.connection s.active) := by
        rw [h.effect.opened, if_neg fun heq => hclosed heq.2, hactive]
      rw [expected_connection hopened, h.executed_active, h.after]
      rfl
  · unfold Server.expected
    rw [h.opened_of_ne hactive]
    split
    · rfl
    · rename_i id hid
      have hne : id ≠ s.active := fun heq => hactive (heq ▸ hid)
      rw [h.executed_of_ne hne]
    all_goals rfl

theorem CallStep.tables (h : CallStep s t made todo fd c stage stage') (hs : Sound settings s) :
    Tables t where
  channels fd' := by
    rw [h.effect.channels, h.expected hs.ownership, apply_ite (Option.map Prod.fst),
      ← hs.tables.channels fd']
  epoll fd' := by
    rw [h.effect.epoll, h.expected hs.ownership, apply_ite (Option.map Prod.snd),
      ← hs.tables.epoll fd']
  fresh id hid := by
    have hid : s.connections id = none := h.frame.connections ▸ hid
    have hne : id ≠ s.active := fun heq => by simp [heq, h.connection] at hid
    rw [h.executed_of_ne hne]
    exact hs.tables.fresh id hid
  established id c' hc' := by
    have hc' : s.connections id = some c' := h.frame.connections ▸ hc'
    have haccepted : t.accepted = s.accepted := h.frame.accepted
    by_cases hid : id = s.active
    · subst hid
      obtain rfl : c = c' := by simpa [h.connection] using hc'
      refine ⟨fd, haccepted ▸ h.established.accepted, h.established.sound, ?_, ?_⟩
      · have hremaining : t.remaining s.active = todo := by
          have hactive : t.active = s.active := h.frame.active
          rw [remaining, if_pos hactive.symm]
          exact h.frame.todo
        rw [h.established.calls, remaining, if_pos rfl, h.todo_eq, h.executed_active, hremaining,
          List.append_assoc]
        rfl
      · rw [h.executed_active, h.after, h.opened_iff_after]
        simp
    · obtain ⟨fd', hest⟩ := hs.tables.established id c' hc'
      refine ⟨fd', haccepted ▸ hest.accepted, hest.sound, ?_, ?_⟩
      · rw [h.executed_of_ne hid, h.remaining_of_ne hid]
        exact hest.calls
      · rw [h.executed_of_ne hid, h.opened_other hid]
        exact hest.opened
  active _ := ⟨c, by rw [h.frame.active, h.frame.connections]; exact h.connection⟩

theorem CallStep.upcoming (h : CallStep s t made todo fd c stage stage') :
    t.upcoming = s.upcoming := by
  rw [Server.upcoming, h.frame.tasks, h.frame.pendingTasks, h.frame.acceptor]
  rfl

theorem CallStep.ownership (h : CallStep s t made todo fd c stage stage')
    (hs : Ownership settings s) : Ownership settings t := by
  have haccepted : t.accepted = s.accepted := h.frame.accepted
  have hconnections : t.connections = s.connections := h.frame.connections
  by_cases hclose : stage ≠ .closed ∧ stage' = .closed
  · have hactive := h.opened_iff.mpr hclose.1
    have hopened : t.opened = Function.update s.opened fd none := by
      funext fd'
      rw [h.effect.opened, Function.update_apply]
      by_cases hfd : fd' = fd
      · rw [if_pos hfd, if_pos ⟨hfd ▸ hactive, hclose.2⟩]
      · rw [if_neg hfd, if_neg fun heq => hfd (hs.unique heq.1 h.established.accepted)]
    have hclosed : t.closed = s.closed ++ [s.active] := by rw [h.effect.closed, if_pos hclose]
    refine hs.release (by simp [hactive]) (.inl rfl) hopened haccepted
      (.inr ⟨_, hactive, hclosed⟩) ?_ (h.upcoming ▸ hs.upcoming_nodup) hconnections
    intro p hp
    rw [h.upcoming] at hp
    exact ⟨hp, hs.upcoming_ne hp hactive h.connection⟩
  · have hopened : t.opened = s.opened := by
      funext fd'
      rw [h.effect.opened, if_neg]
      rintro ⟨hactive, hclosed⟩
      obtain rfl := hs.unique hactive h.established.accepted
      exact hclose ⟨h.opened_iff.mp hactive, hclosed⟩
    have hclosed : t.closed = s.closed := by rw [h.effect.closed, if_neg hclose]
    exact hs.congr hopened haccepted hclosed h.upcoming hconnections

theorem CallStep.batch (h : CallStep s t made todo fd c stage stage') (hs : Sound settings s) :
    Batch settings t where
  outside := by rw [h.frame.phase, h.frame.batch]; exact hs.batch.outside
  tasks := by rw [h.frame.phase, h.frame.tasks]; exact hs.batch.tasks
  nodup := by rw [h.frame.batch]; exact hs.batch.nodup
  taken := by
    rw [h.frame.phase, h.frame.batch, h.frame.accepted, h.frame.active]
    exact fun hphase _ => hs.batch.taken hphase (by rw [h.todo_eq]; nofun)
  swapped := by rw [h.frame.phase, h.frame.batch]; exact hs.batch.swapped
  entries event hmem := by
    have hmem : event ∈ s.batch := h.frame.batch ▸ hmem
    have hbatch : t.batch = s.batch := h.frame.batch
    have htasks : t.tasks = s.tasks := h.frame.tasks
    have hconnections : t.connections = s.connections := h.frame.connections
    rcases hs.batch.entries event hmem with hcurrent | hstale
    · cases hcurrent with
      | wakeup hfd hregistrant => exact .inl (.wakeup hfd hregistrant)
      | @connection id c' hregistrant hopened hc' hout =>
        cases hopened' : t.opened event.fd with
        | some owner =>
          have howner := (h.opened_before hopened').symm.trans hopened
          exact .inl (.connection hregistrant (hopened'.trans howner) (hconnections ▸ hc') hout)
        | none =>
          -- The active connection closed its descriptor, which only a task can do here.
          have hid : id = s.active := by
            by_contra hne
            simp [(h.opened_other hne event.fd).mpr hopened] at hopened'
          have hfd : s.accepted[s.active]? = some event.fd :=
            hid ▸ (hs.ownership.owner _ _ hopened).1
          have hphase : s.phase = .runningTasks := by
            by_contra hphase
            by_cases hdispatching : s.phase = .dispatching
            · exact hs.batch.taken hdispatching (by rw [h.todo_eq]; nofun) event hmem hfd
            · simp [hs.batch.outside hdispatching hphase] at hmem
          have hswapped := hs.batch.swapped hphase
          refine .inr ⟨hswapped event hmem, hbatch ▸ hswapped, by simp [hopened'], ?_⟩
          intro id' htask
          have hupcoming : (event.fd, id') ∈ s.upcoming := mem_upcoming_of_tasks (htasks ▸ htask)
          exact hs.ownership.upcoming_ne hupcoming hopened hc' rfl
    · refine .inr ⟨hstale.not_wakeup, hbatch ▸ hstale.swapped, fun id hopened => ?_,
        htasks ▸ hstale.no_task⟩
      rw [hconnections]
      exact hstale.unregistered id (h.opened_before hopened)

end CallStep

theorem Sound.execute (h : Sound settings s) (ht : s.execute = some t) : Sound settings t := by
  obtain ⟨made, todo, fd, c, stage, stage', hstep⟩ := execute_callStep h ht
  exact ⟨hstep.ownership h.ownership, hstep.tables h, hstep.batch h⟩

end CppSearchServer.Net.Server
