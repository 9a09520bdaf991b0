import CppSearchServer.Net.FdReuse

/-! The calls of `EPOLL_CTL_MOD` and `EPOLL_CTL_DEL`. A handler may close its connection
and then run on, as `handleWrite` does after `handleRead` in one dispatch; what it still
calls then reaches neither the loop nor epoll. -/

namespace CppSearchServer.Net

open Library.TransitionSystem

def Call.registeredFd : Call → Option Int
  | .updateChannel channel => some channel.fd
  | .removeChannel fd => some fd
  | _ => none

namespace Server

variable {settings : Settings} {s t : Server} {id : Nat} {fd : Int}

/-- The descriptor is open, it is the connection's, and so is its registration. -/
structure RegisteredFor (s : Server) (fd : Int) (id : Nat) : Prop where
  opened : s.opened fd = some (.connection id)
  channels : s.channels fd = some (.connection id)
  epoll : (s.epoll fd).isSome

theorem registered_of_next {made : Call} {stage stage' : Stage}
    (hnext : stage.next fd made = some stage') {used : Int}
    (hused : made.registeredFd = some used) :
    used = fd ∧ ∃ events, stage = .registered events := by
  cases made with
  | updateChannel channel =>
    cases hused
    cases stage with
    | registered events =>
      obtain ⟨hfd, -⟩ := Option.ite_none_right_eq_some.mp hnext
      exact ⟨hfd, events, rfl⟩
    | _ => cases hnext
  | removeChannel used =>
    cases hused
    cases stage with
    | registered events =>
      obtain ⟨hfd, -⟩ := Option.ite_none_right_eq_some.mp hnext
      exact ⟨hfd, events, rfl⟩
    | _ => cases hnext
  | _ => cases hused

theorem next_call_registered (h : Sound settings s) {made : Call} {todo : List Call}
    (htodo : s.todo = made :: todo) (hfd : made.registeredFd = some fd) :
    s.RegisteredFor fd s.active := by
  have hexecute : s.execute = some ((s.startCall made todo).perform made) := by
    rw [execute, htodo]
  obtain ⟨made', todo', own, c, stage, stage', hstep⟩ := execute_callStep h hexecute
  obtain ⟨rfl, -⟩ := List.cons.inj (htodo.symm.trans hstep.todo_eq)
  obtain ⟨rfl, events, rfl⟩ := registered_of_next hstep.next hfd
  have hexpected := hstep.established.expected_eq hstep.before nofun
  exact ⟨hstep.opened_iff.mpr nofun, by rw [h.tables.channels, hexpected]; rfl,
    by rw [h.tables.epoll, hexpected]; rfl⟩

theorem step_not_terminated (hs : Sound settings s) {a : Action}
    (ht : s.step settings a = some t) : t.process ≠ .terminated := by
  obtain ⟨hrunning, ⟨-, ht'⟩ | ⟨-, ht'⟩ | ht'⟩ := step_cases ht
  · obtain ⟨made, todo, own, c, stage, stage', hstep⟩ := execute_callStep hs ht'
    rcases hstep.effect.process with heq | ⟨hkilled, -⟩
    · rw [heq, hrunning]
      nofun
    · rw [hkilled]
      nofun
  · rw [(loopStep_frame hs ht').process, hrunning]
    nofun
  · rw [(outsideStep_frame ht').process, hrunning]
    nofun

/-- Every call that changes or removes a registration is made on the caller's own, and no
exception of `epoll_ctl` has left the loop. -/
structure EpollCallsSucceed (s : Server) : Prop where
  registered : ∀ made todo fd, s.todo = made :: todo → made.registeredFd = some fd →
    s.RegisteredFor fd s.active
  not_terminated : s.process ≠ .terminated

theorem server_epollCallsSucceed (h : Reachable (system settings) s) : EpollCallsSucceed s where
  registered _ _ _ := next_call_registered (reachable_sound h)
  not_terminated := by
    cases h with
    | start hs =>
      obtain ⟨now, peers, files, rfl⟩ := hs
      nofun
    | next hreach ht => exact step_not_terminated (reachable_sound hreach) ht

/-- A response does not fit into the socket. Then the descriptor is readable and writable
at once: `recv` fails, `handleRead` closes the connection, and `handleWrite` still runs. -/
def closedWhileWriting : List Action :=
  [.accept 5, .queueEstablish, .wait [(3, EPOLLIN)], .dispatch [] [] true, .runTask [], .execute,
   .execute, .endTasks, .endBatch, .endTimers, .wait [(5, EPOLLIN)],
   .dispatch [.bytes (ascii "GET /metrics" ++ headerEnd)] [] false, .execute, .execute, .execute,
   .complete 0 1 none ⟨ascii "ok", true⟩, .endBatch, .endTimers,
   .wait [(3, EPOLLIN)], .dispatch [] [] true, .runTask [.bytes 1], .execute, .execute, .execute,
   .endTasks, .endBatch, .endTimers, .wait [(5, EPOLLIN ||| EPOLLOUT)],
   .dispatch [.fail] [] false, .execute]

def closingState : Server :=
  (run (system sampleSettings) (new sampleSettings 0 (fun _ => .connected) fun _ => false)
    closedWhileWriting).get (by decide +kernel)

theorem closingState_epollCallsSucceed :
    closingState.todo = [.removeChannel 5, .closeFd 5, .send 0 (-1) (ascii "k") .fail] ∧
      EpollCallsSucceed closingState :=
  ⟨by decide +kernel, server_epollCallsSucceed
    (Reachable.run (.start ⟨_, _, _, rfl⟩) (Option.some_get _).symm)⟩

end Server

end CppSearchServer.Net
