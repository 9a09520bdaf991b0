import CppSearchServer.Library.TransitionSystem
import CppSearchServer.Search.RedisClient

/-! `search::RedisClient` on a connection that answers one command after the other.
A command whose reply does not arrive in time stays outstanding, and whoever sends the
next command on that connection reads the late reply as its own. The client never does:
it keeps a connection only when its command has been answered. -/

namespace CppSearchServer.Search

open Library Library.TransitionSystem

inductive RedisCommand where
  | get (key : Bytes)
  | set (key value : Bytes) (ttl : Int)
deriving DecidableEq, Repr

/-- What the network does during one call: whether a connection can be made and set up
if there is none, and whether a reply arrives before the timeout. -/
structure Weather where
  connects : Bool
  setsTimeout : Bool
  arrives : Bool
deriving DecidableEq, Repr

/-- The client with its connection. A command's number is its place among all `commands`
sent so far, and `outstanding` are those that wait for a reply on the present connection. -/
structure RedisLink where
  client : RedisClient
  commands : List RedisCommand
  outstanding : List Nat
deriving DecidableEq, Repr

inductive RedisCall where
  | get (key : Bytes)
  | setEx (key value : Bytes) (ttl : Int)
  | disconnect
deriving DecidableEq, Repr

namespace RedisLink

/-- What the next command waits behind; a new connection has nothing on it. -/
def queue (link : RedisLink) : List Nat := if link.client.connected then link.outstanding else []

def number (link : RedisLink) : Nat := link.commands.length

/-- `redisCommandArgv` sends its command and reads the reply to the oldest outstanding one. -/
def answer (replyTo : Nat → RedisReply) (weather : Weather) (link : RedisLink) : RedisAnswer :=
  ⟨weather.connects, weather.setsTimeout,
    if weather.arrives then (link.queue ++ [link.number]).head?.map replyTo else none⟩

/-- The connection after a call that left the client as `client`; `redisFree` discards
what is pending. -/
def settle (weather : Weather) (command : RedisCommand) (client : RedisClient)
    (link : RedisLink) : RedisLink :=
  let unanswered := if weather.arrives then (link.queue ++ [link.number]).tail
    else link.queue ++ [link.number]
  { client := client
    commands := link.commands ++ [command]
    outstanding := if client.connected then unanswered else [] }

section
variable (replyTo : Nat → RedisReply)

def sends (weather : Weather) (link : RedisLink) : Bool :=
  (link.client.ensureConnected (link.answer replyTo weather)).1

def get (weather : Weather) (key : Bytes) (link : RedisLink) : Option Bytes × RedisLink :=
  let result := link.client.get (link.answer replyTo weather)
  (result.1,
    if link.sends replyTo weather then link.settle weather (.get key) result.2
    else { link with client := result.2 })

def setEx (weather : Weather) (key value : Bytes) (ttl : Int) (link : RedisLink) :
    Bool × RedisLink :=
  let result := link.client.setEx ttl (link.answer replyTo weather)
  (result.1,
    if ttl ≤ 0 then { link with client := result.2 }
    else if link.sends replyTo weather then link.settle weather (.set key value ttl) result.2
    else { link with client := result.2 })

def disconnect (link : RedisLink) : RedisLink :=
  { link with client := link.client.disconnect, outstanding := [] }

def call (weather : Weather) (link : RedisLink) : RedisCall → RedisLink
  | .get key => (link.get replyTo weather key).2
  | .setEx key value ttl => (link.setEx replyTo weather key value ttl).2
  | .disconnect => link.disconnect

def Initial (link : RedisLink) : Prop :=
  (∃ host port timeout, RedisClient.new host port timeout = .ok link.client) ∧
    link.commands = [] ∧ link.outstanding = []

def system : System RedisLink (RedisCall × Weather) where
  initial := Initial
  step link label := some (link.call replyTo label.2 label.1)

/-- Between two calls nothing is outstanding on the connection, and the answer of the next
call is made from the reply to the very command that it sends. -/
structure Attributed (link : RedisLink) : Prop where
  idle : link.client.connected = true → link.outstanding = []
  get : ∀ weather key value, (link.get replyTo weather key).1 = some value →
    (link.get replyTo weather key).2.commands = link.commands ++ [.get key] ∧
      replyTo link.number = .string (some value)
  setEx : ∀ weather key value ttl, (link.setEx replyTo weather key value ttl).1 = true →
    (link.setEx replyTo weather key value ttl).2.commands =
        link.commands ++ [.set key value ttl] ∧
      replyTo link.number = .status (some (ascii "OK"))

variable {replyTo} {link : RedisLink} {weather : Weather}

theorem queue_eq_nil (h : link.client.connected = true → link.outstanding = []) :
    link.queue = [] := by
  rw [queue]
  split
  · exact h ‹_›
  · rfl

theorem reply_eq (h : link.client.connected = true → link.outstanding = []) :
    (link.answer replyTo weather).reply =
      if weather.arrives then some (replyTo link.number) else none := by
  simp [answer, queue_eq_nil h]

/-- An answered command leaves nothing behind on its connection. -/
theorem settle_idle (h : link.client.connected = true → link.outstanding = [])
    (command : RedisCommand) {client : RedisClient}
    (hanswered : client.connected = true → (link.answer replyTo weather).reply.isSome = true) :
    (link.settle weather command client).outstanding = [] := by
  by_cases hconnected : client.connected = true
  · have hsome := hanswered hconnected
    rw [reply_eq h] at hsome
    cases harrives : weather.arrives with
    | true => simp [settle, queue_eq_nil h, harrives]
    | false => simp [harrives] at hsome
  · simp [settle, hconnected]

theorem get_idle (h : link.client.connected = true → link.outstanding = []) (key : Bytes)
    (hconnected : (link.get replyTo weather key).2.client.connected = true) :
    (link.get replyTo weather key).2.outstanding = [] := by
  by_cases hsends : link.sends replyTo weather = true
  · simp only [get, hsends, if_true]
    exact settle_idle h _ fun hconnected => (RedisClient.get_connected hconnected).2
  · simp only [get, if_neg hsends] at hconnected
    exact absurd (RedisClient.get_connected hconnected).1 hsends

theorem setEx_idle (h : link.client.connected = true → link.outstanding = []) (key value : Bytes)
    (ttl : Int)
    (hconnected : (link.setEx replyTo weather key value ttl).2.client.connected = true) :
    (link.setEx replyTo weather key value ttl).2.outstanding = [] := by
  by_cases httl : ttl ≤ 0
  · simp only [setEx, if_pos httl, RedisClient.setEx] at hconnected ⊢
    exact h hconnected
  by_cases hsends : link.sends replyTo weather = true
  · simp only [setEx, if_neg httl, hsends, if_true]
    exact settle_idle h _ fun hconnected => (RedisClient.setEx_connected httl hconnected).2
  · simp only [setEx, if_neg httl, if_neg hsends] at hconnected
    exact absurd (RedisClient.setEx_connected httl hconnected).1 hsends

theorem reachable_idle (h : Reachable (system replyTo) link) :
    link.client.connected = true → link.outstanding = [] := by
  induction h with
  | start hstart => exact fun _ => hstart.2.2
  | @next link _ label _ hstep ih =>
    cases hstep
    obtain ⟨call, weather⟩ := label
    cases call with
    | get key => exact get_idle ih key
    | setEx key value ttl => exact setEx_idle ih key value ttl
    | disconnect => exact fun _ => rfl

theorem get_attributed (h : link.client.connected = true → link.outstanding = [])
    {key value : Bytes}
    (hvalue : (link.get replyTo weather key).1 = some value) :
    (link.get replyTo weather key).2.commands = link.commands ++ [.get key] ∧
      replyTo link.number = .string (some value) := by
  have hsends : link.sends replyTo weather = true := RedisClient.get_sends hvalue
  have hreply := RedisClient.get_eq_some hvalue
  rw [reply_eq h] at hreply
  constructor
  · simp only [get, hsends, if_true]
    rfl
  · exact Option.some.inj (Option.ite_none_right_eq_some.mp hreply).2

theorem setEx_attributed (h : link.client.connected = true → link.outstanding = [])
    {key value : Bytes} {ttl : Int}
    (hstored : (link.setEx replyTo weather key value ttl).1 = true) :
    (link.setEx replyTo weather key value ttl).2.commands =
        link.commands ++ [.set key value ttl] ∧
      replyTo link.number = .status (some (ascii "OK")) := by
  obtain ⟨httl, hsends, hreply⟩ := RedisClient.setEx_eq_true hstored
  rw [reply_eq h] at hreply
  constructor
  · have hsends' : link.sends replyTo weather = true := hsends
    simp only [setEx, if_neg httl, hsends', if_true]
    rfl
  · exact Option.some.inj (Option.ite_none_right_eq_some.mp hreply).2

theorem replies_attributed (h : Reachable (system replyTo) link) : Attributed replyTo link where
  idle := reachable_idle h
  get _ _ _ hvalue := get_attributed (reachable_idle h) hvalue
  setEx _ _ _ _ hstored := setEx_attributed (reachable_idle h) hstored

end

/-- The first reply comes too late, the second command goes out on a new connection. -/
def lateReply : Nat → RedisReply
  | 0 => .string (some (ascii "late"))
  | _ => .string (some (ascii "own"))

def lateLink : RedisLink :=
  ⟨⟨ascii "localhost", 6379, 50, true⟩, [.get (ascii "a"), .get (ascii "b")], []⟩

theorem lateLink_reachable : Reachable (system lateReply) lateLink := by
  have hstart : (system lateReply).initial ⟨⟨ascii "localhost", 6379, 50, false⟩, [], []⟩ :=
    ⟨⟨ascii "localhost", 6379, 50, rfl⟩, rfl, rfl⟩
  have hrun : run (system lateReply) ⟨⟨ascii "localhost", 6379, 50, false⟩, [], []⟩
      [(.get (ascii "a"), ⟨true, true, false⟩), (.get (ascii "b"), ⟨true, true, true⟩)] =
        some lateLink := by
    decide +kernel
  exact (Reachable.start hstart).run hrun

theorem lateLink_attributed : Attributed lateReply lateLink := replies_attributed lateLink_reachable

end RedisLink

end CppSearchServer.Search
