import CppSearchServer.Bytes
import Mathlib.Tactic.SplitIfs

/-! `search::RedisClient`, against anything that hiredis and the server may do. -/

namespace CppSearchServer.Search

inductive RedisReply where
  | nil
  | string (str : Option Bytes)
  | status (str : Option Bytes)
  | other
deriving DecidableEq, Repr

/-- What happens to one command: whether a connection can be made and set up if
there is none, and the reply, `none` for a null pointer. -/
structure RedisAnswer where
  connects : Bool
  setsTimeout : Bool
  reply : Option RedisReply
deriving DecidableEq, Repr

/-- `connected` says that `context_` is not null. -/
structure RedisClient where
  host : Bytes
  port : Int
  timeout : Int
  connected : Bool
deriving DecidableEq, Repr

namespace RedisClient

def new (host : Bytes) (port timeout : Int) : Except String RedisClient :=
  if host.isEmpty then .error "Redis host must not be empty"
  else if port ≤ 0 ∨ port > 65535 then .error "Redis port must be in range 1..65535"
  else if timeout ≤ 0 then .error "Redis timeout must be positive"
  else .ok ⟨host, port, timeout, false⟩

def disconnect (c : RedisClient) : RedisClient := { c with connected := false }

def ensureConnected (answer : RedisAnswer) (c : RedisClient) : Bool × RedisClient :=
  if c.connected then (true, c)
  else if !answer.connects then (false, c.disconnect)
  else if !answer.setsTimeout then (false, c.disconnect)
  else (true, { c with connected := true })

def get (answer : RedisAnswer) (c : RedisClient) : Option Bytes × RedisClient :=
  match c.ensureConnected answer with
  | (false, c) => (none, c)
  | (true, c) =>
    match answer.reply with
    | none => (none, c.disconnect)
    | some .nil => (none, c)
    | some (.string none) => (none, c.disconnect)
    | some (.string (some value)) => (some value, c)
    | some _ => (none, c.disconnect)

def setEx (ttl : Int) (answer : RedisAnswer) (c : RedisClient) : Bool × RedisClient :=
  if ttl ≤ 0 then (false, c)
  else
    match c.ensureConnected answer with
    | (false, c) => (false, c)
    | (true, c) =>
      let success := answer.reply = some (.status (some (ascii "OK")))
      (success, if success then c else c.disconnect)

theorem get_eq_some {answer : RedisAnswer} {c : RedisClient} {value : Bytes}
    (h : (c.get answer).1 = some value) : answer.reply = some (.string (some value)) := by
  unfold get at h
  split at h
  · cases h
  · split at h
    case h_4 hreply =>
      cases h
      exact hreply
    all_goals cases h

theorem ensureConnected_fails {answer : RedisAnswer} {c c' : RedisClient}
    (h : c.ensureConnected answer = (false, c')) : c'.connected = false := by
  unfold ensureConnected at h
  split_ifs at h <;> cases h <;> rfl

theorem get_connected {answer : RedisAnswer} {c : RedisClient}
    (h : (c.get answer).2.connected = true) :
    (c.ensureConnected answer).1 = true ∧ answer.reply.isSome = true := by
  unfold get at h
  split at h
  · rename_i c' hnot
    rw [ensureConnected_fails hnot] at h
    cases h
  · rename_i c' hsent
    refine ⟨congrArg Prod.fst hsent, ?_⟩
    cases hreply : answer.reply with
    | none =>
      rw [hreply] at h
      cases h
    | some reply => rfl

theorem get_sends {answer : RedisAnswer} {c : RedisClient} {value : Bytes}
    (h : (c.get answer).1 = some value) : (c.ensureConnected answer).1 = true := by
  unfold get at h
  split at h
  · cases h
  · rename_i c' hsent
    exact congrArg Prod.fst hsent

theorem setEx_connected {answer : RedisAnswer} {c : RedisClient} {ttl : Int} (httl : ¬ttl ≤ 0)
    (h : (c.setEx ttl answer).2.connected = true) :
    (c.ensureConnected answer).1 = true ∧ answer.reply.isSome = true := by
  rw [setEx, if_neg httl] at h
  split at h
  · rename_i c' hnot
    rw [ensureConnected_fails hnot] at h
    cases h
  · rename_i c' hsent
    refine ⟨congrArg Prod.fst hsent, ?_⟩
    by_cases hreply : answer.reply = some (.status (some (ascii "OK")))
    · rw [hreply]
      rfl
    · simp [hreply, disconnect] at h

theorem setEx_eq_true {answer : RedisAnswer} {c : RedisClient} {ttl : Int}
    (h : (c.setEx ttl answer).1 = true) :
    ¬ttl ≤ 0 ∧ (c.ensureConnected answer).1 = true ∧
      answer.reply = some (.status (some (ascii "OK"))) := by
  unfold setEx at h
  split at h
  · cases h
  · rename_i httl
    split at h
    · cases h
    · rename_i c' hsent
      exact ⟨httl, congrArg Prod.fst hsent, by simpa using h⟩

end RedisClient

end CppSearchServer.Search
