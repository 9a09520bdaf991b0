import CppSearchServer.Library.TransitionSystem
import CppSearchServer.Search.SearchCache
import Mathlib.Logic.Function.Basic

/-! Where the values of `SearchCache` come from, and how old they are. Threads call
`get` and `put` of any number of instances, one call a step; `server` says which Redis
an instance is connected to. Redis returns for a key the value of the last SET it has
accepted, within the TTL of that SET, or nothing. -/

namespace CppSearchServer.Search

open Library.TransitionSystem

structure PutRecord (Worker Instance : Type*) where
  worker : Worker
  target : Instance
  key : Bytes
  value : Bytes
  time : Int

structure RedisRecord where
  value : Bytes
  acceptedAt : Int
  ttl : Int
deriving DecidableEq

/-- `puts` is every call of `put` so far. -/
structure CacheUse (Worker Instance Server : Type*) where
  now : Int
  threadStates : Worker → Instance → Option SearchCache.ThreadState
  stored : Server → Bytes → Option RedisRecord
  puts : List (PutRecord Worker Instance)

namespace CacheUse

inductive Action (Worker Instance : Type*) where
  | tick (elapsed : Nat)
  | get (worker : Worker) (target : Instance) (key : Bytes) (answer : RedisAnswer)
  | put (worker : Worker) (target : Instance) (key value : Bytes) (answer : RedisAnswer)
    (applied : Bool)

variable {Worker Instance Server : Type*} (caches : Instance → SearchCache)
  (server : Instance → Server) (second : Nat)

/-- Whether a reply to GET is one Redis may give. -/
def honest (s : CacheUse Worker Instance Server) (redis : Server) (key : Bytes)
    (answer : RedisAnswer) : Bool :=
  match answer.reply with
  | some (.string (some value)) =>
    match s.stored redis key with
    | some record => value = record.value && s.now < record.acceptedAt + record.ttl * second
    | none => false
  | _ => true

def sendsSet (cache : SearchCache) (answer : RedisAnswer)
    (known : Option SearchCache.ThreadState) : Bool :=
  match cache.currentThreadState known with
  | .error _ => false
  | .ok state =>
    cache.config.mode = .localAndRedis && (state.redis.ensureConnected answer).1

section

variable [DecidableEq Worker] [DecidableEq Instance] [DecidableEq Server]

def setState (worker : Worker) (target : Instance) (state : Option SearchCache.ThreadState)
    (s : CacheUse Worker Instance Server) : CacheUse Worker Instance Server :=
  let states := Function.update (s.threadStates worker) target state
  { s with threadStates := Function.update s.threadStates worker states }

def store (redis : Server) (key : Bytes) (record : RedisRecord)
    (s : CacheUse Worker Instance Server) : CacheUse Worker Instance Server :=
  let stored := Function.update (s.stored redis) key (some record)
  { s with stored := Function.update s.stored redis stored }

def put (worker : Worker) (target : Instance) (key value : Bytes) (answer : RedisAnswer)
    (applied : Bool) (s : CacheUse Worker Instance Server) : CacheUse Worker Instance Server :=
  let cache := caches target
  let known := s.threadStates worker target
  let s := s.setState worker target (cache.put s.now key value answer known).2
  let s := { s with puts := s.puts ++ [⟨worker, target, key, value, s.now⟩] }
  if applied && sendsSet cache answer known then
    s.store (server target) key ⟨value, s.now, cache.config.redisTtl⟩
  else s

def step (s : CacheUse Worker Instance Server) :
    Action Worker Instance → Option (CacheUse Worker Instance Server)
  | .tick elapsed => some { s with now := s.now + elapsed }
  | .get worker target key answer =>
    if s.honest second (server target) key answer then
      some (s.setState worker target
        ((caches target).get s.now key answer (s.threadStates worker target)).2)
    else none
  | .put worker target key value answer applied =>
    some (s.put caches server worker target key value answer applied)

def system : System (CacheUse Worker Instance Server) (Action Worker Instance) where
  initial s := (∀ worker target, s.threadStates worker target = none) ∧
    (∀ redis key, s.stored redis key = none) ∧ s.puts = []
  step := step caches server second

end

/-- Instances that use the same Redis agree on the TTL of what they store there. -/
def SharedTtl : Prop :=
  ∀ i j, server i = server j → (caches i).config.mode = .localAndRedis →
    (caches j).config.mode = .localAndRedis →
    (caches i).config.redisTtl = (caches j).config.redisTtl

def Bounded (cache : SearchCache) (second : Nat) (worker : Worker) (target : Instance) (now : Int)
    (record : PutRecord Worker Instance) : Prop :=
  match cache.config.mode with
  | .disabled => False
  | .localOnly =>
    record.worker = worker ∧ record.target = target ∧ now - record.time < cache.config.localTtl
  | .localAndRedis =>
    now - record.time < cache.config.redisTtl * second + cache.config.localTtl

/-- An entry of an L1 that was loaded at `loadedAt`: by a `put` of its own thread, or
from Redis within the TTL of Redis. -/
def Loaded (puts : List (PutRecord Worker Instance)) (worker : Worker) (target : Instance)
    (key value : Bytes) (loadedAt : Int) : Prop :=
  ∃ record ∈ puts, record.key = key ∧ record.value = value ∧
    (record.worker = worker ∧ record.target = target ∧ record.time = loadedAt ∨
      (caches target).config.mode = .localAndRedis ∧
        loadedAt < record.time + (caches target).config.redisTtl * second)

structure CacheSound (puts : List (PutRecord Worker Instance)) (worker : Worker)
    (target : Instance) (cache : LruCache) : Prop where
  ttl : cache.ttl = (caches target).config.localTtl
  loaded : ∀ key entry, cache.entries.find key = some entry →
    Loaded caches second puts worker target key entry.value
      (entry.expiresAt - (caches target).config.localTtl)

structure Sound (s : CacheUse Worker Instance Server) : Prop where
  past : ∀ record ∈ s.puts, record.time ≤ s.now
  cached : ∀ worker target state, s.threadStates worker target = some state →
    CacheSound caches second s.puts worker target state.localCache
  stored : ∀ redis key record, s.stored redis key = some record →
    ∃ put ∈ s.puts, put.key = key ∧ put.value = record.value ∧ put.time = record.acceptedAt ∧
      server put.target = redis ∧ (caches put.target).config.mode = .localAndRedis ∧
      record.ttl = (caches put.target).config.redisTtl

variable {caches server second} {s t : CacheUse Worker Instance Server} {worker : Worker}
  {target : Instance} {key value : Bytes} {answer : RedisAnswer} {cache : LruCache}
  {puts puts' : List (PutRecord Worker Instance)}

theorem Loaded.mono {loadedAt : Int} (hsub : ∀ record ∈ puts, record ∈ puts')
    (h : Loaded caches second puts worker target key value loadedAt) :
    Loaded caches second puts' worker target key value loadedAt := by
  obtain ⟨record, hmem, hrecord⟩ := h
  exact ⟨record, hsub record hmem, hrecord⟩

theorem CacheSound.mono (hsub : ∀ record ∈ puts, record ∈ puts')
    (h : CacheSound caches second puts worker target cache) :
    CacheSound caches second puts' worker target cache :=
  ⟨h.ttl, fun key entry hfind => (h.loaded key entry hfind).mono hsub⟩

theorem CacheSound.get (h : CacheSound caches second puts worker target cache) (now : Int)
    (key : Bytes) : CacheSound caches second puts worker target (cache.get now key).2 :=
  ⟨(LruCache.get_ttl cache now key).trans h.ttl,
    fun key' entry hfind => h.loaded key' entry (LruCache.find_of_get hfind)⟩

theorem CacheSound.put (h : CacheSound caches second puts worker target cache) {now : Int}
    (hloaded : Loaded caches second puts worker target key value now) :
    CacheSound caches second puts worker target (cache.put now key value) := by
  refine ⟨(LruCache.put_ttl cache now key value).trans h.ttl, fun key' entry hfind => ?_⟩
  rcases LruCache.find_of_put hfind with ⟨rfl, rfl, hexpires⟩ | hfind
  · rw [hexpires, h.ttl, Int.add_sub_cancel]
    exact hloaded
  · exact h.loaded key' entry hfind

theorem Sound.currentThreadState (h : Sound caches server second s)
    {state : SearchCache.ThreadState}
    (hstate : (caches target).currentThreadState (s.threadStates worker target) = .ok state) :
    CacheSound caches second s.puts worker target state.localCache := by
  rcases SearchCache.currentThreadState_ok hstate with hsome | ⟨hempty, httl⟩
  · exact h.cached worker target state hsome
  · refine ⟨httl, fun key entry hfind => ?_⟩
    rw [hempty] at hfind
    cases hfind

theorem Sound.reply (h : Sound caches server second s)
    (hshared : SharedTtl caches server)
    (hmode : (caches target).config.mode = .localAndRedis)
    (hhonest : s.honest second (server target) key answer = true)
    (hreply : answer.reply = some (.string (some value))) :
    ∃ record ∈ s.puts, record.key = key ∧ record.value = value ∧
      s.now < record.time + (caches target).config.redisTtl * second := by
  rw [honest, hreply] at hhonest
  dsimp only at hhonest
  split at hhonest
  · rename_i record hstored
    obtain ⟨put, hput, hkey, hvalue, htime, hserver, hputMode, httl⟩ :=
      h.stored _ _ record hstored
    simp only [Bool.and_eq_true, decide_eq_true_eq] at hhonest
    refine ⟨put, hput, hkey, hvalue.trans hhonest.1.symm, ?_⟩
    rw [htime, ← hshared _ _ hserver hputMode hmode, ← httl]
    exact hhonest.2
  · cases hhonest

variable [DecidableEq Worker] [DecidableEq Instance]

theorem Sound.setState (h : Sound caches server second s)
    {state : Option SearchCache.ThreadState}
    (hstate : ∀ after, state = some after →
      CacheSound caches second s.puts worker target after.localCache) :
    Sound caches server second (s.setState worker target state) := by
  refine ⟨h.past, fun other target' after hafter => ?_, h.stored⟩
  simp only [CacheUse.setState, Function.update_apply] at hafter
  split at hafter
  · rename_i hworker
    rw [Function.update_apply] at hafter
    split at hafter
    · rename_i htarget
      rw [hworker, htarget]
      exact hstate after hafter
    · exact hworker ▸ h.cached worker target' after hafter
  · exact h.cached other target' after hafter

theorem Sound.get (h : Sound caches server second s)
    (hshared : SharedTtl caches server)
    (hhonest : s.honest second (server target) key answer = true) :
    Sound caches server second (s.setState worker target
      ((caches target).get s.now key answer (s.threadStates worker target)).2) := by
  refine h.setState fun after hafter => ?_
  rcases SearchCache.get_state hafter with hknown | ⟨state, hstate, hcache | hfound⟩
  · exact h.cached worker target after hknown
  · exact hcache ▸ (h.currentThreadState hstate).get s.now key
  · obtain ⟨value, hmode, hreply, hcache⟩ := hfound
    obtain ⟨record, hrecord, hkey, hvalue, htime⟩ := h.reply hshared hmode hhonest hreply
    rw [hcache]
    exact ((h.currentThreadState hstate).get s.now key).put
      ⟨record, hrecord, hkey, hvalue, .inr ⟨hmode, htime⟩⟩

omit [DecidableEq Worker] [DecidableEq Instance] in
theorem Sound.record (h : Sound caches server second s) (put : PutRecord Worker Instance)
    (htime : put.time = s.now) :
    Sound caches server second { s with puts := s.puts ++ [put] } := by
  have hsub : ∀ record ∈ s.puts, record ∈ s.puts ++ [put] := fun _ => List.mem_append_left _
  refine ⟨fun record hrecord => ?_, fun worker target state hstate =>
    (h.cached worker target state hstate).mono hsub, fun redis key record hrecord => ?_⟩
  · rcases List.mem_append.mp hrecord with hrecord | hrecord
    · exact h.past record hrecord
    · rw [List.mem_singleton.mp hrecord]
      exact Int.le_of_eq htime
  · obtain ⟨put, hput, hstored⟩ := h.stored redis key record hrecord
    exact ⟨put, hsub put hput, hstored⟩

omit [DecidableEq Worker] [DecidableEq Instance] in
theorem Sound.store [DecidableEq Server] (h : Sound caches server second s)
    (put : PutRecord Worker Instance) (hput : put ∈ s.puts)
    (hmode : (caches put.target).config.mode = .localAndRedis) :
    Sound caches server second (s.store (server put.target) put.key
      ⟨put.value, put.time, (caches put.target).config.redisTtl⟩) := by
  refine ⟨h.past, h.cached, fun redis key record hrecord => ?_⟩
  simp only [CacheUse.store, Function.update_apply] at hrecord
  split at hrecord
  · rename_i hserver
    subst hserver
    rw [Function.update_apply] at hrecord
    split at hrecord
    · rename_i hkey
      cases hrecord
      exact ⟨put, hput, hkey.symm, rfl, rfl, rfl, hmode, rfl⟩
    · exact h.stored _ key record hrecord
  · exact h.stored redis key record hrecord

theorem mode_of_sendsSet {cache : SearchCache} {known : Option SearchCache.ThreadState}
    (h : sendsSet cache answer known = true) : cache.config.mode = .localAndRedis := by
  unfold sendsSet at h
  split at h
  · cases h
  · simp only [Bool.and_eq_true, decide_eq_true_eq] at h
    exact h.1

theorem Sound.put [DecidableEq Server] (h : Sound caches server second s) (applied : Bool) :
    Sound caches server second
      (s.put caches server worker target key value answer applied) := by
  have hrecorded := h.record ⟨worker, target, key, value, s.now⟩ rfl
  have hcached : Sound caches server second (CacheUse.setState worker target
      ((caches target).put s.now key value answer (s.threadStates worker target)).2
      { s with puts := s.puts ++ [⟨worker, target, key, value, s.now⟩] }) := by
    refine hrecorded.setState fun after hafter => ?_
    rcases SearchCache.put_state hafter with hknown | ⟨state, hstate, hcache⟩
    · exact hrecorded.cached worker target after hknown
    · rw [hcache]
      exact (hrecorded.currentThreadState hstate).put
        ⟨⟨worker, target, key, value, s.now⟩, by simp, rfl, rfl, .inl ⟨rfl, rfl, rfl⟩⟩
  unfold CacheUse.put
  dsimp only
  split
  · rename_i hsent
    simp only [Bool.and_eq_true] at hsent
    exact hcached.store ⟨worker, target, key, value, s.now⟩
      (List.mem_append_right _ (List.mem_singleton_self _)) (mode_of_sendsSet hsent.2)
  · exact hcached

theorem reachable_sound [DecidableEq Server]
    (hshared : SharedTtl caches server)
    (h : Reachable (system caches server second) s) : Sound caches server second s := by
  refine h.invariant (P := fun s => Sound caches server second s) ?_ ?_
  · rintro s ⟨hfresh, hempty, hputs⟩
    refine ⟨by simp [hputs], fun worker target state hstate => ?_,
      fun redis key record hrecord => ?_⟩
    · simp [hfresh] at hstate
    · simp [hempty] at hrecord
  · intro s a t _ hs hstep
    cases a with
    | tick elapsed =>
      cases hstep
      refine ⟨fun record hrecord => ?_, hs.cached, hs.stored⟩
      have := hs.past record hrecord
      simp only
      omega
    | get worker target key answer =>
      obtain ⟨hhonest, hstep⟩ := Option.ite_none_right_eq_some.mp hstep
      cases hstep
      exact hs.get hshared hhonest
    | put worker target key value answer applied =>
      cases hstep
      exact hs.put applied

/-- Whatever the interleaving, a value comes from a `put` under the same key that is not
too old; without Redis, from one of the same thread on the same instance. -/
theorem get_bounded [DecidableEq Server]
    (hshared : SharedTtl caches server)
    (h : Reachable (system caches server second) s)
    (hstep : (system caches server second).step s (.get worker target key answer) = some t)
    (hget : ((caches target).get s.now key answer (s.threadStates worker target)).1 =
      .ok (some value)) :
    ∃ record ∈ s.puts, record.key = key ∧ record.value = value ∧ record.time ≤ s.now ∧
      Bounded (caches target) second worker target s.now record := by
  have hs := reachable_sound hshared h
  obtain ⟨hhonest, -⟩ := Option.ite_none_right_eq_some.mp hstep
  obtain ⟨hmode, state, hstate, hhit | ⟨hredis, hreply⟩⟩ := SearchCache.get_value hget
  · obtain ⟨entry, hfind, rfl, hnow⟩ := LruCache.find_of_get_value hhit
    obtain ⟨record, hrecord, hkey, hvalue, hloaded⟩ :=
      (hs.currentThreadState hstate).loaded key entry hfind
    refine ⟨record, hrecord, hkey, hvalue, hs.past record hrecord, ?_⟩
    have hredisTtl := (caches target).redisTtl_pos
    have hlater : 0 ≤ (caches target).config.redisTtl * (second : Int) :=
      Int.mul_nonneg (Int.le_of_lt hredisTtl) (Int.natCast_nonneg second)
    unfold Bounded
    split
    · rename_i hdisabled
      exact hmode hdisabled
    · rename_i hlocalOnly
      rcases hloaded with ⟨hworker, htarget, htime⟩ | ⟨hredis, -⟩
      · exact ⟨hworker, htarget, by omega⟩
      · rw [hlocalOnly] at hredis
        cases hredis
    · rcases hloaded with ⟨-, -, htime⟩ | ⟨-, htime⟩ <;> omega
  · obtain ⟨record, hrecord, hkey, hvalue, htime⟩ := hs.reply hshared hredis hhonest hreply
    refine ⟨record, hrecord, hkey, hvalue, hs.past record hrecord, ?_⟩
    have hlocalTtl := (caches target).localTtl_pos
    simp only [Bounded, hredis]
    omega

def sampleCaches : Unit → SearchCache := fun _ => .ofMode .localAndRedis

def sampleStart : CacheUse Bool Unit Unit := ⟨0, fun _ _ => none, fun _ _ => none, []⟩

/-- A value is stored, and found in Redis by another thread just before Redis drops it. -/
def sampleActions : List (Action Bool Unit) :=
  [.put true () (ascii "key") (ascii "value") ⟨true, true, none⟩ true, .tick 59999,
   .get false () (ascii "key") ⟨true, true, some (.string (some (ascii "value")))⟩, .tick 9999]

def sampleState : CacheUse Bool Unit Unit :=
  (run (system sampleCaches id 1000) sampleStart sampleActions).get (by decide +kernel)

/-- The L1 of that thread still has it almost 70 seconds after the `put`. -/
theorem sampleState_bounded :
    sampleState.now = 69998 ∧
      ∃ record ∈ sampleState.puts, record.key = ascii "key" ∧ record.value = ascii "value" ∧
        record.time ≤ sampleState.now ∧
        Bounded (sampleCaches ()) 1000 false () sampleState.now record := by
  refine ⟨by decide +kernel, ?_⟩
  have hreachable : Reachable (system sampleCaches id 1000) sampleState :=
    Reachable.run (.start ⟨fun _ _ => rfl, fun _ _ => rfl, rfl⟩) (Option.some_get _).symm
  have hstep : (system sampleCaches id 1000).step sampleState
      (.get false () (ascii "key") ⟨true, true, none⟩) = some _ := rfl
  exact get_bounded (fun _ _ _ _ _ => rfl) hreachable hstep (by decide +kernel)

end CacheUse

end CppSearchServer.Search
