import CppSearchServer.Search.LruCache
import CppSearchServer.Search.RedisClient

/-! `search::SearchCache`. A thread's state is its L1 and its Redis client; `get` and
`put` take the state of the calling thread, if there is one yet, and give it back. -/

namespace CppSearchServer.Search

namespace SearchCache

inductive Mode where
  | disabled
  | localOnly
  | localAndRedis
deriving DecidableEq, Repr

structure Config where
  mode : Mode
  localCapacity : Nat
  localTtl : Int
  redisHost : Bytes
  redisPort : Int
  redisTimeout : Int
  redisTtl : Int
deriving DecidableEq, Repr

/-- The default member initialisers: milliseconds, and seconds for `redisTtl`. -/
def Config.default (mode : Mode) : Config where
  mode := mode
  localCapacity := 128
  localTtl := 10000
  redisHost := ascii "127.0.0.1"
  redisPort := 6379
  redisTimeout := 50
  redisTtl := 60

structure ThreadState where
  localCache : LruCache
  redis : RedisClient

def ThreadState.new (config : Config) : Except String ThreadState :=
  match LruCache.new config.localCapacity config.localTtl with
  | .error message => .error message
  | .ok localCache =>
    match RedisClient.new config.redisHost config.redisPort config.redisTimeout with
    | .error message => .error message
    | .ok redis => .ok ⟨localCache, redis⟩

end SearchCache

/-- A cache exists only with a configuration its constructor accepts. -/
structure SearchCache where
  config : SearchCache.Config
  capacity_pos : config.localCapacity ≠ 0
  localTtl_pos : 0 < config.localTtl
  redisTtl_pos : 0 < config.redisTtl

namespace SearchCache

def new (config : Config) : Except String SearchCache :=
  if hcapacity : config.localCapacity = 0 then .error "local cache capacity must be positive"
  else if hlocal : config.localTtl ≤ 0 then .error "local cache TTL must be positive"
  else if hredis : config.redisTtl ≤ 0 then .error "Redis cache TTL must be positive"
  else .ok ⟨config, hcapacity, by omega, by omega⟩

theorem Config.default_accepted (mode : Mode) :
    (default mode).localCapacity ≠ 0 ∧ 0 < (default mode).localTtl ∧
      0 < (default mode).redisTtl :=
  ⟨Nat.succ_ne_zero 127, Int.natCast_pos.mpr (Nat.succ_pos 9999),
    Int.natCast_pos.mpr (Nat.succ_pos 59)⟩

def ofMode (mode : Mode) : SearchCache :=
  ⟨.default mode, (Config.default_accepted mode).1, (Config.default_accepted mode).2.1,
    (Config.default_accepted mode).2.2⟩

theorem new_default (mode : Mode) : new (.default mode) = .ok (ofMode mode) := rfl

def currentThreadState (cache : SearchCache) : Option ThreadState → Except String ThreadState
  | some state => .ok state
  | none => ThreadState.new cache.config

def get (cache : SearchCache) (now : Int) (key : Bytes) (answer : RedisAnswer)
    (known : Option ThreadState) : Except String (Option Bytes) × Option ThreadState :=
  if cache.config.mode = .disabled then (.ok none, known)
  else
    match cache.currentThreadState known with
    | .error message => (.error message, known)
    | .ok state =>
      match state.localCache.get now key with
      | (some value, localCache) => (.ok (some value), some { state with localCache := localCache })
      | (none, localCache) =>
        if cache.config.mode = .localOnly then
          (.ok none, some { state with localCache := localCache })
        else
          match state.redis.get answer with
          | (some value, redis) => (.ok (some value), some ⟨localCache.put now key value, redis⟩)
          | (none, redis) => (.ok none, some ⟨localCache, redis⟩)

def put (cache : SearchCache) (now : Int) (key value : Bytes) (answer : RedisAnswer)
    (known : Option ThreadState) : Except String Unit × Option ThreadState :=
  if cache.config.mode = .disabled then (.ok (), known)
  else
    match cache.currentThreadState known with
    | .error message => (.error message, known)
    | .ok state =>
      let localCache := state.localCache.put now key value
      if cache.config.mode = .localAndRedis then
        (.ok (), some ⟨localCache, (state.redis.setEx cache.config.redisTtl answer).2⟩)
      else (.ok (), some { state with localCache := localCache })

theorem currentThreadState_error {cache : SearchCache} {state : Option ThreadState}
    {message : String} (h : cache.currentThreadState state = .error message) :
    RedisClient.new cache.config.redisHost cache.config.redisPort cache.config.redisTimeout =
      .error message := by
  cases state with
  | some state => cases h
  | none =>
    have hcapacity := cache.capacity_pos
    have httl : ¬cache.config.localTtl ≤ 0 := by
      have := cache.localTtl_pos
      omega
    simp only [currentThreadState, ThreadState.new, LruCache.new, if_neg hcapacity,
      if_neg httl] at h
    split at h
    · rename_i hredis
      cases h
      exact hredis
    · cases h

variable {cache : SearchCache} {known : Option ThreadState} {state : ThreadState} {now : Int}
  {key value : Bytes} {answer : RedisAnswer}

theorem currentThreadState_ok (h : cache.currentThreadState known = .ok state) :
    known = some state ∨
      state.localCache.entries = .empty ∧ state.localCache.ttl = cache.config.localTtl := by
  cases known with
  | some s =>
    cases h
    exact .inl rfl
  | none =>
    simp only [currentThreadState, ThreadState.new] at h
    split at h
    · cases h
    · rename_i localCache hlocal
      split at h
      · cases h
      · cases h
        exact .inr (LruCache.new_empty hlocal)

theorem mode_of_reaches_redis (hmode : cache.config.mode ≠ .disabled)
    (hlocal : cache.config.mode ≠ .localOnly) : cache.config.mode = .localAndRedis := by
  cases h : cache.config.mode
  · exact absurd h hmode
  · exact absurd h hlocal
  · rfl

theorem get_value (h : (cache.get now key answer known).1 = .ok (some value)) :
    cache.config.mode ≠ .disabled ∧ ∃ state, cache.currentThreadState known = .ok state ∧
      ((state.localCache.get now key).1 = some value ∨
        cache.config.mode = .localAndRedis ∧ answer.reply = some (.string (some value))) := by
  unfold get at h
  split at h
  · cases h
  · rename_i hmode
    split at h
    · cases h
    · rename_i state hstate
      refine ⟨hmode, state, hstate, ?_⟩
      split at h
      · rename_i hhit
        cases h
        exact .inl (by rw [hhit])
      · split at h
        · cases h
        · rename_i hlocal
          split at h
          · rename_i hreply
            cases h
            exact .inr ⟨mode_of_reaches_redis hmode hlocal,
              RedisClient.get_eq_some (by rw [hreply])⟩
          · cases h

theorem get_state {after : ThreadState} (h : (cache.get now key answer known).2 = some after) :
    known = some after ∨ ∃ state, cache.currentThreadState known = .ok state ∧
      (after.localCache = (state.localCache.get now key).2 ∨
        ∃ value, cache.config.mode = .localAndRedis ∧
          answer.reply = some (.string (some value)) ∧
          after.localCache = (state.localCache.get now key).2.put now key value) := by
  unfold get at h
  split at h
  · exact .inl h
  · rename_i hmode
    split at h
    · exact .inl h
    · rename_i state hstate
      refine .inr ⟨state, hstate, ?_⟩
      split at h
      · rename_i hhit
        cases h
        exact .inl (by rw [hhit])
      · rename_i hmiss
        split at h
        · cases h
          exact .inl (by rw [hmiss])
        · rename_i hlocal
          split at h
          · rename_i value _ hreply
            cases h
            exact .inr ⟨value, mode_of_reaches_redis hmode hlocal,
              RedisClient.get_eq_some (by rw [hreply]), by rw [hmiss]⟩
          · cases h
            exact .inl (by rw [hmiss])

theorem put_state {after : ThreadState}
    (h : (cache.put now key value answer known).2 = some after) :
    known = some after ∨ ∃ state, cache.currentThreadState known = .ok state ∧
      after.localCache = state.localCache.put now key value := by
  unfold put at h
  split at h
  · exact .inl h
  · split at h
    · exact .inl h
    · rename_i state hstate
      refine .inr ⟨state, hstate, ?_⟩
      dsimp only at h
      split at h
      all_goals
        cases h
        rfl

variable {P : Bytes → Bytes → Prop}

theorem currentThreadState_holds (hknown : ∀ s, known = some s → s.localCache.Holds P)
    (h : cache.currentThreadState known = .ok state) : state.localCache.Holds P := by
  rcases currentThreadState_ok h with hsome | ⟨hempty, -⟩
  · exact hknown state hsome
  · exact LruCache.holds_of_empty hempty

end SearchCache

end CppSearchServer.Search
