import CppSearchServer.Library.TransitionSystem
import CppSearchServer.Search.Retrieval
import CppSearchServer.Search.SearchCache

/-! Any number of worker threads calling `SearchApplication::handleRequest` on any
number of cached instances. A call pauses at each access to Redis and before it computes;
Redis may lose, forget and refuse anything, but returns under a key only what was stored
under it. A key names the query and no instance, so that the instances that share Redis
have to agree about the chunks. -/

namespace CppSearchServer.Search

open Library.TransitionSystem

structure PendingSearch (Instance : Type*) where
  target : Instance
  request : Bytes
  query : Bytes
  closeAfterResponse : Bool

/-- Where a worker is: before the GET, before the search itself, before the SET. -/
inductive WorkerPosition (Instance : Type*) where
  | idle
  | redisGet (pending : PendingSearch Instance)
  | computing (pending : PendingSearch Instance)
  | redisSet (pending : PendingSearch Instance) (json : Bytes)

/-- `stored` is every entry Redis was ever given. `returned` is the history of
the calls of `handleRequest`, each with its instance, its request and the response or
the exception. -/
structure Serving (Worker Instance : Type*) where
  now : Int
  position : Worker → WorkerPosition Instance
  threadStates : Worker → Instance → Option SearchCache.ThreadState
  stored : List (Bytes × Bytes)
  returned : List (Instance × Bytes × Except String ApplicationResponse)

namespace Serving

inductive Action (Worker Instance : Type*) where
  | tick (elapsed : Nat)
  | handleRequest (worker : Worker) (target : Instance) (request : Bytes)
  | redisGet (worker : Worker) (answer : RedisAnswer)
  | compute (worker : Worker)
  | redisSet (worker : Worker) (answer : RedisAnswer) (applied : Bool)

variable {R Worker Instance : Type*} [Field R] [LinearOrder R] [DecidableEq Worker]
  [DecidableEq Instance] (apps : Instance → SearchApplication R)
  (caches : Instance → SearchCache)

def goTo (worker : Worker) (position : WorkerPosition Instance) (s : Serving Worker Instance) :
    Serving Worker Instance :=
  { s with position := Function.update s.position worker position }

def finish (worker : Worker) (target : Instance) (request : Bytes)
    (result : Except String ApplicationResponse) (s : Serving Worker Instance) :
    Serving Worker Instance :=
  { s.goTo worker .idle with returned := s.returned ++ [(target, request, result)] }

def setState (worker : Worker) (target : Instance) (state : SearchCache.ThreadState)
    (s : Serving Worker Instance) : Serving Worker Instance :=
  let states := Function.update (s.threadStates worker) target (some state)
  { s with threadStates := Function.update s.threadStates worker states }

def lookUp (worker : Worker) (pending : PendingSearch Instance) (s : Serving Worker Instance) :
    Serving Worker Instance :=
  let cache := caches pending.target
  if cache.config.mode = .disabled then s.goTo worker (.computing pending)
  else
    match cache.currentThreadState (s.threadStates worker pending.target) with
    | .error message => s.finish worker pending.target pending.request (.error message)
    | .ok state =>
      let cached := state.localCache.get s.now (makeSearchCacheKey pending.query)
      let s := s.setState worker pending.target { state with localCache := cached.2 }
      match cached.1 with
      | some json =>
        s.finish worker pending.target pending.request
          (.ok (okSearch json pending.closeAfterResponse))
      | none =>
        if cache.config.mode = .localOnly then s.goTo worker (.computing pending)
        else s.goTo worker (.redisGet pending)

def handleRequest (worker : Worker) (target : Instance) (request : Bytes)
    (s : Serving Worker Instance) : Serving Worker Instance :=
  match route (apps target).headerOrder request with
  | .respond response => s.finish worker target request (.ok response)
  | .search query closeAfterResponse =>
    s.lookUp caches worker ⟨target, request, query, closeAfterResponse⟩

def redisGet (worker : Worker) (pending : PendingSearch Instance)
    (state : SearchCache.ThreadState) (answer : RedisAnswer) (s : Serving Worker Instance) :
    Serving Worker Instance :=
  let reply := state.redis.get answer
  match reply.1 with
  | some json =>
    let localCache := state.localCache.put s.now (makeSearchCacheKey pending.query) json
    (s.setState worker pending.target ⟨localCache, reply.2⟩).finish worker pending.target
      pending.request (.ok (okSearch json pending.closeAfterResponse))
  | none =>
    (s.setState worker pending.target { state with redis := reply.2 }).goTo worker
      (.computing pending)

def compute (worker : Worker) (pending : PendingSearch Instance) (s : Serving Worker Instance) :
    Serving Worker Instance :=
  let json := (apps pending.target).searchJson pending.query
  let result := .ok (okSearch json pending.closeAfterResponse)
  let cache := caches pending.target
  if cache.config.mode = .disabled then s.finish worker pending.target pending.request result
  else
    match cache.currentThreadState (s.threadStates worker pending.target) with
    | .error message => s.finish worker pending.target pending.request (.error message)
    | .ok state =>
      let localCache := state.localCache.put s.now (makeSearchCacheKey pending.query) json
      let s := s.setState worker pending.target { state with localCache := localCache }
      if cache.config.mode = .localAndRedis then s.goTo worker (.redisSet pending json)
      else s.finish worker pending.target pending.request result

def redisSet (worker : Worker) (pending : PendingSearch Instance) (json : Bytes)
    (state : SearchCache.ThreadState) (answer : RedisAnswer) (applied : Bool)
    (s : Serving Worker Instance) : Serving Worker Instance :=
  let redis := (state.redis.setEx (caches pending.target).config.redisTtl answer).2
  let s := s.setState worker pending.target { state with redis := redis }
  let s :=
    if applied then
      { s with stored := s.stored ++ [(makeSearchCacheKey pending.query, json)] }
    else s
  s.finish worker pending.target pending.request (.ok (okSearch json pending.closeAfterResponse))

/-- Redis returns for a key only a value that was stored under it. -/
def honest (s : Serving Worker Instance) (key : Bytes) (answer : RedisAnswer) : Bool :=
  match answer.reply with
  | some (.string (some value)) => s.stored.contains (key, value)
  | _ => true

def step (s : Serving Worker Instance) :
    Action Worker Instance → Option (Serving Worker Instance)
  | .tick elapsed => some { s with now := s.now + elapsed }
  | .handleRequest worker target request =>
    match s.position worker with
    | .idle => some (s.handleRequest apps caches worker target request)
    | _ => none
  | .redisGet worker answer =>
    match s.position worker with
    | .redisGet pending =>
      match s.threadStates worker pending.target with
      | some state =>
        if s.honest (makeSearchCacheKey pending.query) answer = true then
          some (s.redisGet worker pending state answer)
        else none
      | none => none
    | _ => none
  | .compute worker =>
    match s.position worker with
    | .computing pending => some (s.compute apps caches worker pending)
    | _ => none
  | .redisSet worker answer applied =>
    match s.position worker with
    | .redisSet pending json =>
      (s.threadStates worker pending.target).map fun state =>
        s.redisSet caches worker pending json state answer applied
    | _ => none

/-- What an application stores under the key of a query. -/
def Answers (app : SearchApplication R) (key json : Bytes) : Prop :=
  ∀ query, key = makeSearchCacheKey query → json = app.searchJson query

def SharesRedis (cache : SearchCache) : Prop := cache.config.mode = .localAndRedis

/-- No thread has run yet. Redis may hold what any of the instances has stored before. -/
def system : System (Serving Worker Instance) (Action Worker Instance) where
  initial s := (∀ worker, s.position worker = .idle) ∧ (∀ worker target,
    s.threadStates worker target = none) ∧ s.returned = [] ∧ ∀ entry ∈ s.stored,
      ∃ target, SharesRedis (caches target) ∧ Answers (apps target) entry.1 entry.2
  step := step apps caches

theorem answers_searchJson (app : SearchApplication R) (query : Bytes) :
    Answers app (makeSearchCacheKey query) (app.searchJson query) := fun _ heq =>
  congrArg app.searchJson (makeSearchCacheKey_injective heq)

def Agree : Prop :=
  ∀ target other, SharesRedis (caches target) → SharesRedis (caches other) →
    (apps target).searchJson = (apps other).searchJson

def Routed (pending : PendingSearch Instance) : Prop :=
  route (apps pending.target).headerOrder pending.request =
    .search pending.query pending.closeAfterResponse

def PositionSound : WorkerPosition Instance → Prop
  | .idle => True
  | .computing pending => Routed apps pending
  | .redisGet pending => Routed apps pending ∧ SharesRedis (caches pending.target)
  | .redisSet pending json => Routed apps pending ∧ SharesRedis (caches pending.target) ∧
      json = (apps pending.target).searchJson pending.query

def ResultSound (target : Instance) (request : Bytes) :
    Except String ApplicationResponse → Prop
  | .ok response => response = (apps target).uncached request
  | .error message => RedisClient.new (caches target).config.redisHost
      (caches target).config.redisPort (caches target).config.redisTimeout = .error message

structure Sound (s : Serving Worker Instance) : Prop where
  local_answers : ∀ worker target state, s.threadStates worker target = some state →
    state.localCache.Holds (Answers (apps target))
  stored_answers : ∀ entry ∈ s.stored, ∀ target, SharesRedis (caches target) →
    Answers (apps target) entry.1 entry.2
  positions : ∀ worker, PositionSound apps caches (s.position worker)
  results : ∀ entry ∈ s.returned, ResultSound apps caches entry.1 entry.2.1 entry.2.2

variable {apps caches} {s t : Serving Worker Instance} {worker : Worker}
  {pending : PendingSearch Instance}

omit [DecidableEq Worker] [DecidableEq Instance] in
theorem resultSound_of_answers {json : Bytes} (hrouted : Routed apps pending)
    (hjson : Answers (apps pending.target) (makeSearchCacheKey pending.query) json) :
    ResultSound apps caches pending.target pending.request
      (.ok (okSearch json pending.closeAfterResponse)) := by
  obtain rfl := hjson pending.query rfl
  simp only [ResultSound, SearchApplication.uncached]
  rw [hrouted]

omit [DecidableEq Instance] in
theorem Sound.goTo (h : Sound apps caches s) {position : WorkerPosition Instance}
    (hposition : PositionSound apps caches position) :
    Sound apps caches (s.goTo worker position) := by
  refine ⟨h.local_answers, h.stored_answers, fun other => ?_, h.results⟩
  simp only [Serving.goTo, Function.update_apply]
  split
  · exact hposition
  · exact h.positions other

omit [DecidableEq Instance] in
theorem Sound.finish (h : Sound apps caches s) {target : Instance} {request : Bytes}
    {result : Except String ApplicationResponse}
    (hresult : ResultSound apps caches target request result) :
    Sound apps caches (s.finish worker target request result) := by
  have hidle : Sound apps caches (s.goTo worker .idle) := h.goTo trivial
  refine ⟨hidle.local_answers, hidle.stored_answers, hidle.positions, fun entry hmem => ?_⟩
  rcases List.mem_append.mp hmem with hmem | hmem
  · exact h.results entry hmem
  · rw [List.mem_singleton.mp hmem]
    exact hresult

theorem Sound.setState (h : Sound apps caches s) {target : Instance}
    {state : SearchCache.ThreadState} (hstate : state.localCache.Holds (Answers (apps target))) :
    Sound apps caches (s.setState worker target state) := by
  refine ⟨fun other target' state' hfind => ?_, h.stored_answers, h.positions, h.results⟩
  simp only [Serving.setState, Function.update_apply] at hfind
  split at hfind
  · rw [Function.update_apply] at hfind
    split at hfind
    · rename_i heq
      cases hfind
      exact heq ▸ hstate
    · exact h.local_answers worker target' state' hfind
  · exact h.local_answers other target' state' hfind

theorem Sound.lookUp (h : Sound apps caches s) (hrouted : Routed apps pending) :
    Sound apps caches (s.lookUp caches worker pending) := by
  unfold Serving.lookUp
  dsimp only
  split
  · exact h.goTo hrouted
  · rename_i hmode
    split
    · rename_i message hthrown
      exact h.finish (SearchCache.currentThreadState_error hthrown)
    · rename_i state hstate
      have hholds := SearchCache.currentThreadState_holds
        (h.local_answers worker pending.target) hstate
      have hset : Sound apps caches (s.setState worker pending.target
          ⟨(state.localCache.get s.now (makeSearchCacheKey pending.query)).2, state.redis⟩) :=
        h.setState (hholds.get s.now _)
      split
      · rename_i json hhit
        exact hset.finish (resultSound_of_answers hrouted (hholds.get_value hhit))
      · split
        · exact hset.goTo hrouted
        · rename_i hlocal
          exact hset.goTo ⟨hrouted, SearchCache.mode_of_reaches_redis hmode hlocal⟩

theorem Sound.handleRequest (h : Sound apps caches s) (target : Instance) (request : Bytes) :
    Sound apps caches (s.handleRequest apps caches worker target request) := by
  unfold Serving.handleRequest
  split
  · rename_i response hroute
    refine h.finish ?_
    simp only [ResultSound, SearchApplication.uncached]
    rw [hroute]
  · rename_i query closeAfterResponse hroute
    exact h.lookUp hroute

theorem Sound.redisGet (h : Sound apps caches s) (hrouted : Routed apps pending)
    (hshares : SharesRedis (caches pending.target)) {state : SearchCache.ThreadState}
    {answer : RedisAnswer} (hstate : s.threadStates worker pending.target = some state)
    (hhonest : s.honest (makeSearchCacheKey pending.query) answer = true) :
    Sound apps caches (s.redisGet worker pending state answer) := by
  have hholds := h.local_answers worker pending.target state hstate
  unfold Serving.redisGet
  dsimp only
  split
  · rename_i json hreply
    have hanswers : Answers (apps pending.target) (makeSearchCacheKey pending.query) json := by
      rw [honest, RedisClient.get_eq_some hreply] at hhonest
      exact h.stored_answers _ (by simpa using hhonest) _ hshares
    exact (h.setState (hholds.put hanswers s.now)).finish
      (resultSound_of_answers hrouted hanswers)
  · have hset : Sound apps caches (s.setState worker pending.target
        ⟨state.localCache, (state.redis.get answer).2⟩) := h.setState hholds
    exact hset.goTo hrouted

theorem Sound.compute (h : Sound apps caches s) (hrouted : Routed apps pending) :
    Sound apps caches (s.compute apps caches worker pending) := by
  have hanswers := answers_searchJson (apps pending.target) pending.query
  unfold Serving.compute
  dsimp only
  split
  · exact h.finish (resultSound_of_answers hrouted hanswers)
  · split
    · rename_i message hthrown
      exact h.finish (SearchCache.currentThreadState_error hthrown)
    · rename_i state hstate
      have hholds := SearchCache.currentThreadState_holds
        (h.local_answers worker pending.target) hstate
      have hset : Sound apps caches (s.setState worker pending.target
          ⟨state.localCache.put s.now (makeSearchCacheKey pending.query)
            ((apps pending.target).searchJson pending.query), state.redis⟩) :=
        h.setState (hholds.put hanswers s.now)
      split
      · rename_i hshares
        exact hset.goTo ⟨hrouted, hshares, rfl⟩
      · exact hset.finish (resultSound_of_answers hrouted hanswers)

theorem Sound.redisSet (h : Sound apps caches s) (hagree : Agree apps caches)
    (hrouted : Routed apps pending) (hshares : SharesRedis (caches pending.target))
    {state : SearchCache.ThreadState} (answer : RedisAnswer) (applied : Bool)
    (hstate : s.threadStates worker pending.target = some state) :
    Sound apps caches (s.redisSet caches worker pending
      ((apps pending.target).searchJson pending.query) state answer applied) := by
  have hanswers := answers_searchJson (apps pending.target) pending.query
  have hset : Sound apps caches (s.setState worker pending.target
      ⟨state.localCache, (state.redis.setEx (caches pending.target).config.redisTtl answer).2⟩) :=
    h.setState (h.local_answers worker pending.target state hstate)
  unfold Serving.redisSet
  dsimp only
  refine Sound.finish ?_ (resultSound_of_answers hrouted hanswers)
  split
  · refine ⟨hset.local_answers, fun entry hmem other hother => ?_, hset.positions, hset.results⟩
    rcases List.mem_append.mp hmem with hmem | hmem
    · exact hset.stored_answers entry hmem other hother
    · rw [List.mem_singleton.mp hmem, hagree pending.target other hshares hother]
      exact answers_searchJson (apps other) pending.query
  · exact hset

theorem Sound.step (h : Sound apps caches s) (hagree : Agree apps caches)
    {a : Action Worker Instance} (ht : s.step apps caches a = some t) : Sound apps caches t := by
  cases a with
  | tick elapsed =>
    cases ht
    exact ⟨h.local_answers, h.stored_answers, h.positions, h.results⟩
  | handleRequest worker target request =>
    simp only [Serving.step] at ht
    split at ht
    · cases ht
      exact h.handleRequest target request
    · cases ht
  | redisGet worker answer =>
    have hposition := h.positions worker
    simp only [Serving.step] at ht
    split at ht
    · rename_i pending hget
      rw [hget] at hposition
      obtain ⟨hrouted, hshares⟩ := hposition
      split at ht
      · rename_i state hstate
        obtain ⟨hhonest, ht⟩ := Option.ite_none_right_eq_some.mp ht
        cases ht
        exact h.redisGet hrouted hshares hstate hhonest
      · cases ht
    · cases ht
  | compute worker =>
    have hposition := h.positions worker
    simp only [Serving.step] at ht
    split at ht
    · rename_i pending hcomputing
      rw [hcomputing] at hposition
      cases ht
      exact h.compute hposition
    · cases ht
  | redisSet worker answer applied =>
    have hposition := h.positions worker
    simp only [Serving.step] at ht
    split at ht
    · rename_i pending json hset
      rw [hset] at hposition
      obtain ⟨hrouted, hshares, rfl⟩ := hposition
      obtain ⟨state, hstate, rfl⟩ := Option.map_eq_some_iff.mp ht
      exact h.redisSet hagree hrouted hshares answer applied hstate
    · cases ht

theorem reachable_sound (hagree : Agree apps caches) (h : Reachable (system apps caches) s) :
    Sound apps caches s := by
  refine h.invariant ?_ fun s a t _ ih ht => ih.step hagree ht
  rintro s ⟨hidle, hfresh, hreturned, hstored⟩
  refine ⟨?_, fun entry hmem other hother => ?_, ?_, ?_⟩
  · intro worker target state hstate
    simp [hfresh] at hstate
  · obtain ⟨target, hshares, hanswers⟩ := hstored entry hmem
    rw [Answers, hagree other target hother hshares]
    exact hanswers
  · intro worker
    rw [hidle]
    trivial
  · simp [hreturned]

omit [DecidableEq Instance] in
theorem agree_const (app : SearchApplication R) (caches : Instance → SearchCache) :
    Agree (fun _ => app) caches := fun _ _ _ _ => rfl

/-- What `handleRequest` returns does not depend on the cache, and it throws only
where its instance was given an address its Redis client refuses. -/
structure Transparent (apps : Instance → SearchApplication R) (caches : Instance → SearchCache)
    (s : Serving Worker Instance) : Prop where
  returns : ∀ target request response, (target, request, .ok response) ∈ s.returned →
    response = (apps target).uncached request
  throws : ∀ target request message, (target, request, .error message) ∈ s.returned →
    RedisClient.new (caches target).config.redisHost (caches target).config.redisPort
      (caches target).config.redisTimeout = .error message

structure Instances (R Instance : Type*) [Field R] [LinearOrder R] where
  app : Instance → SearchApplication R
  chunks : Instance → List DocumentChunk
  loaded : ∀ target, (app target).Over (chunks target)
  platform : ∀ target other, (app target).SamePlatform (app other)

theorem cache_transparent (instances : Instances R Instance) (caches : Instance → SearchCache)
    (hchunks : ∀ target other, SharesRedis (caches target) → SharesRedis (caches other) →
      instances.chunks target = instances.chunks other)
    (h : Reachable (system instances.app caches) s) : Transparent instances.app caches s := by
  have hagree : Agree instances.app caches := by
    intro target other htarget hother
    funext query
    refine (instances.loaded target).searchJson_eq ?_ (instances.platform target other) query
    exact hchunks target other htarget hother ▸ instances.loaded other
  have hs := reachable_sound hagree h
  refine ⟨fun target request response hmem => ?_, fun target request message hmem => ?_⟩
  · exact hs.results _ hmem
  · exact hs.results _ hmem

def sampleApp : SearchApplication ℚ where
  service := .new SearchService.sampleChunks SearchService.sampleIndex
  std := SearchService.sampleLibrary
  termOrder := SearchService.sampleOrder _
  candidateOrder := SearchService.sampleOrder _
  headerOrder := SearchService.sampleOrder _
  printScore score := decimal score.num.toNat

def sampleCaches : Unit → SearchCache := fun _ =>
  ⟨.default .localAndRedis, by decide, by decide, by decide⟩

def sampleRequest : Bytes := ascii "GET /search?q=lru+epoll HTTP/1.1\r\nConnection: close\r\n\r\n"

def sampleInstances : Instances ℚ Bool where
  app _ := sampleApp
  chunks _ := SearchService.sampleChunks
  loaded _ := ⟨by decide, SearchService.sampleIndex, SearchService.sampleIndex_filled, rfl⟩
  platform _ _ := ⟨rfl, rfl, rfl⟩

/-- One instance computes and stores the answer, the other one finds it in Redis and
then, before it expires, in its own L1. -/
def shared : List (Action Bool Bool) :=
  [.handleRequest true true sampleRequest, .redisGet true ⟨true, true, some .nil⟩, .compute true,
   .redisSet true ⟨true, true, none⟩ true, .tick 5, .handleRequest false false sampleRequest,
   .redisGet false
     ⟨true, true, some (.string (some (sampleApp.searchJson (ascii "lru epoll"))))⟩,
   .tick 9999, .handleRequest false false sampleRequest]

def sampleStart : Serving Bool Bool := ⟨0, fun _ => .idle, fun _ _ => none, [], []⟩

theorem sampleStart_initial (apps : Bool → SearchApplication ℚ) (caches : Bool → SearchCache) :
    (system apps caches).initial sampleStart := ⟨fun _ => rfl, fun _ _ => rfl, rfl, nofun⟩

def sharedState : Serving Bool Bool :=
  (run (system sampleInstances.app fun _ => sampleCaches ()) sampleStart shared).get
    (by decide +kernel)

theorem sharedState_transparent : sharedState.returned.length = 3 ∧
    Transparent sampleInstances.app (fun _ => sampleCaches ()) sharedState :=
  ⟨by decide +kernel, cache_transparent sampleInstances _ (fun _ _ _ _ => rfl)
    (Reachable.run (.start (sampleStart_initial _ _)) (Option.some_get _).symm)⟩

/-- Two instances over the same documents, which the file system lists in two orders. -/
def listings : Bool → SearchApplication ℚ
  | true => .sampleLoaded SearchApplication.sampleEntries
  | false => .sampleLoaded SearchApplication.sampleEntries.reverse

def listingRequest : Bytes := ascii "GET /search?q=cache+lru HTTP/1.1\r\n\r\n"

/-- The second instance finds the answer of the first one in Redis, with its chunk ids. -/
def foreignHit : List (Action Bool Bool) :=
  [.handleRequest true true listingRequest, .redisGet true ⟨true, true, some .nil⟩, .compute true,
   .redisSet true ⟨true, true, none⟩ true, .handleRequest false false listingRequest,
   .redisGet false
     ⟨true, true, some (.string (some ((listings true).searchJson (ascii "cache lru"))))⟩]

def foreignState : Serving Bool Bool :=
  (run (system listings fun _ => sampleCaches ()) sampleStart foreignHit).get (by decide +kernel)

def foreignResponse : ApplicationResponse :=
  okSearch ((listings true).searchJson (ascii "cache lru")) false

theorem foreignResponse_returned :
    foreignState.returned.getLast? = some (false, listingRequest, .ok foreignResponse) := by
  decide +kernel

theorem foreignResponse_ne : foreignResponse ≠ (listings false).uncached listingRequest := by
  decide +kernel

theorem listings_not_transparent :
    (∀ target, ∃ entries, entries.Perm SearchApplication.sampleEntries ∧
        SearchApplication.new SearchApplication.samplePlatform
          (fun _ => SearchService.sampleOrder _) [] [] (.directory entries) =
            .ok (listings target)) ∧
      ∃ s : Serving Bool Bool, Reachable (system listings fun _ => sampleCaches ()) s ∧
        ¬Transparent listings (fun _ => sampleCaches ()) s := by
  refine ⟨?_, foreignState, ?_, fun h => ?_⟩
  · rintro (_ | _)
    · exact ⟨_, SearchApplication.sampleEntries.reverse_perm, rfl⟩
    · exact ⟨_, .refl _, rfl⟩
  · exact Reachable.run (.start (sampleStart_initial _ _)) (Option.some_get _).symm
  · exact foreignResponse_ne
      (h.returns _ _ _ (List.mem_of_getLast? foreignResponse_returned))

end Serving

end CppSearchServer.Search
