import UrlRouting.Proofs.Matcher

/-!
When a matcher uses its store. The calls of a cache and of a file system are logged, so that it can
be seen what a request does besides its answer. A matcher asks for a set when it is made. If it got
none, the first request for which its routes can be registered saves the set, whatever comes of
that; a matcher that has a set looks neither at its routes nor at its store again.
-/

namespace UrlRouting

inductive Call
  | has (key : String)
  | get (key : String)
  | set (key : String) (blob : List UInt8)
  | isFile (path : String)
  | read (path : String)
  | write (path text : String)
  deriving DecidableEq

namespace Call

def saves : Call → Bool
  | set .. => true
  | write .. => true
  | _ => false

end Call

section

variable {σ α β : Type}

def Call.log (call : Call) (operation : StateM σ α) : StateM (σ × List Call) α :=
  fun (state, calls) =>
    ((operation.run state).1, (operation.run state).2, calls ++ [call])

def Cache.logged (cache : Cache (StateM σ)) : Cache (StateM (σ × List Call)) where
  has key := (Call.has key).log (cache.has key)
  get key := (Call.get key).log (cache.get key)
  set key blob := (Call.set key blob).log (cache.set key blob)

def Files.logged (files : Files (StateM σ)) : Files (StateM (σ × List Call)) where
  isFile path := (Call.isFile path).log (files.isFile path)
  read path := (Call.read path).log (files.read path)
  write path text := (Call.write path text).log (files.write path text)

/-! ### Loading and saving -/

def OnlyAsks (program : StateM (σ × List Call) α) : Prop :=
  ∀ state calls, ∃ asked, (program.run (state, calls)).2.2 = calls ++ asked ∧
    ∀ call ∈ asked, call.saves = false

namespace OnlyAsks

theorem pure (value : α) : OnlyAsks (Pure.pure value : StateM (σ × List Call) α) :=
  fun _ calls => ⟨[], (List.append_nil calls).symm, by simp⟩

theorem log {call : Call} (asks : call.saves = false) (operation : StateM σ α) :
    OnlyAsks (call.log operation) :=
  fun _ _ => ⟨[call], rfl, by simpa using asks⟩

theorem bind {first : StateM (σ × List Call) α} {next : α → StateM (σ × List Call) β}
    (asks : OnlyAsks first) (asksToo : ∀ value, OnlyAsks (next value)) :
    OnlyAsks (first >>= next) := by
  intro state calls
  rcases asks state calls with ⟨asked, logged, asking⟩
  rcases ran : first.run (state, calls) with ⟨value, left, after⟩
  rcases asksToo value left after with ⟨more, loggedMore, askingMore⟩
  rw [ran] at logged
  refine ⟨asked ++ more, ?_, List.forall_mem_append.mpr ⟨asking, askingMore⟩⟩
  rw [run_bind_of_run ran, loggedMore, ← List.append_assoc, ← logged]

end OnlyAsks

namespace Store

def logged : Store (StateM σ) → Store (StateM (σ × List Call))
  | keyValue cache key => keyValue cache.logged key
  | file files path => file files.logged path

def savingCall (set : DispatchSet) : Store (StateM σ) → Call
  | keyValue _ key => .set key set.encode
  | file _ path => .write path set.print

theorem onlyAsks_tryLoad (store : Store (StateM σ)) : OnlyAsks store.logged.tryLoad := by
  cases store with
  | keyValue cache key =>
      apply OnlyAsks.bind (.log rfl _)
      rintro (error | _ | _)
      · exact .pure _
      · exact .pure _
      · apply OnlyAsks.bind (.log rfl _)
        rintro (error | _ | blob)
        · exact .pure _
        · exact .pure _
        · dsimp only
          split <;> exact .pure _
  | file files path =>
      apply OnlyAsks.bind (.log rfl _)
      rintro (_ | _)
      · exact .pure _
      · apply OnlyAsks.bind (.log rfl _)
        rintro (_ | text)
        · exact .pure _
        · dsimp only
          split <;> exact .pure _

theorem onlyAsks_load (store : Store (StateM σ)) : OnlyAsks store.logged.load := by
  apply OnlyAsks.bind store.onlyAsks_tryLoad
  rintro (error | set)
  · exact .pure _
  · exact .pure _

theorem calls_save (store : Store (StateM σ)) (set : DispatchSet) (state : σ)
    (calls : List Call) :
    ((store.logged.save set).run (state, calls)).2.2 = calls ++ [store.savingCall set] := by
  cases store with
  | keyValue cache key => rfl
  | file files path =>
      have ran : (files.logged.write path set.print).run (state, calls) =
          (((files.write path set.print).run state).1, ((files.write path set.print).run state).2,
            calls ++ [.write path set.print]) := rfl
      rw [save, logged, trySave, bind_assoc, run_bind_of_run ran]
      split <;> rfl

end Store

end

/-- The call that saves a set, with settings and perhaps a cache: none without a store. -/
def Config.savingCalls (config : Config) (cached : Bool) (set : DispatchSet) : List Call :=
  if config.saveToFile then [.write config.cachePath set.print]
  else if config.enableCache && cached then [.set config.cacheKey set.encode]
  else []

/-! ### Requests in turn -/

/-- A request to a matcher, with the routes that its registry has by then. -/
structure Visit where
  routes : List Route
  request : Request

/-- What is seen of a request: its result, the calls made for it, whether the matcher has a set
after it, and what is shared then. -/
structure Observation where
  result : Except RoutingError MatchResult
  calls : List Call
  built : Bool
  shared : Shared

def DispatchSet.observation (set : DispatchSet) (encoding : Encoding) (calls : List Call)
    (shared : Shared) (request : Request) : Observation where
  result := .ok (set.lookup request.host request.method (encoding.decode request.path))
  calls := calls
  built := true
  shared := shared

namespace Matcher

variable {σ : Type} {matcher : Matcher (StateM (σ × List Call))} {shared : Shared}
  {set : DispatchSet}

def visit (matcher : Matcher (StateM (σ × List Call))) (shared : Shared) (visit : Visit) :
    StateM (σ × List Call) (Outcome (StateM (σ × List Call)) MatchResult) :=
  { matcher with routes := visit.routes }.matchRequest shared visit.request.host
    visit.request.method visit.request.path

def observe (matcher : Matcher (StateM (σ × List Call))) (shared : Shared) (state : σ) :
    List Visit → List Observation
  | [] => []
  | visit :: visits =>
      let ran := (matcher.visit shared visit).run (state, [])
      { result := ran.1.result, calls := ran.2.2, built := ran.1.matcher.isBuilt,
        shared := ran.1.shared } :: ran.1.matcher.observe ran.1.shared ran.2.1 visits

theorem observe_of_built (built : matcher.dispatchSet = some set) (state : σ)
    (visits : List Visit) :
    matcher.observe shared state visits =
      visits.map fun visit => set.observation matcher.encoding [] shared visit.request := by
  rcases matcher with ⟨routes, store, encoding, kept⟩
  cases built
  induction visits generalizing routes with
  | nil => rfl
  | cons visit rest induction =>
      rw [List.map_cons, ← induction visit.routes]
      rfl

theorem calls_save {store : Option (Store (StateM σ))}
    (stored : matcher.store = store.map Store.logged) (set : DispatchSet) (state : σ)
    (calls : List Call) :
    ((matcher.save set).run (state, calls)).2.2 =
      calls ++ (store.map (Store.savingCall set)).toList := by
  rw [save, stored]
  cases store with
  | none => exact (List.append_nil calls).symm
  | some store => exact store.calls_save set state calls

/-- A matcher without a set that can register its routes saves theirs, and then has it. -/
theorem observe_of_registered {store : Option (Store (StateM σ))}
    (stored : matcher.store = store.map Store.logged) (empty : matcher.dispatchSet = none)
    {visit : Visit} {memo : Pattern.Memo}
    (registered : Registration.register shared.memo visit.routes = (.ok set, memo)) (state : σ)
    (visits : List Visit) :
    matcher.observe shared state (visit :: visits) =
      set.observation matcher.encoding (store.map (Store.savingCall set)).toList
        { shared with memo } visit.request ::
      visits.map fun later =>
        set.observation matcher.encoding [] { shared with memo } later.request := by
  have ran : (matcher.visit shared visit).run (state, []) =
      ({ result := .ok (set.lookup visit.request.host visit.request.method
            (matcher.encoding.decode visit.request.path)),
          matcher := { matcher with routes := visit.routes, dispatchSet := some set },
          shared := { shared with memo } },
        (({ matcher with routes := visit.routes }.save set).run (state, [])).2) := by
    rw [Matcher.visit, matchRequest, dispatch, empty, registered]
    rfl
  have saved : (({ matcher with routes := visit.routes }.save set).run (state, [])).2.2 =
      (store.map (Store.savingCall set)).toList := calls_save stored set state []
  rw [observe, ran]
  dsimp only
  rw [observe_of_built rfl, saved]
  rfl

theorem observe_of_refused (empty : matcher.dispatchSet = none) {visit : Visit}
    {memo : Pattern.Memo} {error : RoutingError}
    (refused : Registration.register shared.memo visit.routes = (.error error, memo)) (state : σ)
    (visits : List Visit) :
    matcher.observe shared state (visit :: visits) =
      ⟨.error error, [], false, { shared with memo }⟩ ::
        { matcher with routes := visit.routes }.observe { shared with memo } state visits := by
  rcases matcher with ⟨routes, store, encoding, built⟩
  cases empty
  rw [observe, Matcher.visit, matchRequest, dispatch, refused]
  rfl

theorem observe_of_error {routes : List Route} {error : RoutingError}
    (refused : (Registration.register .empty routes).1 = .error error)
    (faithful : shared.memo.Faithful) (empty : matcher.dispatchSet = none) (state : σ)
    (requests : List Request) :
    (matcher.observe shared state (requests.map (Visit.mk routes))).map
        (fun seen => (seen.result, seen.calls, seen.built)) =
      requests.map fun _ => (.error error, [], false) := by
  induction requests generalizing matcher shared with
  | nil => rfl
  | cons request rest induction =>
      have same := Registration.registerAll_congr faithful Pattern.Memo.faithful_empty .empty routes
      have stillFaithful := Registration.faithful_registerAll faithful .empty routes
      cases registered : Registration.register shared.memo routes with
      | mk result memo =>
          rw [← Registration.register, ← Registration.register, registered] at same
          rw [← Registration.register, registered] at stillFaithful
          cases same.trans refused
          have later := @induction { matcher with routes } { shared with memo } stillFaithful empty
          rw [List.map_cons, observe_of_refused empty registered, List.map_cons, List.map_cons]
          exact congrArg _ later

/-! ### New matchers -/

theorem onlyAsks_new (routes : List Route) (store : Option (Store (StateM σ)))
    (encoding : Encoding) :
    OnlyAsks (new routes (store.map Store.logged) encoding) := by
  cases store with
  | none => exact .pure _
  | some store => exact .bind store.onlyAsks_load fun _ => .pure _

theorem exists_new (routes : List Route) (store : Option (Store (StateM σ)))
    (encoding : Encoding) (state : σ × List Call) :
    ∃ kept, ((new routes (store.map Store.logged) encoding).run state).1 =
      { routes, store := store.map Store.logged, encoding, dispatchSet := kept } := by
  cases store with
  | none => exact ⟨none, rfl⟩
  | some store => exact ⟨_, rfl⟩

end Matcher

theorem Store.toList_savingCall_ofConfig {σ : Type} (config : Config) (files : Files (StateM σ))
    (cache : Option (Cache (StateM σ))) (set : DispatchSet) :
    ((Store.ofConfig config files cache).map (Store.savingCall set)).toList =
      config.savingCalls cache.isSome set := by
  rw [Store.ofConfig, Config.savingCalls]
  split
  case isTrue => rfl
  case isFalse =>
    cases cache with
    | none => split <;> simp
    | some cache =>
        cases config.enableCache with
        | false => rfl
        | true => rfl

namespace Matcher

/-- A dispatch set is built and saved at most once, and never after a failure. Making a matcher
saves nothing. Then there are three cases. If it has a set, it answers all requests from that. If it
has none and its routes can be registered, the first request does that, and saves the set with the
one call that the settings ask for; all later ones are answered from the set. In both cases a
request makes no call, compiles no pattern, and what routes there are by then does not matter. If
the routes cannot be registered, every request fails with that error and no call is made. -/
theorem builds_and_saves_once {σ : Type} (config : Config) (files : Files (StateM σ))
    (cache : Option (Cache (StateM σ))) (start : σ) (routes : List Route)
    (earlier : List String) (current : Option CurrentRoute) :
    let store := (Store.ofConfig config files cache).map Store.logged
    let made := (new routes store config.encoding).run (start, [])
    (∀ call ∈ made.2.2, call.saves = false) ∧
    ((∃ set, made.1.dispatchSet = some set ∧ made.1.isBuilt = true ∧
        ∀ shared visits, made.1.observe shared made.2.1 visits =
          visits.map fun visit => set.observation config.encoding [] shared visit.request) ∨
      (∃ set, (Registration.register .empty routes).1 = .ok set ∧ made.1.isBuilt = false ∧
        ∃ shared, ∀ request visits,
          made.1.observe ⟨.after earlier, current⟩ made.2.1 (⟨routes, request⟩ :: visits) =
            set.observation config.encoding (config.savingCalls cache.isSome set) shared request ::
            visits.map fun visit => set.observation config.encoding [] shared visit.request) ∨
      ∃ error, (Registration.register .empty routes).1 = .error error ∧ made.1.isBuilt = false ∧
        ∀ requests : List Request,
          (made.1.observe ⟨.after earlier, current⟩ made.2.1
              (requests.map (Visit.mk routes))).map
            (fun seen => (seen.result, seen.calls, seen.built)) =
          requests.map fun _ => (.error error, [], false)) := by
  intro store made
  rcases exists_new routes (Store.ofConfig config files cache) config.encoding (start, []) with
    ⟨kept, isMade⟩
  constructor
  · rcases onlyAsks_new routes (Store.ofConfig config files cache) config.encoding start [] with
      ⟨asked, logged, asking⟩
    rw [show made.2.2 = asked from logged]
    exact asking
  · rw [show made.1 = _ from isMade]
    cases kept with
    | some set => exact .inl ⟨set, rfl, rfl, fun _ => observe_of_built rfl made.2.1⟩
    | none =>
        right
        have faithful := Pattern.Memo.faithful_after earlier
        have same := Registration.registerAll_congr faithful Pattern.Memo.faithful_empty .empty
          routes
        cases registered : Registration.register (.after earlier) routes with
        | mk result memo =>
            rw [← Registration.register, ← Registration.register, registered] at same
            cases result with
            | ok set =>
                refine .inl ⟨set, same.symm, rfl, ⟨memo, current⟩, fun request visits => ?_⟩
                rw [← Store.toList_savingCall_ofConfig config files cache]
                exact observe_of_registered rfl rfl registered made.2.1 visits
            | error error =>
                exact .inr ⟨error, same.symm, rfl,
                  observe_of_error same.symm faithful rfl made.2.1⟩

end Matcher

end UrlRouting
