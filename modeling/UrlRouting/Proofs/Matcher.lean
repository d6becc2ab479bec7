import UrlRouting.Matcher
import UrlRouting.Proofs.Registration.Faults
import UrlRouting.Proofs.Store

/-!
Matchers with a store beside matchers without. The operations of a store run in a state of their own
and may fail as they like. A matcher asks its store once, when it is made; from then on it has a set
or will build one from its routes, and it never looks at the store again. So a store that has nothing
to offer, or the set of the same routes, changes no answer.
-/

namespace UrlRouting

/-- A request to a matcher: a host, a method and a path that is still encoded. -/
structure Request where
  host : String
  method : String
  path : String

namespace Matcher

variable {m : Type → Type}

def answers [Monad m] (matcher : Matcher m) (shared : Shared) :
    List Request → m (List (Except RoutingError MatchResult))
  | [] => return []
  | request :: requests => do
      let outcome ← matcher.matchRequest shared request.host request.method request.path
      let later ← outcome.matcher.answers outcome.shared requests
      return outcome.result :: later

def serve [Monad m] (routes : List Route) (store : Option (Store m)) (encoding : Encoding)
    (shared : Shared) (requests : List Request) :
    m (List (Except RoutingError MatchResult)) := do
  let matcher ← new routes store encoding
  matcher.answers shared requests

end Matcher

/-- What is done next begins with the result and the state that the first part left. -/
theorem run_bind_of_run {σ α β : Type} {first : StateM σ α} {value : α} {state after : σ}
    (ran : first.run state = (value, after)) (next : α → StateM σ β) :
    (first >>= next).run state = (next value).run after := by
  rw [StateT.run_bind, ran]
  rfl

/-! ### What a store offers -/

namespace Store

variable {σ : Type}

/-- Whether a store that is asked in some state has nothing to offer: an operation fails, nothing is
stored, or what is stored cannot be read. -/
inductive Misses : Store (StateM σ) → σ → Prop
  | hasFails {cache : Cache (StateM σ)} {key : String} {state after : σ} {error : RoutingError}
      (asked : (cache.has key).run state = (.error error, after)) :
      Misses (keyValue cache key) state
  | absent {cache : Cache (StateM σ)} {key : String} {state after : σ}
      (asked : (cache.has key).run state = (.ok false, after)) : Misses (keyValue cache key) state
  | getFails {cache : Cache (StateM σ)} {key : String} {state between after : σ}
      {error : RoutingError} (asked : (cache.has key).run state = (.ok true, between))
      (got : (cache.get key).run between = (.error error, after)) :
      Misses (keyValue cache key) state
  | gone {cache : Cache (StateM σ)} {key : String} {state between after : σ}
      (asked : (cache.has key).run state = (.ok true, between))
      (got : (cache.get key).run between = (.ok none, after)) : Misses (keyValue cache key) state
  | garbage {cache : Cache (StateM σ)} {key : String} {state between after : σ}
      {blob : List UInt8} (asked : (cache.has key).run state = (.ok true, between))
      (got : (cache.get key).run between = (.ok (some blob), after))
      (unreadable : DispatchSet.decode? blob = none) : Misses (keyValue cache key) state
  | noFile {files : Files (StateM σ)} {path : String} {state after : σ}
      (asked : (files.isFile path).run state = (false, after)) : Misses (file files path) state
  | noText {files : Files (StateM σ)} {path : String} {state between after : σ}
      (asked : (files.isFile path).run state = (true, between))
      (got : (files.read path).run between = (none, after)) : Misses (file files path) state
  | malformed {files : Files (StateM σ)} {path text : String} {state between after : σ}
      (asked : (files.isFile path).run state = (true, between))
      (got : (files.read path).run between = (some text, after))
      (unreadable : DispatchSet.parse? text = none) : Misses (file files path) state

/-- Whether a store that is asked in some state has a set, written as it is when it is saved. -/
inductive Holds (written : DispatchSet) : Store (StateM σ) → σ → Prop
  | keyValue {cache : Cache (StateM σ)} {key : String} {state between after : σ}
      (asked : (cache.has key).run state = (.ok true, between))
      (got : (cache.get key).run between = (.ok (some written.encode), after))
      (readBack : DispatchSet.decode? written.encode = some written) :
      Holds written (keyValue cache key) state
  | file {files : Files (StateM σ)} {path : String} {state between after : σ}
      (asked : (files.isFile path).run state = (true, between))
      (got : (files.read path).run between = (some written.print, after))
      (readBack : DispatchSet.parse? written.print = some written) :
      Holds written (file files path) state

variable {store : Store (StateM σ)} {state : σ} {written : DispatchSet}

theorem Misses.load_eq (misses : store.Misses state) : (store.load.run state).1 = none := by
  cases misses with
  | hasFails asked =>
      simp only [load, tryLoad, bind_assoc, run_bind_of_run asked, pure_bind]
      rfl
  | absent asked =>
      simp only [load, tryLoad, bind_assoc, run_bind_of_run asked, pure_bind]
      rfl
  | getFails asked got =>
      simp only [load, tryLoad, bind_assoc, run_bind_of_run asked, run_bind_of_run got, pure_bind]
      rfl
  | gone asked got =>
      simp only [load, tryLoad, bind_assoc, run_bind_of_run asked, run_bind_of_run got, pure_bind]
      rfl
  | garbage asked got unreadable =>
      simp only [load, tryLoad, bind_assoc, run_bind_of_run asked, run_bind_of_run got, unreadable,
        pure_bind]
      rfl
  | noFile asked =>
      simp only [load, tryLoad, bind_assoc, run_bind_of_run asked, Bool.false_eq_true, if_false,
        pure_bind]
      rfl
  | noText asked got =>
      simp only [load, tryLoad, bind_assoc, run_bind_of_run asked, if_true, run_bind_of_run got,
        pure_bind]
      rfl
  | malformed asked got unreadable =>
      simp only [load, tryLoad, bind_assoc, run_bind_of_run asked, if_true, run_bind_of_run got,
        unreadable, pure_bind]
      rfl

theorem Holds.load_eq (holds : store.Holds written state) :
    (store.load.run state).1 = some written := by
  cases holds with
  | keyValue asked got readBack =>
      simp only [load, tryLoad, bind_assoc, run_bind_of_run asked, run_bind_of_run got, readBack,
        pure_bind]
      rfl
  | file asked got readBack =>
      simp only [load, tryLoad, bind_assoc, run_bind_of_run asked, if_true, run_bind_of_run got,
        readBack, pure_bind]
      rfl

/-- Whether a store changes no answer of a matcher over declared routes that is to answer as the
registered ones do: there is none, or it has nothing to offer, and the routes are the same; or it
holds a set like that of the registered routes, whatever is declared. -/
inductive Harmless (set : DispatchSet) (routes declared : List Route) (state : σ) :
    Option (Store (StateM σ)) → Prop
  | none (same : declared = routes) : Harmless set routes declared state none
  | misses {store : Store (StateM σ)} (misses : store.Misses state) (same : declared = routes) :
      Harmless set routes declared state (some store)
  | holds {store : Store (StateM σ)} {written : DispatchSet} (holds : store.Holds written state)
      (alike : set.Alike written) : Harmless set routes declared state (some store)

end Store

/-! ### Answers in turn -/

namespace Matcher

variable {σ : Type} {set : DispatchSet} {matcher : Matcher (StateM σ)} {shared : Shared}

/-- Whether a matcher answers as a set does: it has a set like this one, or it will make this one of
its routes. -/
def Ready (set : DispatchSet) (matcher : Matcher (StateM σ)) (shared : Shared) : Prop :=
  match matcher.dispatchSet with
  | some kept => set.Alike kept
  | none => (Registration.register shared.memo matcher.routes).1 = .ok set

def Answered (set : DispatchSet) (encoding : Encoding) (request : Request)
    (result : Except RoutingError MatchResult) : Prop :=
  ∃ answer, result = .ok answer ∧
    (set.lookup request.host request.method (encoding.decode request.path)).Alike answer

theorem Ready.dispatch (ready : matcher.Ready set shared) (state : σ) :
    ∃ kept others after, set.Alike kept ∧
      (matcher.dispatch shared).run state =
        ({ result := .ok kept, matcher := { matcher with dispatchSet := some kept },
           shared := others }, after) := by
  rcases matcher with ⟨routes, store, encoding, built⟩
  cases built with
  | some kept => exact ⟨kept, shared, state, ready, rfl⟩
  | none =>
      have made : (Registration.register shared.memo routes).1 = .ok set := ready
      cases registered : Registration.register shared.memo routes with
      | mk outcome memo =>
          rw [registered] at made
          subst made
          refine ⟨set, { shared with memo },
            ((Matcher.save ⟨routes, store, encoding, none⟩ set).run state).2, .refl set, ?_⟩
          rw [Matcher.dispatch, registered]
          rfl

theorem Ready.matchRequest (ready : matcher.Ready set shared) (request : Request) (state : σ) :
    ∃ outcome,
      ((matcher.matchRequest shared request.host request.method request.path).run state).1 =
        outcome ∧
      Answered set matcher.encoding request outcome.result ∧
      outcome.matcher.Ready set outcome.shared ∧ outcome.matcher.encoding = matcher.encoding := by
  rcases ready.dispatch state with ⟨kept, others, after, alike, dispatched⟩
  refine ⟨_, rfl, ?_⟩
  rw [Matcher.matchRequest, run_bind_of_run dispatched]
  exact ⟨⟨_, rfl, alike.lookup ..⟩, alike, rfl⟩

theorem Ready.answers (ready : matcher.Ready set shared) (requests : List Request) (state : σ) :
    List.Forall₂ (Answered set matcher.encoding) requests
      ((matcher.answers shared requests).run state).1 := by
  induction requests generalizing matcher shared state with
  | nil => exact .nil
  | cons request rest induction =>
      rcases ready.matchRequest request state with
        ⟨outcome, matched, answered, stillReady, sameEncoding⟩
      have later := induction stillReady
      rw [sameEncoding] at later
      rw [Matcher.answers, run_bind_of_run (Prod.ext matched rfl)]
      exact .cons answered (later _)

theorem ready_new {routes declared : List Route} {store : Option (Store (StateM σ))} {state : σ}
    (harmless : Store.Harmless set routes declared state store)
    (registers : (Registration.register shared.memo routes).1 = .ok set) (encoding : Encoding) :
    ((new declared store encoding).run state).1.Ready set shared ∧
      ((new declared store encoding).run state).1.encoding = encoding := by
  cases harmless with
  | none same =>
      subst same
      exact ⟨registers, rfl⟩
  | misses misses same =>
      subst same
      rw [new, run_bind_of_run (Prod.ext misses.load_eq rfl)]
      exact ⟨registers, rfl⟩
  | holds holds alike =>
      rw [new, run_bind_of_run (Prod.ext holds.load_eq rfl)]
      exact ⟨alike, rfl⟩

theorem answers_serve {routes declared : List Route} {store : Option (Store (StateM σ))}
    {state : σ} (harmless : Store.Harmless set routes declared state store)
    (registers : (Registration.register shared.memo routes).1 = .ok set) (encoding : Encoding)
    (requests : List Request) :
    List.Forall₂ (Answered set encoding) requests
      ((serve declared store encoding shared requests).run state).1 := by
  rcases ready_new harmless registers encoding with ⟨ready, same⟩
  have answered := ready.answers requests ((new declared store encoding).run state).2
  rw [same] at answered
  exact answered

/-- Whether two results are answers that differ in the order of their arguments only. -/
def SameAnswer (left right : Except RoutingError MatchResult) : Prop :=
  ∃ first second, left = .ok first ∧ right = .ok second ∧ first.Alike second

theorem sameAnswer_of_answered {encoding : Encoding} {requests : List Request}
    {left right : List (Except RoutingError MatchResult)}
    (first : List.Forall₂ (Answered set encoding) requests left)
    (second : List.Forall₂ (Answered set encoding) requests right) :
    List.Forall₂ SameAnswer left right := by
  induction first generalizing right with
  | nil =>
      cases second
      exact .nil
  | cons here _ induction =>
      cases second with
      | cons there later =>
          rcases here with ⟨answer, rfl, alike⟩
          rcases there with ⟨other, rfl, alikeToo⟩
          exact .cons ⟨answer, other, rfl, rfl, alike.symm.trans alikeToo⟩ (induction later)

/-- A store never changes an answer. Take routes that can be registered, any settings, and a cache
that has nothing under the key, fails, holds what cannot be read, or holds the set that a matcher
over these routes has saved, in which case any routes may be declared; and if the settings ask for a
file, let the same hold of that. Then a matcher with this store answers each of any number of
requests as one over the routes without a store does, whatever either shares with others. -/
theorem serve_with_store {config : Config} {files : Files (StateM σ)}
    {cache : Option (Cache (StateM σ))} {start : σ} {routes declared : List Route}
    (registers : (Registration.register .empty routes).1 = .ok set)
    (harmless : Store.Harmless set routes declared start (Store.ofConfig config files cache))
    (earlier others : List String) (current otherCurrent : Option CurrentRoute)
    (requests : List Request) :
    List.Forall₂ SameAnswer
      ((serve declared (Store.ofConfig config files cache) config.encoding
        ⟨.after earlier, current⟩ requests).run start).1
      ((serve routes (none : Option (Store (StateM σ))) config.encoding
        ⟨.after others, otherCurrent⟩ requests).run start).1 := by
  have registersAfter : ∀ patterns : List String,
      (Registration.register (.after patterns) routes).1 = .ok set := by
    intro patterns
    rw [← registers]
    exact Registration.registerAll_congr (Pattern.Memo.faithful_after patterns)
      Pattern.Memo.faithful_empty _ routes
  apply sameAnswer_of_answered
  · exact answers_serve harmless (registersAfter earlier) config.encoding requests
  · exact answers_serve (.none rfl) (registersAfter others) config.encoding requests

theorem run_build {routes : List Route} {store : Store (StateM σ)} {state : σ}
    (misses : store.Misses state) (registers : (Registration.register .empty routes).1 = .ok set)
    (encoding : Encoding) :
    ((build routes (some store) encoding).run state).2 =
      ((store.save set).run (store.load.run state).2).2 := by
  cases registered : Registration.register .empty routes with
  | mk outcome memo =>
      rw [registered] at registers
      subst registers
      have loaded : store.load.run state = (none, (store.load.run state).2) :=
        Prod.ext misses.load_eq rfl
      simp only [build, new, bind_assoc, run_bind_of_run loaded, pure_bind, Matcher.dispatch,
        registered, save]
      rfl

end Matcher

theorem MemoryCache.holds_of_build {key : String} {routes : List Route} {set : DispatchSet}
    (registers : (Registration.register .empty routes).1 = .ok set)
    (storable : MessagePack.Storable MessagePack.depth set.toData) (encoding : Encoding) :
    Store.Holds set (.keyValue operations key)
      ((Matcher.build routes (some (.keyValue operations key)) encoding).run .empty).2 := by
  have left : ((Matcher.build routes (some (.keyValue operations key)) encoding).run .empty).2 =
      Table.empty.set key set.encode :=
    Matcher.run_build (.absent rfl) registers encoding
  have known := Table.get?_set_self .empty key set.encode
  have contains : (Table.empty.set key set.encode).contains key = true := by
    rw [Table.contains_eq_isSome_get?, known, Option.isSome_some]
  rw [left]
  exact .keyValue (congrArg (fun present => (Except.ok present, _)) contains)
    (congrArg (fun blob => (Except.ok blob, _)) known) (DispatchSet.decode?_encode storable)

theorem Matcher.serve_with_store_page :
    ∃ (set : DispatchSet) (files : Files (StateM MemoryCache)) (left : MemoryCache),
      (Registration.register .empty [(Route.new [.get] "/page/{id}").withName "page"]).1 = .ok set ∧
      ((build [(Route.new [.get] "/page/{id}").withName "page"]
        (Store.ofConfig .default files (some MemoryCache.operations))
          Config.default.encoding).run .empty).2 = left ∧
      ∀ requests, List.Forall₂ SameAnswer
        ((serve [] (Store.ofConfig .default files (some MemoryCache.operations))
          Config.default.encoding ⟨.after [], none⟩ requests).run left).1
        ((serve [(Route.new [.get] "/page/{id}").withName "page"]
          (none : Option (Store (StateM MemoryCache))) Config.default.encoding
            ⟨.after [], none⟩ requests).run left).1 := by
  have made : (Registration.register .empty
      [(Route.new [.get] "/page/{id}").withName "page"]).1 = .ok
        { DispatchSet.empty with
          anyHost := some (Tree.empty.add [.get, .head] "/page/:id" "page").1 } := by
    cbv
  have storable : MessagePack.Storable MessagePack.depth (DispatchSet.toData
      { DispatchSet.empty with
        anyHost := some (Tree.empty.add [.get, .head] "/page/:id" "page").1 }) :=
    ⟨by decide +kernel, by decide +kernel⟩
  refine ⟨_, ⟨fun _ => pure false, fun _ => pure none, fun _ _ => pure false⟩, _, made, rfl, ?_⟩
  intro requests
  exact serve_with_store made
    (.holds (MemoryCache.holds_of_build made storable Config.default.encoding) (.refl _))
    [] [] none none requests

end UrlRouting
