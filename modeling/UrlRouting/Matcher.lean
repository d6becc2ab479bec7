import UrlRouting.Registration
import UrlRouting.Store
import UrlRouting.Uri

/-!
Matching requests. A matcher restores its dispatch set from a store when it is made, or else builds
it at the first request and stores it. A set once there is never built again; a set that cannot be
built is tried again at the next request.
-/

namespace UrlRouting

structure CurrentRoute where
  name : Option String
  arguments : Table String
  uri : Option Uri
  deriving DecidableEq, Inhabited

namespace CurrentRoute

def empty : CurrentRoute :=
  { name := none, arguments := .empty, uri := none }

def record (current : CurrentRoute) (uri : Uri) : MatchResult → CurrentRoute
  | .success route arguments => { name := some route, arguments, uri := some uri }
  | _ => current

end CurrentRoute

/-- What a matcher and a generator share: the patterns compiled so far, and the current route if it
is to be kept. -/
structure Shared where
  memo : Pattern.Memo
  current : Option CurrentRoute

structure Matcher (m : Type → Type) where
  routes : List Route
  store : Option (Store m)
  encoding : Encoding
  dispatchSet : Option DispatchSet

namespace Matcher

variable {m : Type → Type}

structure Outcome (m : Type → Type) (α : Type) where
  result : Except RoutingError α
  matcher : Matcher m
  shared : Shared

def new [Monad m] (routes : List Route) (store : Option (Store m)) (encoding : Encoding) :
    m (Matcher m) := do
  match store with
  | none => return { routes, store, encoding, dispatchSet := none }
  | some kept => return { routes, store, encoding, dispatchSet := ← kept.load }

def isBuilt (matcher : Matcher m) : Bool :=
  matcher.dispatchSet.isSome

def save [Monad m] (matcher : Matcher m) (set : DispatchSet) : m Unit :=
  match matcher.store with
  | none => pure ()
  | some store => store.save set

/-- The dispatch set, built and stored if it is not there. -/
def dispatch [Monad m] (matcher : Matcher m) (shared : Shared) :
    m (Outcome m DispatchSet) := do
  match matcher.dispatchSet with
  | some set => return { result := .ok set, matcher, shared }
  | none =>
      let (result, memo) := Registration.register shared.memo matcher.routes
      let shared := { shared with memo }
      match result with
      | .error error => return { result := .error error, matcher, shared }
      | .ok set =>
          matcher.save set
          return { result := .ok set, matcher := { matcher with dispatchSet := some set }, shared }

def build [Monad m] (routes : List Route) (store : Option (Store m)) (encoding : Encoding) :
    m (Except RoutingError (Matcher m)) := do
  let matcher ← new routes store encoding
  let outcome ← matcher.dispatch { memo := .empty, current := none }
  return outcome.result.map fun _ => outcome.matcher

def matchRequest [Monad m] (matcher : Matcher m) (shared : Shared)
    (host method path : String) : m (Outcome m MatchResult) := do
  let outcome ← matcher.dispatch shared
  return { outcome with
    result := outcome.result.map fun set =>
      set.lookup host method (matcher.encoding.decode path) }

def matchAt [Monad m] (matcher : Matcher m) (shared : Shared) (host method : String)
    (uri : Uri) : m (Outcome m MatchResult) := do
  let outcome ← matcher.matchRequest shared host method uri.path
  match outcome.result with
  | .error _ => return outcome
  | .ok answer =>
      let current := outcome.shared.current.map fun current => current.record uri answer
      return { outcome with shared := { outcome.shared with current } }

def matchUri [Monad m] (matcher : Matcher m) (shared : Shared) (method : String) (uri : Uri) :
    m (Outcome m MatchResult) :=
  matcher.matchAt shared (uri.host?.getD "") method uri

def stripPort (header : String) : String :=
  let text := header.toList
  if text.head? = some '[' then
    if text.contains ']' then String.ofList (text.takeWhile (· != ']') ++ [']']) else header
  else
    String.ofList (text.takeWhile (· != ':'))

def isVisible (header : String) : Bool :=
  header.toList.all fun character =>
    (32 ≤ character.toNat && character.toNat < 127) || character == '\t'

/-- The host of a request: that of its URI, or else that of the first host header, if it can be
read. -/
def requestHost (uri : Uri) (hostHeaders : List String) : String :=
  match uri.host? with
  | some host => host
  | none => ((hostHeaders.head?.filter isVisible).map stripPort).getD ""

def matchHttp [Monad m] (matcher : Matcher m) (shared : Shared) (method : String) (uri : Uri)
    (hostHeaders : List String) : m (Outcome m MatchResult) :=
  matcher.matchAt shared (requestHost uri hostHeaders) method uri

end Matcher

end UrlRouting
