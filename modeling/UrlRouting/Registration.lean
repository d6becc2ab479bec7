import UrlRouting.Dispatch
import UrlRouting.Pattern.Compile
import UrlRouting.Route

/-!
Registering routes for dispatch. Each dispatchable route puts the templates of its variants into the
tree that its hosts call for. Where an earlier route has a place already it keeps it; any other
fault of a route ends the registration.
-/

namespace UrlRouting

namespace Registration

def answeredMethods (methods : List Method) : List Method :=
  if Method.get ∈ methods ∧ Method.head ∉ methods then methods ++ [.head] else methods

/-- Bind a route to one template for each method in turn. That a place is taken already is no
fault. -/
def bindTemplate (route template : String) (tree : Tree) :
    List Method → Except RoutingError Tree
  | [] => .ok tree
  | method :: methods =>
      match tree.add [method] template route with
      | (tree, .ok _) => bindTemplate route template tree methods
      | (tree, .error error) =>
          if error.isInvalidPath then .error (.tree error)
          else bindTemplate route template tree methods

def bindVariants (route beginning : String) (methods : List Method) (tree : Tree) :
    List Pattern.Variant → Except RoutingError Tree
  | [] => .ok tree
  | variant :: variants => do
      let template ← variant.template.mapError .config
      let tree ← bindTemplate route (beginning ++ template) tree methods
      bindVariants route beginning methods tree variants

def bindHosts (route : String) (methods : List Method) (variants : List Pattern.Variant)
    (set : DispatchSet) : List String → Except RoutingError DispatchSet
  | [] => .ok set
  | host :: hosts => do
      let tree ← bindVariants route "" methods ((set.hosts.get? host).getD .empty) variants
      bindHosts route methods variants { set with hosts := set.hosts.set host tree } hosts

def bindRoute (route : Route) (variants : List Pattern.Variant) (set : DispatchSet) :
    Except RoutingError DispatchSet := do
  let methods := answeredMethods route.methods
  match ← (HostBinding.ofHosts route.hosts).mapError .config with
  | .any =>
      let tree ← bindVariants route.name "" methods (set.anyHost.getD .empty) variants
      return { set with anyHost := some tree }
  | .exact hosts => bindHosts route.name methods variants set hosts
  | .parameterized host =>
      if (Host.regex? host).isNone then
        .error (.config (.invalidHost host))
      else
        let tree ← bindVariants route.name (Host.pathTemplate host) methods
          (set.parameterized.getD .empty) variants
        return { set with
          parameterized := some tree
          hostPatterns := set.hostPatterns.set route.name host }

def recordDefaults (route : Route) (set : DispatchSet) : DispatchSet :=
  if route.defaults.isEmpty then set
  else { set with defaults := set.defaults.set route.name route.defaults }

/-- Register some routes after others. The patterns compiled on the way are remembered, also those
of a registration that fails. -/
def registerAll (set : DispatchSet) (memo : Pattern.Memo) :
    List Route → Except RoutingError DispatchSet × Pattern.Memo
  | [] => (.ok set, memo)
  | route :: routes =>
      if route.dispatchable then
        match memo.variants route.pattern with
        | (.error error, memo) => (.error (.config error), memo)
        | (.ok variants, memo) =>
            match bindRoute route variants set with
            | .error error => (.error error, memo)
            | .ok set => registerAll (recordDefaults route set) memo routes
      else
        registerAll set memo routes

def register (memo : Pattern.Memo) (routes : List Route) :
    Except RoutingError DispatchSet × Pattern.Memo :=
  registerAll .empty memo routes

end Registration

end UrlRouting
