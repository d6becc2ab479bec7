import UrlRouting.Data.Json
import UrlRouting.Error
import UrlRouting.Text.Fields
import UrlRouting.Tree.Snapshot

/-!
Declared routes and the registry that holds them. A route is known by its name, a given one or one
made up of its methods, hosts and pattern, and a registry holds at most one route of a name.
-/

namespace UrlRouting

/-- A declared route. One that is not dispatchable answers no request, but URLs can be generated for
it. -/
structure Route where
  givenName : Option String
  pattern : String
  methods : List Method
  hosts : List String
  defaults : Table String
  dispatchable : Bool
  deriving DecidableEq, Inhabited

namespace Route

def new (methods : List Method) (pattern : String) : Route where
  givenName := none
  pattern := pattern
  methods := methods.foldl
    (fun unique method => if method ∈ unique then unique else unique ++ [method]) []
  hosts := []
  defaults := .empty
  dispatchable := true

def withName (route : Route) (name : String) : Route :=
  { route with givenName := some name }

def withHosts (route : Route) (hosts : List String) : Route :=
  { route with
    hosts := hosts.map fun host => String.ofList (Text.trimEnd (· == '/') host.toList) }

def withDefaults (route : Route) (defaults : Table String) : Route :=
  { route with defaults }

def withDispatchable (route : Route) (dispatchable : Bool) : Route :=
  { route with dispatchable }

/-- The given name, or the methods, hosts and pattern of a route without one. -/
def name (route : Route) : String :=
  match route.givenName with
  | some name => name
  | none =>
      String.intercalate ", " (route.methods.map Method.name) ++ " " ++
        String.intercalate "|" route.hosts ++ route.pattern

def host? (route : Route) : Option String :=
  route.hosts.head?

def fieldNames : List String :=
  ["name", "pattern", "methods", "hosts", "defaults", "has_middleware"]

def toData (route : Route) : Data :=
  let name :=
    match route.givenName with
    | none => []
    | some name => [(.text "name", .text name)]
  let hosts :=
    if route.hosts.isEmpty then [] else [(.text "hosts", .list (route.hosts.map .text))]
  .map <|
    name ++
    [(.text "pattern", .text route.pattern),
      (.text "methods", .list (route.methods.map Method.toData))] ++
    hosts ++
    [(.text "defaults", .map (route.defaults.entries.map fun (name, value) =>
        (.text name, .text value))),
      (.text "has_middleware", .bool route.dispatchable)]

def read : Data.Reader Route :=
  Data.within fun counting depth data => do
    let fields ← Data.readFields fieldNames counting depth data
    let givenName ← fields.withDefault "name" (Data.readOption Data.readText) none
    let pattern ← fields.required "pattern" Data.readText
    let methods ← fields.required "methods" (Data.readList Method.read counting depth)
    let hosts ← fields.withDefault "hosts" (Data.readTexts counting depth) []
    let defaults ← fields.withDefault "defaults"
      (Data.readTable (fun _ _ => Data.readText) counting depth) .empty
    let dispatchable ← fields.withDefault "has_middleware" Data.readBool true
    return { givenName, pattern, methods, hosts, defaults, dispatchable }

end Route

structure Registry where
  routes : List Route
  index : Table Nat
  deriving Inhabited

namespace Registry

def empty : Registry :=
  { routes := [], index := .empty }

def add (registry : Registry) (route : Route) : Except ConfigError Registry :=
  if route.methods.isEmpty then
    .error (.noMethods route.name)
  else if registry.index.contains route.name then
    .error (.duplicateName route.name)
  else
    .ok {
      routes := registry.routes ++ [route]
      index := registry.index.set route.name registry.routes.length }

/-- Declare one more route in a registry that is kept, whether the route is accepted or not. -/
def declare (route : Route) : ExceptT ConfigError (StateM Registry) Unit := do
  if route.methods.isEmpty then
    throw (.noMethods route.name)
  else if (← get).index.contains route.name then
    throw (.duplicateName route.name)
  else
    modify fun registry =>
      { registry with index := registry.index.set route.name registry.routes.length }
    modify fun registry => { registry with routes := registry.routes ++ [route] }

def ofRoutes (routes : List Route) : Except ConfigError Registry :=
  routes.foldlM add empty

def ofFileText : Option String → Except ConfigError Registry
  | none => .error .unreadableRoutes
  | some text =>
      match Json.readAs (Data.readList Route.read) text with
      | none => .error .malformedRoutes
      | some routes => ofRoutes routes

def find? (registry : Registry) (name : String) : Option Route :=
  (registry.index.get? name).bind (registry.routes[·]?)

def route (registry : Registry) (name : String) : Except RoutingError Route :=
  match registry.find? name with
  | some route => .ok route
  | none => .error (.routeNotFound name)

end Registry

end UrlRouting
