import UrlRouting.Host
import UrlRouting.Tree.Lookup
import UrlRouting.Tree.Snapshot

/-!
Dispatching requests. A dispatch set has a tree for each exact host, one tree for all hosts with
variables, and one for routes that accept any host; a lookup asks them in this order. Hosts with
variables are folded into the path, so the host of a request is checked against the route that the
tree found.
-/

namespace UrlRouting

/-- The trees of all routes, with the host template and the default arguments of each route that has
them. -/
structure DispatchSet where
  hosts : Table Tree
  parameterized : Option Tree
  anyHost : Option Tree
  hostPatterns : Table String
  defaults : Table (Table String)
  deriving Inhabited

inductive MatchResult
  | success (route : String) (arguments : Table String)
  | methodNotAllowed (allowed : List Method)
  | notFound
  deriving DecidableEq

namespace MatchResult

def isSuccess : MatchResult → Bool
  | success .. => true
  | _ => false

def isMethodFailure : MatchResult → Bool
  | methodNotAllowed _ => true
  | _ => false

/-- The methods to advertise: none where a route answers, all common ones where no route knows the
path. -/
def allowedMethods : MatchResult → List Method
  | success .. => []
  | methodNotAllowed allowed => allowed
  | notFound => Method.advertised

end MatchResult

namespace DispatchSet

def empty : DispatchSet where
  hosts := .empty
  parameterized := none
  anyHost := none
  hostPatterns := .empty
  defaults := .empty

def success (set : DispatchSet) (route : String) (captured : Table String) : MatchResult :=
  .success route (((set.defaults.get? route).getD .empty).setAll captured.entries)

def hostAccepted (set : DispatchSet) (route host : String) : Bool :=
  match set.hostPatterns.get? route with
  | some template => Host.accepts template host
  | none => true

def lookupExact (set : DispatchSet) (host method path : String) : Lookup :=
  match set.hosts.get? host with
  | some tree => tree.lookup method path
  | none => .notFound

def lookupTree (tree : Option Tree) (method path : String) : Lookup :=
  match tree with
  | some tree => tree.lookup method path
  | none => .notFound

/-- Look up a decoded path. An exact host that knows the path answers for good. Otherwise the routes
of hosts with variables and those of any host are asked, and the methods they allow are added up. -/
def lookup (set : DispatchSet) (host method path : String) : MatchResult :=
  match set.lookupExact host method path with
  | .found endpoint captured => set.success endpoint.handler captured
  | .methodNotAllowed allowed => .methodNotAllowed allowed
  | .notFound =>
      let folded := lookupTree set.parameterized method (Host.foldedPath host path)
      let anyHost (allowed : List Method) : MatchResult :=
        match lookupTree set.anyHost method path with
        | .found endpoint captured => set.success endpoint.handler captured
        | .methodNotAllowed more => .methodNotAllowed (Method.addMissing allowed more)
        | .notFound => if allowed.isEmpty then .notFound else .methodNotAllowed allowed
      match folded with
      | .found endpoint captured =>
          if set.hostAccepted endpoint.handler host then set.success endpoint.handler captured
          else anyHost []
      | .methodNotAllowed allowed => anyHost allowed
      | .notFound => anyHost []

def sizeOf? (tree : Option Tree) : Nat :=
  (tree.map Tree.size).getD 0

def endpointCount (set : DispatchSet) : Nat :=
  (set.hosts.values.map Tree.size).foldl (· + ·) 0 +
    sizeOf? set.parameterized + sizeOf? set.anyHost

def fieldNames : List String :=
  ["hosts", "parameterized", "default", "hostPatterns", "defaults"]

def textsToData (table : Table String) : Data :=
  .map (table.entries.map fun (name, value) => (.text name, .text value))

def toData (set : DispatchSet) : Data :=
  let optional (tree : Option Tree) : Data := (tree.map Tree.toData).getD .null
  .map [
    (.text "hosts", .map (set.hosts.entries.map fun (host, tree) => (.text host, tree.toData))),
    (.text "parameterized", optional set.parameterized),
    (.text "default", optional set.anyHost),
    (.text "hostPatterns", textsToData set.hostPatterns),
    (.text "defaults", .map (set.defaults.entries.map fun (route, defaults) =>
      (.text route, textsToData defaults)))]

def readTexts : Data.Reader (Table String) :=
  Data.readTable fun _ _ => Data.readText

def read : Data.Reader DispatchSet :=
  Data.within fun counting depth data => do
    let fields ← Data.readFields fieldNames counting depth data
    let hosts ← fields.required "hosts" (Data.readTable Tree.read counting depth)
    let parameterized ← fields.optional "parameterized" (Data.readOption (Tree.read counting depth))
    let anyHost ← fields.optional "default" (Data.readOption (Tree.read counting depth))
    let hostPatterns ← fields.required "hostPatterns" (readTexts counting depth)
    let defaults ← fields.required "defaults" (Data.readTable readTexts counting depth)
    return { hosts, parameterized, anyHost, hostPatterns, defaults }

end DispatchSet

end UrlRouting
