import UrlRouting.Path
import UrlRouting.Tree.Basic

/-!
Looking up a path in a routing tree. A path may fit several places; `candidates` lists them with
what their captures take, in order of preference: at every piece the static text before a captured
piece before a captured rest. The first candidate that answers the method is the one found. If none
does, the methods of all of them are the allowed ones.
-/

namespace UrlRouting

structure Candidate where
  endpoints : List Endpoint
  values : List String

namespace Candidate

def capture (value : String) (candidate : Candidate) : Candidate :=
  { candidate with values := value :: candidate.values }

def ofEndpoints (endpoints : List Endpoint) (values : List String) : List Candidate :=
  if endpoints.isEmpty then [] else [{ endpoints, values }]

end Candidate

/-- The candidates below a node for the pieces of a path that are left, the preferred first. -/
def Node.candidates (path : String) (node : Node) : List Path.Piece → List Candidate
  | [] => Candidate.ofEndpoints node.endpoints []
  | piece :: rest =>
      let static :=
        match node.child? piece.text with
        | none => []
        | some child => child.candidates path rest
      let captured :=
        match node.captureChild with
        | none => []
        | some child => (child.candidates path rest).map (Candidate.capture piece.text)
      let whole :=
        match node.wildcardChild with
        | none => []
        | some child => Candidate.ofEndpoints child.endpoints [Path.sliceFrom path piece rest]
      static ++ captured ++ whole

inductive Lookup
  | found (endpoint : Endpoint) (parameters : Table String)
  | methodNotAllowed (allowed : List Method)
  | notFound
  deriving DecidableEq

namespace Method

def addMissing (methods more : List Method) : List Method :=
  more.foldl (fun methods method => if method ∈ methods then methods else methods ++ [method])
    methods

end Method

namespace Tree

/-- All candidates for a path: the flat table's before those of the nodes. -/
def candidates (tree : Tree) (path : String) : List Candidate :=
  Candidate.ofEndpoints ((tree.static.get? (Path.normalForm path)).getD []) [] ++
    tree.root.candidates path (Path.pieces path)

def answer? (method : Option Method) (candidate : Candidate) :
    Option (Endpoint × Table String) := do
  let endpoint ← Endpoint.find? candidate.endpoints (← method)
  return (endpoint, .ofList (endpoint.captures.zip candidate.values))

def allowed (candidates : List Candidate) : List Method :=
  candidates.foldl
    (fun methods candidate =>
      Method.addMissing methods (candidate.endpoints.map Endpoint.method)) []

def lookup (tree : Tree) (method : String) (path : String) : Lookup :=
  let candidates := tree.candidates path
  match candidates.findSome? (answer? (Method.ofName? method)) with
  | some (endpoint, parameters) => .found endpoint parameters
  | none =>
      let allowed := allowed candidates
      if allowed.isEmpty then .notFound else .methodNotAllowed allowed

end Tree

end UrlRouting
