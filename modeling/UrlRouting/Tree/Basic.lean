import UrlRouting.Table
import UrlRouting.Template

/-!
The routing tree. Templates without captures live in a flat table under their own text; all others
live in a tree of nodes, one level for each step. A place, in either half, holds at most one
endpoint for a method. Capture names belong to the endpoints, so templates that differ only in names
share a place.
-/

namespace UrlRouting

/-- A handler bound to one method at one place, with the names of its captures and the template it
was bound under. -/
structure Endpoint where
  method : Method
  handler : String
  captures : List String
  pattern : String
  deriving DecidableEq, Inhabited

namespace Endpoint

def find? (endpoints : List Endpoint) (method : Method) : Option Endpoint :=
  endpoints.find? (·.method == method)

end Endpoint

/-- A node of the tree: the endpoints of the paths that end here, one child for each static text,
and a child each for a captured piece and for a captured rest. -/
structure Node where
  segment : String
  endpoints : List Endpoint
  children : List Node
  captureChild : Option Node
  wildcardChild : Option Node
  deriving Inhabited

namespace Node

def leaf (segment : String) : Node :=
  { segment, endpoints := [], children := [], captureChild := none, wildcardChild := none }

def child? (node : Node) (text : String) : Option Node :=
  node.children.find? (·.segment == text)

def changeChild (text : String) (change : Node → Node) : List Node → List Node
  | [] => [change (leaf text)]
  | child :: others =>
      if child.segment == text then change child :: others
      else child :: changeChild text change others

def next? (node : Node) : Template.Step → Option Node
  | .static text => node.child? text
  | .capture _ => node.captureChild
  | .wildcard _ => node.wildcardChild

def endpointsAt (node : Node) : List Template.Step → List Endpoint
  | [] => node.endpoints
  | step :: rest =>
      match node.next? step with
      | none => []
      | some child => child.endpointsAt rest

/-- Change the endpoints at the place that a step sequence leads to, making the nodes on the way. -/
def changeAt (change : List Endpoint → List Endpoint) : List Template.Step → Node → Node
  | [], node => { node with endpoints := change node.endpoints }
  | .static text :: rest, node =>
      { node with children := changeChild text (changeAt change rest) node.children }
  | .capture _ :: rest, node =>
      { node with
        captureChild := some (changeAt change rest (node.captureChild.getD (leaf ":"))) }
  | .wildcard _ :: rest, node =>
      { node with
        wildcardChild := some (changeAt change rest (node.wildcardChild.getD (leaf "*"))) }

def insert (endpoint : Endpoint) : List Template.Step → Node → Node :=
  changeAt (· ++ [endpoint])

end Node

structure Tree where
  root : Node
  static : Table (List Endpoint)
  size : Nat
  deriving Inhabited

namespace Tree

def empty : Tree :=
  { root := .leaf "", static := .empty, size := 0 }

def isEmpty (tree : Tree) : Bool :=
  tree.size == 0

def endpointsAt (tree : Tree) (steps : List Template.Step) : List Endpoint :=
  if (Template.names steps).isEmpty then
    (tree.static.get? (Template.render steps)).getD []
  else
    tree.root.endpointsAt steps

def changeAt (tree : Tree) (change : List Endpoint → List Endpoint)
    (steps : List Template.Step) : Tree :=
  if (Template.names steps).isEmpty then
    let pattern := Template.render steps
    { tree with static := tree.static.set pattern (change ((tree.static.get? pattern).getD [])) }
  else
    { tree with root := tree.root.changeAt change steps }

def insert (tree : Tree) (steps : List Template.Step) (endpoint : Endpoint) : Tree :=
  { tree.changeAt (· ++ [endpoint]) steps with size := tree.size + 1 }

def endpoint (steps : List Template.Step) (method : Method) (handler : String) : Endpoint :=
  { method, handler, captures := Template.names steps, pattern := Template.render steps }

/-- Bind a handler for one method at one place, which is made first. Binding the same handler again
changes nothing; another handler is refused. -/
def bind (tree : Tree) (steps : List Template.Step) (method : Method) (handler : String) :
    Except TreeError Tree :=
  let made := tree.changeAt id steps
  match Endpoint.find? (made.endpointsAt steps) method with
  | none => .ok (made.insert steps (endpoint steps method handler))
  | some existing =>
      if existing.handler == handler then
        .ok made
      else
        .error (.duplicate method (Template.render steps) existing.pattern)

def bindAll (tree : Tree) (handler : String) :
    List (List Template.Step × Method) → Tree × Except TreeError Unit
  | [] => (tree, .ok ())
  | (steps, method) :: rest =>
      match tree.bind steps method handler with
      | .ok tree => tree.bindAll handler rest
      | .error error => (tree, .error error)

def places (methods : List Method) (segments : List Template.Segment) :
    List (List Template.Step × Method) :=
  (Template.expand segments).flatMap fun steps => methods.map fun method => (steps, method)

/-- Bind a handler for some methods under a template. The resulting tree comes with the reason if
not all of it could be bound. -/
def add (tree : Tree) (methods : List Method) (template : String) (handler : String) :
    Tree × Except TreeError Unit :=
  if methods.isEmpty then
    (tree, .error (.noMethods template))
  else
    match Template.parse template with
    | .error error => (tree, .error error)
    | .ok segments => tree.bindAll handler (places methods segments)

end Tree

end UrlRouting
