/-!
HTTP request methods: the closed set a route may answer, their wire names, and the methods
advertised for a path that nothing serves.
-/

namespace UrlRouting

inductive Method
  | get
  | post
  | put
  | delete
  | patch
  | head
  | options
  | connect
  | trace
  deriving DecidableEq, Inhabited

namespace Method

def all : List Method :=
  [get, post, put, delete, patch, head, options, connect, trace]

/-- The methods advertised when no route knows the path at all. `connect` and `trace` address the
connection rather than a resource, so they are left out. -/
def advertised : List Method :=
  [get, post, put, delete, patch, head, options]

def name : Method → String
  | get => "GET"
  | post => "POST"
  | put => "PUT"
  | delete => "DELETE"
  | patch => "PATCH"
  | head => "HEAD"
  | options => "OPTIONS"
  | connect => "CONNECT"
  | trace => "TRACE"

/-- The method with a wire name. Names are case-sensitive, as HTTP requires. -/
def ofName? (text : String) : Option Method :=
  all.find? (·.name == text)

def index (method : Method) : Nat :=
  all.idxOf method

theorem mem_all (method : Method) : method ∈ all := by
  cases method <;> decide

theorem ofName?_name (method : Method) : ofName? method.name = some method := by
  cases method <;> decide

theorem name_of_ofName? {text : String} {method : Method}
    (read : ofName? text = some method) : method.name = text := by
  simpa using List.find?_some read

end Method

end UrlRouting
