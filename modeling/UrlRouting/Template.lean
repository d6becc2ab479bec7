import UrlRouting.Method
import UrlRouting.Text.Fields
import UrlRouting.Text.Name

/-!
Templates of the routing tree. A template is a path whose pieces may be captures: `:x` takes one
piece, `:x?` at the end takes one piece or none, `:x+` at the very end takes one or more, and `:x*`
there takes any number. `parse` reads a template, `expand` turns it into the step sequences without
optional parts that it stands for, and `render` writes such a sequence back.
-/

namespace UrlRouting

inductive TreeError
  | noMethods (template : String)
  | wildcardNotLast (template : String)
  | optionalNotTrailing (template : String)
  | duplicate (method : Method) (pattern : String) (existing : String)
  deriving DecidableEq

namespace TreeError

def detail : TreeError → String
  | noMethods template => template ++ " (no methods)"
  | wildcardNotLast template => template ++ " (wildcard must be the last segment)"
  | optionalNotTrailing template => template ++ " (optional parameters must be trailing)"
  | duplicate method pattern existing =>
      method.name ++ " " ++ pattern ++ " (already bound at " ++ existing ++ ")"

/-- Whether the template is at fault rather than an earlier binding. -/
def isInvalidPath : TreeError → Bool
  | duplicate .. => false
  | _ => true

def message (error : TreeError) : String :=
  (if error.isInvalidPath then "Invalid path: " else "Duplicate route: ") ++ error.detail

end TreeError

namespace Template

inductive Segment
  | static (text : String)
  /-- `:name`, exactly one piece. -/
  | capture (name : String)
  /-- `:name?`, one piece or none. -/
  | optional (name : String)
  /-- `:name+`, one or more pieces. -/
  | wildcard (name : String)
  /-- `:name*`, any number of pieces. -/
  | anyNumber (name : String)
  deriving DecidableEq

/-- One step of a path through the tree, what is left of a segment once optional parts are decided.
-/
inductive Step
  | static (text : String)
  | capture (name : String)
  | wildcard (name : String)
  deriving DecidableEq

namespace Step

def name? : Step → Option String
  | static _ => none
  | capture name => some name
  | wildcard name => some name

def render : Step → String
  | static text => text
  | capture name => ":" ++ name
  | wildcard name => ":" ++ name ++ "+"

end Step

/-- Read one piece. A colon begins a capture only before a character that may begin a name;
otherwise the piece is static text. -/
def Segment.ofPiece (piece : List Char) : Segment :=
  match piece with
  | ':' :: character :: rest =>
      if Text.startsName character then
        let named := character :: rest
        match named.getLast? with
        | some '?' => .optional (String.ofList named.dropLast)
        | some '*' => .anyNumber (String.ofList named.dropLast)
        | some '+' => .wildcard (String.ofList named.dropLast)
        | _ => .capture (String.ofList named)
      else
        .static (String.ofList piece)
  | _ => .static (String.ofList piece)

def checkOrder (template : String) (afterOptional : Bool) :
    List Segment → Except TreeError Unit
  | [] => .ok ()
  | .wildcard _ :: _ :: _ => .error (.wildcardNotLast template)
  | .anyNumber _ :: _ :: _ => .error (.wildcardNotLast template)
  | .optional _ :: rest => checkOrder template true rest
  | _ :: rest =>
      if afterOptional then .error (.optionalNotTrailing template)
      else checkOrder template afterOptional rest

def segments (template : String) : List Segment :=
  ((Text.fields '/' template.toList).filter (!·.isEmpty)).map Segment.ofPiece

def parse (template : String) : Except TreeError (List Segment) := do
  checkOrder template false (segments template)
  return segments template

def Segment.step : Segment → Step
  | .static text => .static text
  | .capture name => .capture name
  | .optional name => .capture name
  | .wildcard name => .wildcard name
  | .anyNumber name => .wildcard name

def Segment.isOptional : Segment → Bool
  | .optional _ => true
  | .anyNumber _ => true
  | _ => false

/-- The step sequences a template stands for, shortest first: the segments before the first one
that may be absent, followed by each beginning of the rest. -/
def expand : List Segment → List (List Step)
  | [] => [[]]
  | segment :: rest =>
      let withSegment := (expand rest).map (segment.step :: ·)
      if segment.isOptional then [] :: withSegment
      else withSegment

def names (steps : List Step) : List String :=
  steps.filterMap Step.name?

def render : List Step → String
  | [] => "/"
  | steps => String.join (steps.map fun step => "/" ++ step.render)

end Template

end UrlRouting
