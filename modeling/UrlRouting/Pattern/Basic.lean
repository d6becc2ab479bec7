import UrlRouting.Error

/-!
Route patterns as they are understood: literal text, variables, and groups that may be left out. A
variant is a pattern with every group either taken or left out; `Variant.template` gives it to the
routing tree.
-/

namespace UrlRouting.Pattern

inductive Quantifier
  | one
  | optional
  | zeroOrMore
  | oneOrMore
  deriving DecidableEq, Inhabited

namespace Quantifier

/-- Whether a variable may take several pieces, slashes included. -/
def isWildcard : Quantifier → Bool
  | zeroOrMore => true
  | oneOrMore => true
  | _ => false

/-- The mark that follows the name in a template. A variable that stands in a variant is present, so
an optional one has no mark any more. -/
def mark : Quantifier → String
  | zeroOrMore => "*"
  | oneOrMore => "+"
  | _ => ""

end Quantifier

def segmentRegex : String := "[^/]+"

def wildcardRegex : String := ".+"

structure Variable where
  name : String
  regex : String
  quantifier : Quantifier
  deriving DecidableEq, Inhabited

namespace Variable

def make (name regex : List Char) (quantifier : Quantifier) : Variable where
  name := String.ofList name
  regex :=
    if regex.isEmpty then
      if quantifier.isWildcard then wildcardRegex else segmentRegex
    else
      String.ofList regex
  quantifier := quantifier

end Variable

inductive Token
  | literal (text : String)
  | placeholder (parameter : Variable)
  deriving DecidableEq, Inhabited

namespace Token

def parameter? : Token → Option Variable
  | literal _ => none
  | placeholder parameter => some parameter

end Token

inductive Part
  | token (token : Token)
  | optional (inner : List Part)
  deriving Inhabited

namespace Part

def ofVariable (parameter : Variable) : Part :=
  if parameter.quantifier = .optional then
    optional [token (.placeholder parameter)]
  else
    token (.placeholder parameter)

end Part

def mergeLiterals : List Token → List Token
  | [] => []
  | .literal text :: rest =>
      match mergeLiterals rest with
      | .literal next :: others => .literal (text ++ next) :: others
      | merged => .literal text :: merged
  | .placeholder parameter :: rest => .placeholder parameter :: mergeLiterals rest

structure Variant where
  tokens : List Token
  deriving DecidableEq, Inhabited

namespace Variant

def ofTokens (tokens : List Token) : Variant :=
  { tokens := mergeLiterals tokens }

def parameters (variant : Variant) : List Variable :=
  variant.tokens.filterMap Token.parameter?

def names (variant : Variant) : List String :=
  variant.parameters.map Variable.name

def beginsPiece : List Token → Bool
  | [] => true
  | .literal text :: _ => text.toList.head? == some '/'
  | .placeholder _ :: _ => false

/-- Tokens as template text, knowing whether a path piece begins here. A variable must have a piece
of its own, since the tree captures whole pieces. -/
def templateFrom (pieceBegins : Bool) : List Token → Except ConfigError String
  | [] => .ok ""
  | .literal text :: rest => do
      return text ++ (← templateFrom (text.toList.getLast? == some '/') rest)
  | .placeholder parameter :: rest => do
      if pieceBegins && beginsPiece rest then
        let name := ":" ++ parameter.name ++ parameter.quantifier.mark
        return name ++ (← templateFrom false rest)
      else
        .error (.sharedSegment parameter.name)

def template (variant : Variant) : Except ConfigError String := do
  let text ← templateFrom true variant.tokens
  return if text.toList.head? == some '/' then text else "/" ++ text

end Variant

end UrlRouting.Pattern
