import UrlRouting.Pattern.Lexeme
import UrlRouting.Regex.Match
import UrlRouting.Regex.Reader

/-!
Hosts that routes are bound to. A host may have variables, each standing for one label; it is then
read in two ways. As the beginning of a path template it finds candidate routes in the tree, dots
being taken for slashes; as a regular expression it decides whether a request's host is meant.
-/

namespace UrlRouting

namespace Regex

def isSpecial (character : Char) : Bool :=
  "\\.+*?()|[]\x7b\x7d^$#&-~".toList.contains character

def escape (text : String) : String :=
  String.ofList <| text.toList.flatMap fun character =>
    if isSpecial character then ['\\', character] else [character]

end Regex

namespace Host

/-- The regular expression of a variable within a host. One that takes a path piece by default takes
a label here. -/
def variableRegex (parameter : Pattern.Variable) : String :=
  if parameter.regex = Pattern.segmentRegex then "[^.]+" else parameter.regex

def tokenSource : Pattern.Token → String
  | .literal text => Regex.escape text
  | .placeholder parameter => "(?:" ++ variableRegex parameter ++ ")"

def regexSource (template : String) : String :=
  "^" ++ String.join ((Pattern.tokenize template).map tokenSource) ++ "$"

def regex? (template : String) : Option Regex :=
  Regex.read? (regexSource template)

/-- Whether a host is meant by a template. A template without a regular expression means none. -/
def accepts (template : String) (host : String) : Bool :=
  (regex? template).any (·.isMatch host)

/-- Text of a host within a path: its labels become pieces. -/
def foldDots (text : String) : String :=
  String.ofList (text.toList.map fun character => if character = '.' then '/' else character)

def tokenTemplate : Pattern.Token → String
  | .literal text => foldDots text
  | .placeholder parameter => ":" ++ parameter.name

/-- The beginning of the path templates of routes bound to a host with variables. -/
def pathTemplate (template : String) : String :=
  "/" ++ String.join ((Pattern.tokenize template).map tokenTemplate)

def foldedPath (host : String) (path : String) : String :=
  "/" ++ foldDots host ++ path

def checkVariables (host : String) : Except ConfigError Unit :=
  match (Pattern.tokenize host).findSome? fun token =>
      token.parameter?.filter fun parameter => parameter.quantifier ≠ .one with
  | some parameter => .error (.hostQuantifier host parameter.name)
  | none => .ok ()

end Host

inductive HostBinding
  | any
  | exact (hosts : List String)
  | parameterized (host : String)
  deriving DecidableEq

namespace HostBinding

/-- The binding that the hosts of a route make. Variables are allowed only in a host that is the
only one. -/
def ofHosts : List String → Except ConfigError HostBinding
  | [] => .ok any
  | [host] =>
      if Pattern.hasVariables host then do
        Host.checkVariables host
        return parameterized host
      else
        .ok (exact [host])
  | hosts =>
      if hosts.any Pattern.hasVariables then .error .variablesInSeveralHosts
      else .ok (exact hosts)

end HostBinding

end UrlRouting
