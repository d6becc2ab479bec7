import UrlRouting.Arguments
import UrlRouting.Matcher
import UrlRouting.Path

/-!
Generating URLs, the inverse of matching. Of a route's variants, which are ordered by how much
optional content they carry, the first one that has an argument for each of its variables is written
out. Arguments that the path does not use become query parameters.
-/

namespace UrlRouting

structure Generator where
  registry : Registry
  scheme : Option String
  host : Option String
  defaults : Arguments
  encoding : Encoding
  pathPrefix : String
  deriving Inhabited

structure UrlParts where
  arguments : Arguments := .empty
  query : Arguments := .empty
  fragment : Option String := none

namespace Generator

def ofConfig (registry : Registry) (config : Config) : Generator where
  registry := registry
  scheme := config.scheme
  host := config.host
  defaults := .empty
  encoding := config.encoding
  pathPrefix := ""

def isSatisfied (arguments : Arguments) (variant : Pattern.Variant) : Bool :=
  variant.names.all arguments.contains

def checkValue (pattern : String) (parameter : Pattern.Variable) (value : String) :
    Except RoutingError Unit :=
  match Regex.read? ("^(?:" ++ parameter.regex ++ ")$") with
  | none => .error (.config (.invalidRegex parameter.regex pattern))
  | some regex =>
      if regex.isMatch value then .ok ()
      else .error (.invalidArgument parameter.name parameter.regex pattern)

def encodeValue (encoding : Encoding) (parameter : Pattern.Variable) (value : String) : String :=
  if parameter.quantifier.isWildcard then encoding.encodeSegments value
  else encoding.encode value

def tokenText (encoding : Encoding) (pattern : String) (arguments : Arguments) :
    Pattern.Token → Except RoutingError String
  | .literal text => .ok text
  | .placeholder parameter =>
      match (arguments.get? parameter.name).filter (· ≠ "") with
      | none => .ok ""
      | some value => do
          checkValue pattern parameter value
          return encodeValue encoding parameter value

def pathText (encoding : Encoding) (pattern : String) (arguments : Arguments) :
    List Pattern.Token → Except RoutingError String
  | [] => .ok ""
  | token :: tokens => do
      let text ← tokenText encoding pattern arguments token
      return text ++ (← pathText encoding pattern arguments tokens)

/-- The query: what was asked for, then the arguments that the path does not use and that were not
asked for already. -/
def queryPairs (variant : Pattern.Variant) (arguments query : Arguments) :
    List (String × String) :=
  let leftover := variant.names.foldl Arguments.erase arguments
  (leftover.pairs.foldl
    (fun query pair => if query.contains pair.1 then query else query.set pair.1 (some pair.2))
    query.withoutNulls).pairs

def fragmentText (fragment : Option String) : String :=
  (fragment.map ("#" ++ ·)).getD ""

/-- The error for arguments that satisfy no variant: what the fullest variant lacks. -/
def missingArguments (route : String) (variants : List Pattern.Variant) (arguments : Arguments) :
    RoutingError :=
  let wanted := (variants.head?.map Pattern.Variant.names).getD []
  .missingArguments route (wanted.filter (!arguments.contains ·)) arguments.names

def write (generator : Generator) (route pattern : String) (variants : List Pattern.Variant)
    (arguments query : Arguments) (fragment : Option String) : Except RoutingError String :=
  match variants.find? (isSatisfied arguments) with
  | none => .error (missingArguments route variants arguments)
  | some variant => do
      let path ← pathText generator.encoding pattern arguments variant.tokens
      let pairs := queryPairs variant arguments query
      let queryText := if pairs.isEmpty then "" else "?" ++ Query.build pairs
      return Path.collapse (generator.pathPrefix ++ path) ++ queryText ++ fragmentText fragment

/-- The arguments of a call laid over the default ones. Null arguments are dropped before, so they
do not hide a default. -/
def mergedArguments (generator : Generator) (arguments : Arguments) : Arguments :=
  generator.defaults.merge arguments.withoutNulls

def generate (generator : Generator) (shared : Shared) (route : String) (parts : UrlParts) :
    Except RoutingError String × Shared :=
  match generator.registry.route route with
  | .error error => (.error error, shared)
  | .ok declared =>
      let (variants, memo) := shared.memo.variants declared.pattern
      let shared := { shared with memo }
      match variants with
      | .error error => (.error (.config error), shared)
      | .ok variants =>
          (generator.write route declared.pattern variants
            (generator.mergedArguments parts.arguments) parts.query parts.fragment, shared)

def cutBeforeMark? : List Char → Option (List Char × List Char)
  | [] => none
  | character :: rest =>
      match character, rest with
      | ':', '/' :: '/' :: _ => some ([], character :: rest)
      | _, _ =>
          (cutBeforeMark? rest).map fun (before, mark) => (character :: before, mark)

def startsWithHost (url : String) : Bool :=
  url.toList.take 2 == ['/', '/']

def isRelative (url : String) : Bool :=
  !startsWithHost url && (cutBeforeMark? url.toList).isNone

def withScheme (url : String) (scheme : Option String) : String :=
  match scheme with
  | none => url
  | some scheme =>
      if startsWithHost url then
        if scheme = "" then url else scheme ++ ":" ++ url
      else
        match cutBeforeMark? url.toList with
        | none => url
        | some (_, mark) =>
            if scheme = "" then String.ofList (mark.drop 1) else scheme ++ String.ofList mark

/-- A URL on the host of a request. Port 80 is understood, and not written. -/
def onHostOf (uri : Uri) (url : String) (scheme : Option String) : String :=
  match uri.host? with
  | none => url
  | some host =>
      let port :=
        match uri.port? with
        | some port => if port = 80 then "" else ":" ++ toString port
        | none => ""
      withScheme ("://" ++ host ++ port ++ url) (some ((scheme <|> uri.scheme).getD ""))

def onHost (host url : String) (scheme fallbackScheme : Option String) : String :=
  let relative := isRelative host
  let scheme := if relative then scheme <|> fallbackScheme else scheme
  let host := if host ≠ "" ∧ relative then "//" ++ host else host
  withScheme (String.ofList (Text.trimEnd (· == '/') host.toList) ++ url) scheme

def routeHost? (generator : Generator) (route : String) : Option String := do
  let declared ← generator.registry.find? route
  declared.host?.filter (!Pattern.hasVariables ·)

/-- The absolute URL of a route. The host is the one given, the route's own or the configured one;
where there is none the URL is on the host of the current request, and relative without one. -/
def generateAbsolute (generator : Generator) (shared : Shared) (route : String)
    (parts : UrlParts) (scheme host : Option String) : Except RoutingError String × Shared :=
  let (url, shared) := generator.generate shared route parts
  let uri := shared.current.bind CurrentRoute.uri
  let absolute (url : String) : String :=
    match host <|> generator.routeHost? route <|> generator.host with
    | some host => onHost host url scheme (generator.scheme <|> uri.bind Uri.scheme)
    | none =>
        match uri with
        | some uri => onHostOf uri url scheme
        | none => url
  (url.map absolute, shared)

/-- The URL of the current route with some arguments replaced; the query of the current request
stays beneath the given one. Without a current route it is that of another route if one is given,
and else the current path. -/
def generateFromCurrent (generator : Generator) (shared : Shared) (replaced query : Arguments)
    (fragment : Option String) (fallback : Option String) :
    Except RoutingError String × Shared :=
  match shared.current.bind fun current => current.name.map fun name => (current, name) with
  | some (current, name) =>
      let before := ((current.uri.bind Uri.query).map Query.parse).getD []
      let parts : UrlParts := {
        arguments := (Arguments.ofTable current.arguments).merge replaced
        query := (Arguments.ofPairs before).merge query
        fragment := fragment }
      generator.generate shared name parts
  | none =>
      match fallback with
      | some route => generator.generate shared route { arguments := replaced, fragment }
      | none =>
          match shared.current.bind CurrentRoute.uri with
          | some uri => (.ok (uri.path ++ fragmentText fragment), shared)
          | none => (.error .noCurrentRoute, shared)

end Generator

end UrlRouting
