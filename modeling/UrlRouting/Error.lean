import UrlRouting.Template
import UrlRouting.Text.Quoted

/-!
What can go wrong in declaring routes, generating URLs and storing dispatch trees. Each error is a
cause; `message` is its text. That no route fits a request is no error but an answer.
-/

namespace UrlRouting

inductive ConfigError
  | unmatchedBrackets (pattern : String)
  /-- A variable stands next to other text within a path piece. -/
  | sharedSegment (name : String)
  | noMethods (route : String)
  | duplicateName (route : String)
  | variablesInSeveralHosts
  /-- A host variable does not take exactly one label. -/
  | hostQuantifier (host : String) (name : String)
  | invalidHost (host : String)
  | invalidRegex (regex : String) (pattern : String)
  | unreadableRoutes
  | malformedRoutes
  | unreadableConfig
  | malformedConfig
  | emptyCacheKey
  | emptyCachePath
  | invalidScheme (scheme : String)
  | emptyHost
  | invalidLogLevel (level : String)
  deriving DecidableEq

namespace ConfigError

def detail : ConfigError → String
  | unmatchedBrackets pattern => "Unmatched square brackets in pattern: " ++ pattern
  | sharedSegment name => "Variable \"" ++ name ++ "\" must span a whole path segment"
  | noMethods route => "Route \"" ++ route ++ "\" declares no methods"
  | duplicateName route => "A route named \"" ++ route ++ "\" already exists"
  | variablesInSeveralHosts => "Placeholders are not allowed with multiple host names."
  | hostQuantifier host name =>
      "Host \"" ++ host ++ "\" cannot contain optional or wildcard variable \"" ++ name ++ "\""
  | invalidHost host => "Invalid host pattern \"" ++ host ++ "\""
  | invalidRegex regex pattern =>
      "Invalid regex `" ++ regex ++ "` in pattern `" ++ pattern ++ "`"
  | unreadableRoutes => "Failed to read routes file"
  | malformedRoutes => "Failed to parse routes JSON"
  | unreadableConfig => "Failed to read config file"
  | malformedConfig => "Failed to parse config JSON"
  | emptyCacheKey => "Cache key cannot be empty"
  | emptyCachePath => "Cache path cannot be empty when saving to file"
  | invalidScheme scheme => "Invalid scheme: " ++ Text.quote scheme
  | emptyHost => "Host cannot be empty"
  | invalidLogLevel level => "Invalid log level '" ++ level ++ "'"

end ConfigError

/-- Why a key-value cache gives no dispatch trees. -/
inductive CacheError
  | malformedSnapshot
  | failed (reason : String)
  deriving DecidableEq

namespace CacheError

def detail : CacheError → String
  | malformedSnapshot => "failed to decode dispatch snapshot"
  | failed reason => reason

end CacheError

/-- An error of any part of the library. -/
inductive RoutingError
  | config (cause : ConfigError)
  | routeNotFound (route : String)
  | missingArguments (route : String) (missing : List String) (received : List String)
  | invalidArgument (name : String) (regex : String) (pattern : String)
  | noCurrentRoute
  | cache (cause : CacheError)
  | inputOutput
  | serialization
  | tree (cause : TreeError)
  deriving DecidableEq

namespace RoutingError

/-- The text of the error. What a file system or a format reader would add is left out. -/
def message : RoutingError → String
  | config cause => "Configuration error: " ++ cause.detail
  | routeNotFound route =>
      "Cannot generate URI for route \"" ++ route ++ "\"; route not found"
  | missingArguments route missing received =>
      "Route `" ++ route ++ "` expects at least argument values for [" ++
        String.intercalate "," missing ++ "], but received [" ++
        String.intercalate "," received ++ "]"
  | invalidArgument name regex pattern =>
      "Argument value for [" ++ name ++ "] did not match the regex `" ++ regex ++
        "` (pattern `" ++ pattern ++ "`)"
  | noCurrentRoute => "Current route is not detected"
  | cache cause => "Cache error: " ++ cause.detail
  | inputOutput => "I/O error"
  | serialization => "Serialization error"
  | tree cause => cause.message

def report : RoutingError → String
  | config cause => "Config(" ++ Text.quote cause.detail ++ ")"
  | routeNotFound route => "RouteNotFound(" ++ Text.quote route ++ ")"
  | missingArguments route missing received =>
      "MissingArguments \x7b route: " ++ Text.quote route ++ ", missing: " ++
        Text.quoteList missing ++ ", received: " ++ Text.quoteList received ++ " \x7d"
  | invalidArgument name regex pattern =>
      "InvalidArgument \x7b name: " ++ Text.quote name ++ ", regex: " ++ Text.quote regex ++
        ", pattern: " ++ Text.quote pattern ++ " \x7d"
  | noCurrentRoute => "NoCurrentRoute"
  | cache cause => "Cache(" ++ Text.quote cause.detail ++ ")"
  | inputOutput => "Io"
  | serialization => "Serialization"
  | tree cause =>
      "Tree(" ++ (if cause.isInvalidPath then "InvalidPath" else "DuplicateRoute") ++ "(" ++
        Text.quote cause.detail ++ "))"

end RoutingError

end UrlRouting
