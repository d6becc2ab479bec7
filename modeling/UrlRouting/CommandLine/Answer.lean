import UrlRouting.CommandLine.Invocation
import UrlRouting.CommandLine.LogFilter

/-!
Carrying out a command line. The log filter is checked first, settings are read and checked before
routes are read, and nothing is done where one of them is wrong. The files that are read and written
are given by their operations, so that a command line can be carried out in any monad.
-/

namespace UrlRouting.CommandLine

inductive Answer
  | output (text : String)
  | failure (error : RoutingError)
  | refusal (reason : Refusal)
  /-- The log filter cannot be read to its end, so nothing is carried out. -/
  | breakdown

def helpText : String :=
  "Match requests and generate URLs for a JSON route file

Usage: url-routing [OPTIONS] --routes <ROUTES> <COMMAND>

Commands:
  routes    List declared routes
  match     Match a request against the routes
  generate  Generate a URL for a named route
  compile   Build the dispatch trees and write them to a snapshot file
  help      Print this message

Options:
  -r, --routes <ROUTES>        Path to JSON route file
  -c, --config <CONFIG>        Path to JSON configuration file
      --legacy-encoding        Use legacy form encoding (`+` for spaces)
      --log-level <LOG_LEVEL>  Log level (trace, debug, info, warn, error) [default: info]
  -h, --help                   Print help
  -V, --version                Print version

Options of match <PATH>:
  -m, --method <METHOD>        Request method [default: GET]
      --host <HOST>            Request host

Options of generate <NAME>:
  -a, --arg <NAME=VALUE>       Route argument; repeatable
  -q, --query <NAME=VALUE>     Query parameter; repeatable
      --hash <HASH>            Fragment to append
      --absolute               Generate an absolute URL
      --scheme <SCHEME>        Scheme for absolute URLs
      --host <HOST>            Host for absolute URLs

Options of compile:
  -o, --output <OUTPUT>        Snapshot file; defaults to the configured cache path
"

namespace Answer

def exitCode : Answer → UInt32
  | output _ => 0
  | failure _ => 1
  | breakdown => 101
  | refusal .misuse => 2
  | refusal _ => 0

def outputText : Answer → String
  | output text => text
  | refusal .help => helpText
  | refusal .version => "url-routing 0.1.0\n"
  | _ => ""

def errorText : Answer → String
  | failure error => "Error: " ++ error.report ++ "\n"
  | refusal .misuse => "error: wrong usage, try '--help'\n"
  | _ => ""

end Answer

def padEnd (width : Nat) (text : String) : String :=
  text ++ String.ofList (List.replicate (width - text.length) ' ')

example : padEnd 4 "ab" = "ab  " := by decide

example : padEnd 4 "abcdef" = "abcdef" := by decide

def routeLine (route : Route) : String :=
  padEnd 24 route.name ++ " " ++
    padEnd 16 (String.intercalate "," (route.methods.map Method.name)) ++ " " ++
    String.intercalate "|" route.hosts ++ route.pattern ++ "\n"

def matchData : MatchResult → Data
  | .success route arguments => .map [
      (.text "arguments", .map ((Arguments.ofTable arguments).pairs.map fun (name, value) =>
        (.text name, .text value))),
      (.text "route", .text route),
      (.text "status", .unsigned 200)]
  | answer => .map [
      (.text "allowed", .list (answer.allowedMethods.map Method.toData)),
      (.text "status", .unsigned (if answer.isMethodFailure then 405 else 404))]

variable {m : Type → Type} [Monad m]

namespace Command

/-- Carry out a command. Writing the dispatch trees to a file builds them anew and leaves no trace
elsewhere. -/
def execute (files : Files m) (config : Config) (registry : Registry) :
    Command → m (Except RoutingError String)
  | list => return .ok (String.join (registry.routes.map routeLine))
  | dispatch path method host => do
      let matcher ←
        Matcher.new registry.routes (Store.ofConfig config files none) config.encoding
      let outcome ←
        matcher.matchRequest { memo := .empty, current := none } host method path
      return outcome.result.map fun answer => Json.print (matchData answer) ++ "\n"
  | generate route parts absolute scheme host =>
      let generator := Generator.ofConfig registry config
      let shared : Shared := { memo := .empty, current := none }
      let (url, _) :=
        if absolute then generator.generateAbsolute shared route parts scheme host
        else generator.generate shared route parts
      return url.map (· ++ "\n")
  | compile output =>
      match Registration.register .empty registry.routes with
      | (.error error, _) => return .error error
      | (.ok set, _) => do
          let saved ← (Store.file files (output.getD config.cachePath)).trySave set
          return saved.map fun _ => ""

end Command

namespace Invocation

def readConfig (files : Files m) : Option String → m (Except ConfigError Config)
  | none => return .ok .default
  | some path => return Config.ofFileText (← files.read path)

def settings (invocation : Invocation) (config : Config) : Except ConfigError Config := do
  let config := if invocation.legacyEncoding then { config with encodeRaw := false } else config
  config.validate
  return config

def execute (files : Files m) (invocation : Invocation) : m (Except RoutingError String) := do
  match (← readConfig files invocation.config).bind invocation.settings with
  | .error error => return .error (.config error)
  | .ok config =>
      match Registry.ofFileText (← files.read invocation.routes) with
      | .error error => return .error (.config error)
      | .ok registry => invocation.command.execute files config registry

end Invocation

def run (files : Files m) (words : List String) : m Answer := do
  match Invocation.read words with
  | .error reason => return .refusal reason
  | .ok invocation =>
      match LogFilter.check invocation.logLevel with
      | .error .malformed => return .failure (.config (.invalidLogLevel invocation.logLevel))
      | .error .torn => return .breakdown
      | .ok () =>
          match ← invocation.execute files with
          | .error error => return .failure error
          | .ok text => return .output text

end UrlRouting.CommandLine
