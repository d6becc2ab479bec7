import UrlRouting.CommandLine.Options
import UrlRouting.Generator

/-!
What a command line asks for: a file of routes, settings, and one command with its operands and
options. The options of the whole program stand before the command, those of the command after it.
-/

namespace UrlRouting.CommandLine

def once {α : Type} (given : Option α) (value : α) : Except Refusal (Option α) :=
  if given.isSome then .error .misuse else .ok (some value)

def onceFlag (given : Bool) : Except Refusal Bool :=
  if given then .error .misuse else .ok true

def filePath (text : String) : Except Refusal String :=
  if text = "" then .error .misuse else .ok text

def namedValue (text : String) : Except Refusal (String × String) :=
  match Text.cutFirst? '=' text.toList with
  | some (name, value) => .ok (String.ofList name, String.ofList value)
  | none => .error .misuse

def given {α : Type} : Option α → Except Refusal α
  | some value => .ok value
  | none => .error .misuse

def helpRule {σ : Type} : OptionRule σ :=
  { name := "help", letter := some 'h', effect := .flag fun _ => .error .help }

inductive Command
  | list
  | dispatch (path method host : String)
  | generate (route : String) (parts : UrlParts) (absolute : Bool) (scheme host : Option String)
  | compile (output : Option String)

namespace Command

def readAll {σ : Type} (grammar : Grammar σ) (words : List String) (start : σ) :
    Except Refusal σ :=
  (grammar.read none words start).map Prod.fst

def listGrammar : Grammar Unit where
  options := [helpRule]
  operands := .each fun _ _ => .error .misuse

structure RequestRecord where
  path : Option String := none
  method : Option String := none
  host : Option String := none

namespace RequestRecord

def grammar : Grammar RequestRecord where
  options := [
    { name := "method", letter := some 'm', effect := .value fun text record =>
        return { record with method := ← once record.method text } },
    { name := "host", effect := .value fun text record =>
        return { record with host := ← once record.host text } },
    helpRule]
  operands := .each fun text record => return { record with path := ← once record.path text }

def command (record : RequestRecord) : Except Refusal Command := do
  return .dispatch (← given record.path) (record.method.getD "GET") (record.host.getD "")

end RequestRecord

structure UrlRecord where
  route : Option String := none
  arguments : List (String × String) := []
  query : List (String × String) := []
  fragment : Option String := none
  absolute : Bool := false
  scheme : Option String := none
  host : Option String := none

namespace UrlRecord

def grammar : Grammar UrlRecord where
  options := [
    { name := "arg", letter := some 'a', effect := .value fun text record =>
        return { record with arguments := record.arguments ++ [← namedValue text] } },
    { name := "query", letter := some 'q', effect := .value fun text record =>
        return { record with query := record.query ++ [← namedValue text] } },
    { name := "hash", effect := .value fun text record =>
        return { record with fragment := ← once record.fragment text } },
    { name := "absolute", effect := .flag fun record =>
        return { record with absolute := ← onceFlag record.absolute } },
    { name := "scheme", effect := .value fun text record =>
        return { record with scheme := ← once record.scheme text } },
    { name := "host", effect := .value fun text record =>
        return { record with host := ← once record.host text } },
    helpRule]
  operands := .each fun text record => return { record with route := ← once record.route text }

def command (record : UrlRecord) : Except Refusal Command := do
  let parts : UrlParts := {
    arguments := .ofPairs record.arguments
    query := .ofPairs record.query
    fragment := record.fragment }
  return .generate (← given record.route) parts record.absolute record.scheme record.host

end UrlRecord

def compileGrammar : Grammar (Option String) where
  options := [
    { name := "output", letter := some 'o', effect := .value fun text output => do
        once output (← filePath text) },
    helpRule]
  operands := .each fun _ _ => .error .misuse

def names : List String :=
  ["routes", "match", "generate", "compile", "help"]

/-- Read a command from its name and the words after it. Help on commands of unknown names is
misuse. -/
def read (name : String) (words : List String) : Except Refusal Command :=
  match name with
  | "routes" => do
      readAll listGrammar words ()
      return .list
  | "match" => do (← readAll RequestRecord.grammar words {}).command
  | "generate" => do (← readAll UrlRecord.grammar words {}).command
  | "compile" => do return .compile (← readAll compileGrammar words none)
  | "help" =>
      match words with
      | [] => .error .help
      | [topic] => if names.contains topic then .error .help else .error .misuse
      | _ => .error .misuse
  | _ => .error .misuse

end Command

structure Invocation where
  routes : String
  config : Option String
  legacyEncoding : Bool
  logLevel : String
  command : Command

namespace Invocation

structure Preamble where
  routes : Option String := none
  config : Option String := none
  legacyEncoding : Bool := false
  logLevel : Option String := none

def preambleGrammar : Grammar Preamble where
  options := [
    { name := "routes", letter := some 'r', effect := .value fun text record => do
        return { record with routes := ← once record.routes (← filePath text) } },
    { name := "config", letter := some 'c', effect := .value fun text record => do
        return { record with config := ← once record.config (← filePath text) } },
    { name := "legacy-encoding", effect := .flag fun record =>
        return { record with legacyEncoding := ← onceFlag record.legacyEncoding } },
    { name := "log-level", effect := .value fun text record =>
        return { record with logLevel := ← once record.logLevel text } },
    helpRule,
    { name := "version", letter := some 'V', effect := .flag fun _ => .error .version }]
  operands := .stop

def read (words : List String) : Except Refusal Invocation := do
  let (preamble, words) ← preambleGrammar.read none words {}
  match words with
  | [] => throw .misuse
  | name :: words =>
      let command ← Command.read name words
      return {
        routes := ← given preamble.routes
        config := preamble.config
        legacyEncoding := preamble.legacyEncoding
        logLevel := preamble.logLevel.getD "info"
        command }

end Invocation

end UrlRouting.CommandLine
