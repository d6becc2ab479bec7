import UrlRouting.CommandLine.ValuePattern
import UrlRouting.Text.Fields
import UrlRouting.Text.Utf8

/-!
Log filters: directives between commas, each naming a level, or a target or a span with the level
that holds there. Only their form is checked here, as nothing is logged.

Places within a directive are counted without the blanks before it, while its parts are cut from the
directive with those blanks. So the parts of a directive with blanks before it are others than those
that were found, and a place may even be inside of a character, where no cut is possible.
-/

namespace UrlRouting.CommandLine.LogFilter

inductive Fault
  | malformed
  /-- A part of a directive begins or ends inside of a character. -/
  | torn
  deriving DecidableEq

def levelNames : List String :=
  ["error", "warn", "info", "debug", "trace", "off"]

def isLevel (text : List Char) : Bool :=
  levelNames.contains (String.ofList (text.map Char.toLower)) ||
    (let digits := if text.head? = some '+' then text.drop 1 else text
     match digits.reverse with
     | [] => false
     | last :: leading => '0' ≤ last && last ≤ '5' && leading.all (· == '0'))

def startsTarget (character : Char) : Bool :=
  "-:_".toList.contains character || Text.isAlphanumeric character

structure Directive where
  padded : List Char
  text : List Char

namespace Directive

def ofPadded (padded : List Char) : Directive :=
  { padded, text := Text.trimEnd Text.isBlank (padded.dropWhile Text.isBlank) }

def cutFrom (directive : Directive) (last : List Char) : Except Fault (List Char) :=
  let place := (Text.Utf8.encode directive.text).length - (Text.Utf8.encode last).length
  match Text.Utf8.splitAt? place directive.padded with
  | some (_, rest) => .ok rest
  | none => .error .torn

def cut (directive : Directive) (found after : List Char) : Except Fault (List Char) := do
  match Text.Utf8.splitAt? (Text.Utf8.encode found).length
      (← directive.cutFrom (found ++ after)) with
  | some (part, _) => .ok part
  | none => .error .torn

def checkLevelPart (directive : Directive) : List Char → Except Fault Unit
  | [] => .ok ()
  | '=' :: level => do
      let part ← directive.cutFrom level
      if part.isEmpty || isLevel part then .ok () else .error .malformed
  | _ => .error .malformed

/-- Whether a text is a field: a name, or a name and what its values must be, after an equals sign.
What follows a second equals sign does not count. -/
def isField (text : List Char) : Bool :=
  !text.isEmpty &&
    match Text.fields '=' text with
    | _ :: value :: _ => ValuePattern.isValue value
    | _ => true

def checkFieldPart (directive : Directive) (text : List Char) : Except Fault Unit :=
  match text.dropWhile (· != '}') with
  | [] => .error .malformed
  | closing :: rest => do
      let field ← directive.cut (text.takeWhile (· != '}')) (closing :: rest)
      if isField field then
        match rest with
        | ']' :: rest => directive.checkLevelPart rest
        | _ => .error .malformed
      else
        .error .malformed

def checkSpanPart (directive : Directive) (text : List Char) : Except Fault Unit :=
  let isEnd (character : Char) : Bool := character == ']' || character == '{'
  match text.dropWhile (!isEnd ·) with
  | [] => .error .malformed
  | mark :: rest => do
      let _ ← directive.cut (text.takeWhile (!isEnd ·)) (mark :: rest)
      if mark = '{' then directive.checkFieldPart rest else directive.checkLevelPart rest

def checkTargetPart (directive : Directive) (text : List Char) : Except Fault Unit :=
  let isEnd (character : Char) : Bool := character == '=' || character == '['
  if text.head?.any startsTarget then
    match text.dropWhile (!isEnd ·) with
    | [] => .ok ()
    | mark :: rest => do
        let _ ← directive.cut (text.takeWhile (!isEnd ·)) (mark :: rest)
        if mark = '[' then directive.checkSpanPart rest
        else directive.checkLevelPart (mark :: rest)
  else
    .error .malformed

def check (directive : Directive) : Except Fault Unit :=
  match directive.text with
  | '[' :: rest => directive.checkSpanPart rest
  | text => directive.checkTargetPart text

end Directive

/-- Check that a text is a log filter. Empty directives do not count; the first that is wrong tells
the fault. -/
def check (text : String) : Except Fault Unit :=
  ((Text.fields ',' text.toList).filter (!·.isEmpty)).forM fun directive =>
    (Directive.ofPadded directive).check

example : check "Warn,store=debug" = .ok () := rfl

/-- What follows a target must be one level. -/
example : check "store=debug=warn" = .error .malformed := rfl

/-- A blank moves the end of this target into its character. -/
example : check " é=info" = .error .torn := rfl

end UrlRouting.CommandLine.LogFilter
