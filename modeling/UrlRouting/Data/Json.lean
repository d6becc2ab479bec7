import UrlRouting.Data.Basic
import UrlRouting.Text.Hex

/-!
JSON texts. `read` accepts exactly the texts of the standard: one value with nothing but white space
around it. It works in two passes: the text is cut into tokens, and the tokens drive a machine that
keeps the lists and maps which are still open. `print` and `printPretty` write data as JSON.
-/

namespace UrlRouting.Json

inductive Token
  | openList
  | closeList
  | openMap
  | closeMap
  | comma
  | colon
  | scalar (value : Data)

def unit? (a b c d : Char) : Option Nat := do
  let high := (← Text.hexValue? a) * 16 + (← Text.hexValue? b)
  let low := (← Text.hexValue? c) * 16 + (← Text.hexValue? d)
  return high * 256 + low

/-- What has been read of a string: its characters in reverse, the first half of a surrogate pair if
one was just read, and whether a half without its partner occurred. -/
structure Draft where
  reversed : List Char := []
  half : Option Nat := none
  unpaired : Bool := false

namespace Draft

def settle (state : Draft) : Draft :=
  { state with half := none, unpaired := state.unpaired || state.half.isSome }

def push (state : Draft) (character : Char) : Draft :=
  let state := state.settle
  { state with reversed := character :: state.reversed }

def pushUnit (state : Draft) (unit : Nat) : Draft :=
  if 0xD800 ≤ unit ∧ unit < 0xDC00 then
    { state.settle with half := some unit }
  else if 0xDC00 ≤ unit ∧ unit < 0xE000 then
    match state.half with
    | some first =>
        let code := 0x10000 + (first - 0xD800) * 1024 + (unit - 0xDC00)
        { state with reversed := Char.ofNat code :: state.reversed, half := none }
    | none => { state with unpaired := true }
  else
    state.push (Char.ofNat unit)

def finish (state : Draft) : Data :=
  let state := state.settle
  if state.unpaired then .unpairedText else .text (String.ofList state.reversed.reverse)

end Draft

def escaped? : Char → Option Char
  | '"' => some '"'
  | '\\' => some '\\'
  | '/' => some '/'
  | 'b' => some '\x08'
  | 'f' => some '\x0c'
  | 'n' => some '\n'
  | 'r' => some '\r'
  | 't' => some '\t'
  | _ => none

def readString (state : Draft) : List Char → Option (Data × List Char)
  | [] => none
  | '\\' :: 'u' :: a :: b :: c :: d :: rest =>
      match unit? a b c d with
      | some unit => readString (state.pushUnit unit) rest
      | none => none
  | '\\' :: character :: rest =>
      match escaped? character with
      | some meant => readString (state.push meant) rest
      | none => none
  | character :: rest =>
      if character = '"' then some (state.finish, rest)
      else if character.toNat < 32 ∨ character = '\\' then none
      else readString (state.push character) rest

def decimal (digits : List Char) : Nat :=
  digits.foldl (fun value digit => value * 10 + (digit.toNat - 48)) 0

def readDigits? (text : List Char) : Option (List Char × List Char) :=
  let digits := text.takeWhile Char.isDigit
  if digits.isEmpty then none else some (digits, text.dropWhile Char.isDigit)

def skipFraction? : List Char → Option (Bool × List Char)
  | '.' :: rest => (readDigits? rest).map fun (_, rest) => (true, rest)
  | rest => some (false, rest)

def skipExponent? : List Char → Option (Bool × List Char)
  | mark :: rest =>
      if mark = 'e' ∨ mark = 'E' then
        let digits :=
          match rest with
          | '+' :: digits => digits
          | '-' :: digits => digits
          | digits => digits
        (readDigits? digits).map fun (_, rest) => (true, rest)
      else
        some (false, mark :: rest)
  | [] => some (false, [])

/-- Read a number after its sign. Zero stands alone before the point, and minus zero is no whole
number. -/
def readNumber? (negative : Bool) (text : List Char) : Option (Data × List Char) := do
  let (digits, rest) ← readDigits? text
  if digits.head? = some '0' ∧ digits.length ≠ 1 then none
  let (pointed, rest) ← skipFraction? rest
  let (raised, rest) ← skipExponent? rest
  let value := decimal digits
  if pointed ∨ raised ∨ (negative ∧ value = 0) then
    return (.fraction, rest)
  else
    return (.signed (if negative then -(value : Int) else value), rest)

def readToken? (character : Char) (rest : List Char) : Option (Token × List Char) :=
  match character with
  | '[' => some (.openList, rest)
  | ']' => some (.closeList, rest)
  | '{' => some (.openMap, rest)
  | '}' => some (.closeMap, rest)
  | ',' => some (.comma, rest)
  | ':' => some (.colon, rest)
  | '"' => (readString {} rest).map fun (value, rest) => (.scalar value, rest)
  | '-' => (readNumber? true rest).map fun (value, rest) => (.scalar value, rest)
  | 'n' =>
      match rest with
      | 'u' :: 'l' :: 'l' :: rest => some (.scalar .null, rest)
      | _ => none
  | 't' =>
      match rest with
      | 'r' :: 'u' :: 'e' :: rest => some (.scalar (.bool true), rest)
      | _ => none
  | 'f' =>
      match rest with
      | 'a' :: 'l' :: 's' :: 'e' :: rest => some (.scalar (.bool false), rest)
      | _ => none
  | _ => (readNumber? false (character :: rest)).map fun (value, rest) => (.scalar value, rest)

def isBlank (character : Char) : Bool :=
  character == ' ' || character == '\n' || character == '\t' || character == '\r'

def tokens (reversed : List Token) : List Char → Option (List Token)
  | [] => some reversed.reverse
  | character :: rest =>
      if isBlank character then
        tokens reversed rest
      else
        match readToken? character rest with
        | none => none
        | some (token, rest') =>
            if rest'.length ≤ rest.length then tokens (token :: reversed) rest' else none
termination_by text => text.length

inductive Frame
  | list (items : List Data)
  | map (entries : List (Data × Data)) (key : Data)

inductive State
  | value (frames : List Frame)
  | firstItem (frames : List Frame)
  | firstKey (frames : List Frame)
  | key (entries : List (Data × Data)) (frames : List Frame)
  | colon (entries : List (Data × Data)) (key : Data) (frames : List Frame)
  | after (value : Data) (frames : List Frame)

namespace State

def begin (frames : List Frame) : Token → Option State
  | .openList => some (.firstItem frames)
  | .openMap => some (.firstKey frames)
  | .scalar item => some (.after item frames)
  | _ => none

def takeKey (entries : List (Data × Data)) (frames : List Frame) : Token → Option State
  | .scalar (.text name) => some (.colon entries (.text name) frames)
  | .scalar .unpairedText => some (.colon entries .unpairedText frames)
  | _ => none

def step : State → Token → Option State
  | .value frames, token => begin frames token
  | .firstItem frames, .closeList => some (.after (.list []) frames)
  | .firstItem frames, token => begin (.list [] :: frames) token
  | .firstKey frames, .closeMap => some (.after (.map []) frames)
  | .firstKey frames, token => takeKey [] frames token
  | .key entries frames, token => takeKey entries frames token
  | .colon entries name frames, .colon => some (.value (.map entries name :: frames))
  | .after item (.list items :: frames), .comma => some (.value (.list (item :: items) :: frames))
  | .after item (.list items :: frames), .closeList =>
      some (.after (.list (item :: items).reverse) frames)
  | .after item (.map entries name :: frames), .comma =>
      some (.key ((name, item) :: entries) frames)
  | .after item (.map entries name :: frames), .closeMap =>
      some (.after (.map ((name, item) :: entries).reverse) frames)
  | _, _ => none

def result? : State → Option Data
  | .after item [] => some item
  | _ => none

end State

def read (text : String) : Option Data := do
  let tokens ← tokens [] text.toList
  let state ← tokens.foldlM State.step (.value [])
  state.result?

def depth : Nat := 127

/-- What counts as a level: choices do, but data is skipped however deep it is. -/
def counting : Data.Counting :=
  { skipped := false, choices := true }

def readAs {α : Type} (read : Data.Reader α) (text : String) : Option α := do
  read counting depth (← Json.read text)

def escape (character : Char) : List Char :=
  match character with
  | '"' => ['\\', '"']
  | '\\' => ['\\', '\\']
  | '\x08' => ['\\', 'b']
  | '\x0c' => ['\\', 'f']
  | '\n' => ['\\', 'n']
  | '\r' => ['\\', 'r']
  | '\t' => ['\\', 't']
  | _ =>
      if character.toNat < 32 then
        ['\\', 'u', '0', '0', Nat.digitChar (character.toNat / 16),
          Nat.digitChar (character.toNat % 16)]
      else
        [character]

def quote (text : String) : String :=
  String.ofList ('"' :: text.toList.flatMap escape ++ ['"'])

def newLine (level : Nat) : String :=
  String.ofList ('\n' :: List.replicate (2 * level) ' ')

mutual

def printAt (level : Nat) : Data → String
  | .null => "null"
  | .bool value => if value then "true" else "false"
  | .unsigned value => toString value
  | .signed value => toString value
  | .fraction => "null"
  | .text value => quote value
  | .unpairedText => "null"
  | .extension => "null"
  | .bytes _ => "null"
  | .list [] => "[]"
  | .list items => "[" ++ printItems (level + 1) items ++ newLine level ++ "]"
  | .map [] => "\x7b\x7d"
  | .map entries => "\x7b" ++ printEntries (level + 1) entries ++ newLine level ++ "\x7d"

def printItems (level : Nat) : List Data → String
  | [] => ""
  | [item] => newLine level ++ printAt level item
  | item :: others => newLine level ++ printAt level item ++ "," ++ printItems level others

def printEntries (level : Nat) : List (Data × Data) → String
  | [] => ""
  | [(key, value)] => newLine level ++ printAt level key ++ ": " ++ printAt level value
  | (key, value) :: others =>
      newLine level ++ printAt level key ++ ": " ++ printAt level value ++ "," ++
        printEntries level others

end

def print (data : Data) : String :=
  printAt 0 data

end UrlRouting.Json
