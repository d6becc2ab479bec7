import UrlRouting.Regex.Weight
import UrlRouting.Text.Alphanumeric
import UrlRouting.Text.Blank
import UrlRouting.Text.Hex

/-!
Reading regular expressions. The reader goes through the text once and keeps the groups that are
still open. There are no look-around, no back references, no Unicode classes and no set operations;
an expression that uses them, or that is nested or repeated beyond measure, is refused.
-/

namespace UrlRouting.Regex

/-- What the letters of a flag group switch on. Greed has no influence on whether there is a match,
so it has no flag here. Characters beyond ASCII count even where they are switched off, unless an
expression is of a kind that minds. -/
structure Flags where
  ignoreCase : Bool := false
  multiLine : Bool := false
  dotMatchesLineEnd : Bool := false
  crlf : Bool := false
  ignoreBlanks : Bool := false
  unicode : Bool := true

namespace Flags

def switch? (flags : Flags) (enabled : Bool) : Char → Option Flags
  | 'i' => some { flags with ignoreCase := enabled }
  | 'm' => some { flags with multiLine := enabled }
  | 's' => some { flags with dotMatchesLineEnd := enabled }
  | 'R' => some { flags with crlf := enabled }
  | 'x' => some { flags with ignoreBlanks := enabled }
  | 'U' => some flags
  | 'u' => some { flags with unicode := enabled }
  | _ => none

end Flags

def skipComments (inComment : Bool) : List Char → List Char
  | [] => []
  | character :: rest =>
      if inComment then skipComments (character != '\n') rest
      else if Text.isBlank character then skipComments false rest
      else if character = '#' then skipComments true rest
      else character :: rest

def skip (flags : Flags) (text : List Char) : List Char :=
  if flags.ignoreBlanks then skipComments false text else text

def literal (flags : Flags) (expected : Char) : Regex :=
  if flags.ignoreCase && expected.isAlpha then
    .characters (CharClass.single expected).ignoringCase
  else
    .exactly expected

def anyCharacter (flags : Flags) : Regex :=
  let excluded :=
    if flags.dotMatchesLineEnd then []
    else if flags.crlf then [CodeRange.single '\n', CodeRange.single '\r']
    else [CodeRange.single '\n']
  .characters (CharClass.ofRanges excluded).complement

def caret (flags : Flags) : Look :=
  if !flags.multiLine then .textStart
  else if flags.crlf then .lineStartCrlf
  else .lineStart

def dollar (flags : Flags) : Look :=
  if !flags.multiLine then .textEnd
  else if flags.crlf then .lineEndCrlf
  else .lineEnd

def character? (code : Nat) : Option Char :=
  if code.isValidChar then some (Char.ofNat code) else none

def takeHexDigits? (flags : Flags) (value : Nat) : Nat → List Char → Option (Nat × List Char)
  | 0, text => some (value, text)
  | count + 1, text =>
      match text with
      | [] => none
      | digit :: rest => do
          takeHexDigits? flags (value * 16 + (← Text.hexValue? digit)) count (skip flags rest)

def takeHexBraced? (flags : Flags) : Nat → Option Nat → List Char → Option (Nat × List Char)
  | 0, _, _ => none
  | _ + 1, _, [] => none
  | bound + 1, value, digit :: rest =>
      if digit = '}' then
        value.map fun value => (value, skip flags rest)
      else do
        takeHexBraced? flags bound (some (value.getD 0 * 16 + (← Text.hexValue? digit)))
          (skip flags rest)

def takeCode? (flags : Flags) (digits : Nat) (text : List Char) : Option (Char × List Char) := do
  let (code, rest) ←
    match skip flags text with
    | '{' :: rest => takeHexBraced? flags (rest.length + 1) none (skip flags rest)
    | text => takeHexDigits? flags 0 digits text
  return (← character? code, rest)

def namedClass? : Char → Option CharClass
  | 'd' => some (.ofAscii .digit false)
  | 'D' => some (.ofAscii .digit true)
  | 's' => some (.ofAscii .space false)
  | 'S' => some (.ofAscii .space true)
  | 'w' => some (.ofAscii .word false)
  | 'W' => some (.ofAscii .word true)
  | _ => none

def codeDigits? : Char → Option Nat
  | 'x' => some 2
  | 'u' => some 4
  | 'U' => some 8
  | _ => none

def control? : Char → Option Char
  | 'a' => some '\x07'
  | 'f' => some '\x0c'
  | 't' => some '\t'
  | 'n' => some '\n'
  | 'r' => some '\r'
  | 'v' => some '\x0b'
  | _ => none

def look? : Char → Option Look
  | 'A' => some .textStart
  | 'z' => some .textEnd
  | 'b' => some .wordBoundary
  | 'B' => some .noWordBoundary
  | '<' => some .wordStart
  | '>' => some .wordEnd
  | _ => none

def boundary? : String → Option Look
  | "start" => some .wordStart
  | "end" => some .wordEnd
  | "start-half" => some .wordStartHalf
  | "end-half" => some .wordEndHalf
  | _ => none

def inBoundaryName (character : Char) : Bool :=
  character.isAlpha || character == '-'

def takeSkipping (flags : Flags) (test : Char → Bool) :
    Nat → List Char → List Char × List Char
  | bound + 1, character :: rest =>
      if test character then
        let (taken, rest) := takeSkipping flags test bound (skip flags rest)
        (character :: taken, rest)
      else
        ([], character :: rest)
  | _, rest => ([], rest)

def takeBoundary? (flags : Flags) (text : List Char) : Option (Option Look × List Char) :=
  match text with
  | '{' :: rest =>
      match skip flags rest with
      | [] => none
      | first :: others =>
          if inBoundaryName first then
            match takeSkipping flags inBoundaryName (others.length + 1) (first :: others) with
            | (name, '}' :: rest) =>
                (boundary? (String.ofList name)).map fun boundary => (some boundary, rest)
            | _ => none
          else
            some (none, text)
  | _ => some (none, text)

/-- Whether a backslash before an ASCII character makes it stand for itself. Letters, digits and
angle brackets are kept for other meanings. -/
def isEscapable (character : Char) : Bool :=
  character.toNat < 128 && !character.isAlphanum && character != '<' && character != '>'

inductive Escape
  | single (character : Char)
  | named (set : CharClass)
  | condition (look : Look)

def takeEscape? (flags : Flags) : List Char → Option (Escape × List Char)
  | [] => none
  | character :: rest =>
      match namedClass? character, codeDigits? character, control? character, look? character with
      | some set, _, _, _ => some (.named set, rest)
      | _, some digits, _, _ =>
          (takeCode? flags digits rest).map fun (meant, rest) => (.single meant, rest)
      | _, _, some meant, _ => some (.single meant, rest)
      | _, _, _, some condition =>
          if character = 'b' then
            (takeBoundary? flags rest).map fun (boundary, rest) =>
              (.condition (boundary.getD condition), rest)
          else
            some (.condition condition, rest)
      | none, none, none, none =>
          if isEscapable character then some (.single character, rest) else none

def Escape.regex (flags : Flags) : Escape → Regex
  | single character => literal flags character
  | named set => .characters set
  | condition place => .look place

/-- One item within a bracketed class: some characters, and whether they can begin or end a range.
-/
structure ClassAtom where
  ranges : List CodeRange
  bound : Option Char

def ClassAtom.single (character : Char) : ClassAtom :=
  { ranges := [.single character], bound := some character }

def ClassAtom.ofClass (set : CharClass) : ClassAtom :=
  { ranges := set.ranges, bound := none }

/-- Take one item within a bracketed class. A condition has no place there; an escaped letter stands
for both its cases if case is ignored, and so bounds no range. -/
def takeClassAtom? (flags : Flags) : List Char → Option (ClassAtom × List Char)
  | [] => none
  | '\\' :: rest => do
      let (escape, rest) ← takeEscape? flags rest
      match escape.regex flags with
      | .exactly character => return (.single character, rest)
      | .characters set => return (.ofClass set, rest)
      | _ => none
  | character :: rest => some (.single character, rest)

def peek (flags : Flags) (rest : List Char) : Option Char :=
  if flags.ignoreBlanks then
    match rest.dropWhile Text.isBlank with
    | '#' :: others => (others.dropWhile Text.isBlank).head?
    | others => others.head?
  else
    rest.head?

def takeBracketedName? : List Char → Option (CharClass × List Char)
  | ':' :: rest =>
      let (negated, rest) :=
        match rest with
        | '^' :: rest => (true, rest)
        | rest => (false, rest)
      let name := rest.takeWhile (· != ':')
      match rest.dropWhile (· != ':') with
      | ':' :: ']' :: rest =>
          (AsciiClass.ofName? (String.ofList name)).map fun kind => (.ofAscii kind negated, rest)
      | _ => none
  | _ => none

def takeClassRange? (flags : Flags) (text : List Char) :
    Option (List CodeRange × List Char) := do
  let (first, rest) ← takeClassAtom? flags text
  match skip flags rest with
  | [] => none
  | '-' :: after =>
      if peek flags after = some ']' ∨ peek flags after = some '-' then
        return (first.ranges, '-' :: after)
      else
        match skip flags after with
        | [] => none
        | text =>
            let (last, rest) ← takeClassAtom? flags text
            let range ← CodeRange.between? (← first.bound).toNat (← last.bound).toNat
            return ([range], rest)
  | rest => return (first.ranges, rest)

def takeClassItems? (flags : Flags) (items : List CodeRange) :
    Nat → List Char → Option (List CodeRange × List Char)
  | 0, _ => none
  | bound + 1, text =>
      match skip flags text with
      | [] => none
      | ']' :: rest => some (items, rest)
      | '[' :: rest => do
          let (set, rest) ← takeBracketedName? rest
          takeClassItems? flags (items ++ set.ranges) bound rest
      | character :: rest => do
          if (character = '&' ∨ character = '-' ∨ character = '~') ∧
              rest.head? = some character then
            none
          let (ranges, rest) ← takeClassRange? flags (character :: rest)
          takeClassItems? flags (items ++ ranges) bound rest

def takeHyphens (flags : Flags) : Nat → List Char → List CodeRange × List Char
  | bound + 1, '-' :: rest =>
      let (items, rest) := takeHyphens flags bound (skip flags rest)
      (.single '-' :: items, rest)
  | _, rest => ([], rest)

def takeClass? (flags : Flags) (text : List Char) : Option (Regex × List Char) := do
  let (negated, rest) :=
    match skip flags text with
    | '^' :: rest => (true, skip flags rest)
    | rest => (false, rest)
  let (hyphens, rest) := takeHyphens flags rest.length rest
  let (first, rest) :=
    match hyphens, rest with
    | [], ']' :: rest => ([CodeRange.single ']'], skip flags rest)
    | _, rest => (hyphens, rest)
  let (items, rest) ← takeClassItems? flags first (rest.length + 1) rest
  let set := CharClass.ofRanges items
  let set := if flags.ignoreCase then set.ignoringCase else set
  return (.characters (if negated then set.complement else set), rest)

def takeCount? (flags : Flags) (text : List Char) : Option (Nat × List Char) :=
  let text := text.dropWhile Text.isBlank
  let (digits, rest) := takeSkipping flags Char.isDigit text.length text
  let value := digits.foldl (fun value digit => value * 10 + (digit.toNat - 48)) 0
  if digits.isEmpty ∨ UInt32.size ≤ value then none
  else some (value, skip flags (rest.dropWhile Text.isBlank))

def skipLazy : List Char → List Char
  | '?' :: rest => rest
  | rest => rest

def takeCounts? (flags : Flags) (text : List Char) :
    Option (Nat × Option Nat × List Char) := do
  let (least, rest) ← takeCount? flags (skip flags text)
  let (most, rest) ←
    match rest with
    | ',' :: rest =>
        match skip flags rest with
        | '}' :: rest => some (none, '}' :: rest)
        | rest => (takeCount? flags rest).map fun (most, rest) => (some most, rest)
    | rest => some (some least, rest)
  match rest with
  | '}' :: rest =>
      if most.any (· < least) then none
      else return (least, most, skipLazy (skip flags rest))
  | _ => none

/-- Take the letters of a flag group up to the colon or parenthesis after them. A letter must not
occur twice, a hyphen switches the letters after it off. -/
def takeFlags? (flags : Flags) (seen : List Char) (negated : Bool) :
    List Char → Option (Flags × List Char)
  | [] => none
  | character :: rest =>
      if character = ':' ∨ character = ')' then
        if seen.head? = some '-' then none else some (flags, character :: rest)
      else if character ∈ seen then none
      else if character = '-' then takeFlags? flags (character :: seen) true rest
      else do takeFlags? (← flags.switch? (!negated) character) (character :: seen) negated rest

/-- Take the name of a group and the bracket after it. A name begins with a letter or an underscore
and goes on with letters, numbers and a few marks. -/
def takeGroupName? (text : List Char) : Option (String × List Char) :=
  let name := text.takeWhile (· != '>')
  match name, text.dropWhile (· != '>') with
  | first :: others, '>' :: rest =>
      if (first == '_' || Text.isAlphabetic first) &&
          others.all fun character =>
            "_.[]".toList.contains character || Text.isAlphanumeric character then
        some (String.ofList name, rest)
      else
        none
  | _, _ => none

structure OpenGroup where
  choices : List Regex
  items : List Regex
  flags : Flags
  capture : Option Capture

/-- Where the reader stands: the choices and items of the innermost open group in reverse, the
groups around it, the flags in force, the names given so far, and how many groups capture. -/
structure Reader where
  flags : Flags := {}
  names : List String := []
  captures : Nat := 0
  groups : List OpenGroup := []
  choices : List Regex := []
  items : List Regex := []

def nestLimit : Nat := 50

def weightLimit : Nat := 10 * 1024 * 1024

namespace Reader

def push (reader : Reader) (item : Regex) : Reader :=
  { reader with items := item :: reader.items }

def content (reader : Reader) : Regex :=
  ofChoices (ofItems reader.items.reverse :: reader.choices).reverse

def openGroup? (reader : Reader) (flags : Flags) (capture : Option Capture) : Option Reader :=
  if reader.groups.length < nestLimit then
    let opened : OpenGroup :=
      { choices := reader.choices, items := reader.items, flags := reader.flags, capture }
    some { reader with flags, groups := opened :: reader.groups, choices := [], items := [] }
  else
    none

def openCapture? (reader : Reader) (name : Option String) : Option Reader :=
  let number := reader.captures + 1
  { reader with captures := number }.openGroup? reader.flags (some { number, name })

def closeGroup? (reader : Reader) : Option Reader :=
  match reader.groups with
  | [] => none
  | opened :: groups =>
      let content := reader.content
      let item :=
        match opened.capture with
        | some capture => Regex.group capture content
        | none => content
      some { reader with
        flags := opened.flags, groups, choices := opened.choices, items := item :: opened.items }

def repeatLast? (reader : Reader) (least : Nat) (most : Option Nat) : Option Reader :=
  match reader.items with
  | [] => none
  | last :: items => some { reader with items := last.repeated least most :: items }

/-- Take what begins a group, after its parenthesis: a name, flags, or nothing. Flags without a
colon hold for the rest of the group around them. -/
def takeGroup? (reader : Reader) (text : List Char) : Option (Reader × List Char) := do
  let text := skip reader.flags text
  let named (text : List Char) : Option (Reader × List Char) := do
    let (name, rest) ← takeGroupName? text
    if name ∈ reader.names then none
    return (← { reader with names := name :: reader.names }.openCapture? (some name), rest)
  match text with
  | '?' :: '=' :: _ => none
  | '?' :: '!' :: _ => none
  | '?' :: '<' :: '=' :: _ => none
  | '?' :: '<' :: '!' :: _ => none
  | '?' :: 'P' :: '<' :: rest => named rest
  | '?' :: '<' :: rest => named rest
  | '?' :: rest =>
      let (flags, after) ← takeFlags? reader.flags [] false rest
      match after with
      | ':' :: after => return (← reader.openGroup? flags none, after)
      | ')' :: after =>
          if rest.head? = some ')' then none else return ({ reader with flags }, after)
      | _ => none
  | _ => return (← reader.openCapture? none, text)

def step? (reader : Reader) (character : Char) (rest : List Char) :
    Option (Reader × List Char) :=
  let flags := reader.flags
  match character with
  | '(' => reader.takeGroup? rest
  | ')' => reader.closeGroup?.map fun reader => (reader, rest)
  | '|' =>
      let choices := ofItems reader.items.reverse :: reader.choices
      some ({ reader with choices, items := [] }, rest)
  | '[' => (takeClass? flags rest).map fun (item, rest) => (reader.push item, rest)
  | '?' => (reader.repeatLast? 0 (some 1)).map fun reader => (reader, skipLazy rest)
  | '*' => (reader.repeatLast? 0 none).map fun reader => (reader, skipLazy rest)
  | '+' => (reader.repeatLast? 1 none).map fun reader => (reader, skipLazy rest)
  | '{' => do
      let (least, most, rest) ← takeCounts? flags rest
      return (← reader.repeatLast? least most, rest)
  | '\\' =>
      (takeEscape? flags rest).map fun (escape, rest) => (reader.push (escape.regex flags), rest)
  | '.' => some (reader.push (anyCharacter flags), rest)
  | '^' => some (reader.push (.look (caret flags)), rest)
  | '$' => some (reader.push (.look (dollar flags)), rest)
  | _ => some (reader.push (literal flags character), rest)

def finish? (reader : Reader) : Option Regex :=
  let regex := reader.content
  if reader.groups.isEmpty ∧ regex.height ≤ nestLimit ∧ regex.weight ≤ weightLimit then
    some regex
  else
    none

def run? (reader : Reader) (text : List Char) : Option Regex :=
  match skip reader.flags text with
  | [] => reader.finish?
  | character :: rest =>
      match reader.step? character rest with
      | none => none
      | some (reader, rest) =>
          if rest.length < text.length then run? reader rest else none
termination_by text.length

end Reader

def read? (text : String) : Option Regex :=
  Reader.run? {} text.toList

end UrlRouting.Regex
