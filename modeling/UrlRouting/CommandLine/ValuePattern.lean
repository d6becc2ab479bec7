import UrlRouting.Regex.Reader

/-!
The patterns that a log filter sets for the values of fields. Only their form is checked here, as
nothing is logged. They share most of their form with the expressions of hosts, but classes may be
nested and combined, and characters count beyond ASCII, for which there are neither classes, cases
nor word boundaries: an expression that needs them must switch to ASCII first, where nothing may
reach beyond it. A value ends at a closing curly bracket, so there are no counted repetitions.
-/

namespace UrlRouting.CommandLine.ValuePattern

open Regex

def nestLimit : Nat := 250

def nesting : List Nat → Nat
  | [] => 0
  | [depth] => depth
  | depths => depths.foldl max 0 + 1

/-- Whether a character may stand for itself: cases are known in ASCII only. -/
def admitsCharacter (flags : Flags) : Bool :=
  !(flags.unicode && flags.ignoreCase)

def admitsClass (flags : Flags) (set : CharClass) : Bool :=
  !flags.unicode && set.ranges.all (·.last < 128)

def admitsCondition (flags : Flags) (condition : Look) : Bool :=
  !flags.unicode || condition == .textStart || condition == .textEnd

/-- Whether an escaped character may be used, given its form after the backslash. The short form of
a code stands for a byte in ASCII, and there are no bytes beyond it. -/
def admitsEscaped (flags : Flags) (form : List Char) (character : Char) : Bool :=
  admitsCharacter flags &&
    (flags.unicode || form.head? != some 'x' || character.toNat < 128)

def takeEscape? (flags : Flags) (text : List Char) : Option (Regex.Escape × List Char) := do
  let (escape, rest) ← Regex.takeEscape? flags text
  let admitted :=
    match escape with
    | .single character => admitsEscaped flags text character
    | .named set => admitsClass flags set
    | .condition condition => admitsCondition flags condition
  if admitted then return (escape, rest) else none

def takeClassAtom? (flags : Flags) : List Char → Option (Option Char × List Char)
  | [] => none
  | '\\' :: rest => do
      match ← takeEscape? flags rest with
      | (.single character, rest) =>
          if flags.unicode || character.toNat < 128 then return (some character, rest) else none
      | (.named _, rest) => return (none, rest)
      | (.condition _, _) => none
  | character :: rest =>
      if admitsCharacter flags && (flags.unicode || character.toNat < 128) then
        some (some character, rest)
      else
        none

def takeClassRange? (flags : Flags) (text : List Char) : Option (List Char) := do
  let (first, rest) ← takeClassAtom? flags text
  match skip flags rest with
  | [] => none
  | '-' :: after =>
      if peek flags after = some ']' ∨ peek flags after = some '-' then
        return '-' :: after
      else
        let (last, rest) ← takeClassAtom? flags (skip flags after)
        if (← first) ≤ (← last) then return rest else none
  | rest => return rest

/-- A bracketed class that is still open: how deep its items since the last operation are nested,
and how deep what stands before that operation is, if there was one. -/
structure OpenClass where
  items : List Nat := []
  left : Option Nat := none

namespace OpenClass

def push (opened : OpenClass) (depth : Nat) : OpenClass :=
  { opened with items := depth :: opened.items }

def depth (opened : OpenClass) : Nat :=
  match opened.left with
  | none => nesting opened.items
  | some left => max left (nesting opened.items) + 1

end OpenClass

/-- Take the beginning of a bracketed class, after its opening bracket. No complement stays within
ASCII. Hyphens at the beginning stand for themselves, and so does a closing bracket that comes
first. -/
def takeClassStart? (flags : Flags) (text : List Char) : Option (OpenClass × List Char) := do
  let (negated, rest) :=
    match skip flags text with
    | '^' :: rest => (true, skip flags rest)
    | rest => (false, rest)
  if negated && !flags.unicode then none
  let (hyphens, rest) := takeHyphens flags rest.length rest
  let (count, rest) :=
    match hyphens, rest with
    | [], ']' :: rest => (1, skip flags rest)
    | _, rest => (hyphens.length, rest)
  if 0 < count && !admitsCharacter flags then none
  return ({ items := List.replicate count 0 }, rest)

def takeClass? (flags : Flags) :
    Nat → OpenClass → List OpenClass → List Char → Option (Nat × List Char)
  | 0, _, _, _ => none
  | bound + 1, opened, outer, text =>
      match skip flags text with
      | [] => none
      | '[' :: rest =>
          match takeBracketedName? rest with
          | some (set, rest) =>
              if admitsCharacter flags && (flags.unicode || admitsClass flags set) then
                takeClass? flags bound (opened.push 0) outer rest
              else
                none
          | none => do
              let (inner, rest) ← takeClassStart? flags rest
              takeClass? flags bound inner (opened :: outer) rest
      | ']' :: rest =>
          match outer with
          | [] => some (opened.depth + 1, rest)
          | around :: outer => takeClass? flags bound (around.push (opened.depth + 1)) outer rest
      | character :: rest =>
          if (character = '&' ∨ character = '-' ∨ character = '~') ∧
              rest.head? = some character then
            takeClass? flags bound { left := some opened.depth } outer (rest.drop 1)
          else do
            let rest ← takeClassRange? flags (character :: rest)
            takeClass? flags bound (opened.push 0) outer rest

structure Item where
  depth : Nat
  repeatable : Bool

structure OpenGroup where
  choices : List Nat
  items : List Item
  flags : Flags

/-- Where the scan of a pattern stands: the nesting of the choices and items of the innermost open
group, the groups around it, the flags in force and the names given so far. -/
structure Scan where
  flags : Flags := {}
  names : List String := []
  groups : List OpenGroup := []
  choices : List Nat := []
  items : List Item := []

namespace Scan

def push (scan : Scan) (depth : Nat) : Scan :=
  { scan with items := { depth, repeatable := true } :: scan.items }

def pushIf (scan : Scan) (admitted : Bool) (rest : List Char) : Option (Scan × List Char) :=
  if admitted then some (scan.push 0, rest) else none

def depth (scan : Scan) : Nat :=
  nesting (nesting (scan.items.map (·.depth)) :: scan.choices)

def openGroup (scan : Scan) (flags : Flags) : Scan :=
  let opened : OpenGroup := { choices := scan.choices, items := scan.items, flags := scan.flags }
  { scan with flags, groups := opened :: scan.groups, choices := [], items := [] }

def closeGroup? (scan : Scan) : Option Scan :=
  match scan.groups with
  | [] => none
  | { choices, items, flags } :: groups =>
      some ({ scan with flags, groups, choices, items }.push (scan.depth + 1))

/-- Take what begins a group, after its parenthesis: a name, flags, or nothing. Flags without a
colon hold for the rest of the group around them and cannot be repeated. -/
def takeGroup? (scan : Scan) (text : List Char) : Option (Scan × List Char) := do
  let text := skip scan.flags text
  let named (text : List Char) : Option (Scan × List Char) := do
    let (name, rest) ← takeGroupName? text
    if name ∈ scan.names then none
    return ({ scan with names := name :: scan.names }.openGroup scan.flags, rest)
  match text with
  | '?' :: 'P' :: '<' :: rest => named rest
  | '?' :: '<' :: rest => named rest
  | '?' :: rest =>
      let (flags, after) ← takeFlags? scan.flags [] false rest
      match after with
      | ':' :: after => return (scan.openGroup flags, after)
      | ')' :: after =>
          if rest.head? = some ')' then none
          else
            let items := { depth := 0, repeatable := false } :: scan.items
            return ({ scan with flags, items }, after)
      | _ => none
  | _ => return (scan.openGroup scan.flags, text)

def repeatLast? (scan : Scan) (rest : List Char) : Option (Scan × List Char) :=
  match scan.items with
  | { depth, repeatable := true } :: items =>
      some ({ scan with items }.push (depth + 1), skipLazy rest)
  | _ => none

def step? (scan : Scan) (character : Char) (rest : List Char) : Option (Scan × List Char) :=
  match character with
  | '(' => scan.takeGroup? rest
  | ')' => scan.closeGroup?.map fun scan => (scan, rest)
  | '|' =>
      let choices := nesting (scan.items.map (·.depth)) :: scan.choices
      some ({ scan with choices, items := [] }, rest)
  | '[' => do
      let (opened, rest) ← takeClassStart? scan.flags rest
      let (depth, rest) ← takeClass? scan.flags (rest.length + 1) opened [] rest
      return (scan.push depth, rest)
  | '?' => scan.repeatLast? rest
  | '*' => scan.repeatLast? rest
  | '+' => scan.repeatLast? rest
  | '{' => none
  | '\\' => do
      let (_, rest) ← takeEscape? scan.flags rest
      return (scan.push 0, rest)
  | '.' => scan.pushIf scan.flags.unicode rest
  | '^' => some (scan.push 0, rest)
  | '$' => some (scan.push 0, rest)
  | _ => scan.pushIf (admitsCharacter scan.flags) rest

def completes (scan : Scan) (text : List Char) : Bool :=
  match skip scan.flags text with
  | [] => scan.groups.isEmpty && scan.depth ≤ nestLimit
  | character :: rest =>
      match scan.step? character rest with
      | none => false
      | some (scan, rest) =>
          if rest.length < text.length then completes scan rest else false
termination_by text.length

end Scan

def isPattern (text : List Char) : Bool :=
  Scan.completes {} text

def afterSome (test : Char → Bool) (text : List Char) : Option (List Char) :=
  if text.head?.any test then some (text.dropWhile test) else none

def isExponent : List Char → Bool
  | [] => true
  | mark :: '+' :: digits => mark.toLower == 'e' && afterSome Char.isDigit digits == some []
  | mark :: '-' :: digits => mark.toLower == 'e' && afterSome Char.isDigit digits == some []
  | mark :: digits => mark.toLower == 'e' && afterSome Char.isDigit digits == some []

def isUnsignedNumber (text : List Char) : Bool :=
  let name := String.ofList (text.map Char.toLower)
  name == "inf" || name == "infinity" || name == "nan" ||
    match text.dropWhile Char.isDigit with
    | '.' :: rest =>
        (text.head? != some '.' || rest.head?.any Char.isDigit) &&
          isExponent (rest.dropWhile Char.isDigit)
    | rest => text.head?.any Char.isDigit && isExponent rest

/-- Whether a text is set for values: a pattern, or a number with a plus sign, which is none. All
other numbers and truth values are patterns. -/
def isValue : List Char → Bool
  | '+' :: number => isUnsignedNumber number
  | text => isPattern text

end UrlRouting.CommandLine.ValuePattern
