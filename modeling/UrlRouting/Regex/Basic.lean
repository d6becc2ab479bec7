import UrlRouting.Regex.CharClass

/-!
Regular expressions without captures that can be asked for: an expression says which stretches of a
text match. Character classes and word boundaries know ASCII only.
-/

namespace UrlRouting

namespace Regex

inductive Look
  | textStart
  | textEnd
  | lineStart
  | lineEnd
  /-- The beginning of a line ended by carriage returns, line feeds or both together. -/
  | lineStartCrlf
  | lineEndCrlf
  | wordBoundary
  | noWordBoundary
  | wordStart
  | wordEnd
  | wordStartHalf
  | wordEndHalf
  deriving DecidableEq

namespace Look

def isWord (character : Option Char) : Bool :=
  character.any AsciiClass.word.contains

def holds (look : Look) (before after : Option Char) : Bool :=
  match look with
  | textStart => before.isNone
  | textEnd => after.isNone
  | lineStart => before.isNone || before == some '\n'
  | lineEnd => after.isNone || after == some '\n'
  | lineStartCrlf =>
      before.isNone || before == some '\n' || (before == some '\r' && after != some '\n')
  | lineEndCrlf =>
      after.isNone || after == some '\r' || (after == some '\n' && before != some '\r')
  | wordBoundary => isWord before != isWord after
  | noWordBoundary => isWord before == isWord after
  | wordStart => !isWord before && isWord after
  | wordEnd => isWord before && !isWord after
  | wordStartHalf => !isWord before
  | wordEndHalf => !isWord after

end Look

/-- A capturing group, by its number in the order of their opening brackets, from one on. -/
structure Capture where
  number : Nat
  name : Option String
  deriving DecidableEq

end Regex

inductive Regex
  | empty
  | exactly (character : Char)
  | characters (set : Regex.CharClass)
  | look (condition : Regex.Look)
  | repetition (inner : Regex) (least : Nat) (most : Option Nat)
  | group (capture : Regex.Capture) (inner : Regex)
  | concat (items : List Regex)
  | alternation (choices : List Regex)
  deriving Inhabited

namespace Regex

def ofItems : List Regex → Regex
  | [] => empty
  | [item] => item
  | items => concat items

def ofChoices : List Regex → Regex
  | [choice] => choice
  | choices => alternation choices

def repeated (inner : Regex) : Nat → Option Nat → Regex
  | 0, some 0 => empty
  | 1, some 1 => inner
  | least, most => repetition inner least most

mutual

def height : Regex → Nat
  | empty => 0
  | exactly _ => 0
  | characters _ => 0
  | look _ => 0
  | repetition inner _ _ => inner.height + 1
  | group _ inner => inner.height + 1
  | concat items => heightOfAll items
  | alternation choices => heightOfAll choices

def heightOfAll : List Regex → Nat
  | [] => 0
  | first :: others => max (first.height + 1) (heightOfAll others)

end

end Regex

end UrlRouting
