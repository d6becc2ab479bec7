import UrlRouting.Regex.Basic
import UrlRouting.Regex.Spans

/-!
Matching. An expression stands for the stretches of a text that match it. All the operators of
expressions are operations on sets of stretches, so matching needs no search, and takes every part
of an expression once. What comes first decides which stretches are gone on with, so that an
expression that is bound to the start of the text follows stretches from there alone.
-/

namespace UrlRouting.Regex

/-- A text with its last character first, so that a place is known by the number of characters after
it. -/
structure Subject where
  reversed : Array Char

namespace Subject

def ofString (text : String) : Subject :=
  { reversed := text.toList.reverse.toArray }

def size (subject : Subject) : Nat :=
  subject.reversed.size

def before (subject : Subject) (place : Nat) : Option Char :=
  subject.reversed[place]?

def after (subject : Subject) : Nat → Option Char
  | 0 => none
  | place + 1 => subject.reversed[place]?

def single (subject : Subject) (test : Char → Bool) : Spans :=
  .ofRows subject.size fun place =>
    if (subject.after place).any test then [place - 1] else []

end Subject

mutual

def extend (subject : Subject) : Regex → Spans → Spans
  | empty, spans => spans
  | exactly character, spans => spans.followedBy (subject.single (· == character))
  | characters set, spans => spans.followedBy (subject.single set.contains)
  | look condition, spans =>
      spans.followedBy (.emptyAt subject.size fun place =>
        condition.holds (subject.before place) (subject.after place))
  | repetition inner least most, spans =>
      spans.followedByBetween subject.size (inner.extend subject (.empty subject.size)) least most
  | group _ inner, spans => inner.extend subject spans
  | concat items, spans => extendInRow subject items spans
  | alternation choices, spans => extendByAny subject choices spans

def extendInRow (subject : Subject) : List Regex → Spans → Spans
  | [], spans => spans
  | first :: others, spans => extendInRow subject others (first.extend subject spans)

def extendByAny (subject : Subject) : List Regex → Spans → Spans
  | [], _ => .emptyAt subject.size fun _ => false
  | first :: others, spans =>
      .either subject.size (first.extend subject spans) (extendByAny subject others spans)

end

def spans (regex : Regex) (subject : Subject) : Spans :=
  regex.extend subject (.empty subject.size)

def isMatch (regex : Regex) (text : String) : Bool :=
  !(regex.spans (Subject.ofString text)).isEmpty

end UrlRouting.Regex
