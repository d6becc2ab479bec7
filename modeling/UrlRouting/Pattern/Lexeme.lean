import UrlRouting.Pattern.Basic
import UrlRouting.Text.Blank
import UrlRouting.Text.Fields
import UrlRouting.Text.Name

/-!
Pattern texts cut into lexemes. A variable is written `{name}` or `{name:regex}`, with a quantifier
after the name if wanted, or `:name` with a quantifier; brackets begin and end a group. Whatever
does not read as a variable is literal text, braces and colons included, so every text can be cut.
-/

namespace UrlRouting.Pattern

def skipBlanks (text : List Char) : List Char :=
  text.dropWhile Text.isAsciiBlank

def takeQuantifier : List Char → Quantifier × List Char
  | '?' :: rest => (.optional, rest)
  | '*' :: rest => (.zeroOrMore, rest)
  | '+' :: rest => (.oneOrMore, rest)
  | rest => (.one, rest)

/-- Take the text before the brace that closes the variable, and that brace. Braces within must be
balanced; `depth` of them are open. -/
def takeRegex? (depth : Nat) : List Char → Option (List Char × List Char)
  | [] => none
  | '{' :: rest =>
      (takeRegex? (depth + 1) rest).map fun (regex, rest) => ('{' :: regex, rest)
  | '}' :: rest =>
      match depth with
      | 0 => some ([], rest)
      | depth + 1 => (takeRegex? depth rest).map fun (regex, rest) => ('}' :: regex, rest)
  | character :: rest =>
      (takeRegex? depth rest).map fun (regex, rest) => (character :: regex, rest)

/-- Take the end of a variable in braces: a regular expression after a colon, if there is one, and
the closing brace. White space around the expression does not belong to it. -/
def takeBracedEnd? : List Char → Option (List Char × List Char)
  | ':' :: rest =>
      (takeRegex? 0 (skipBlanks rest)).map fun (regex, rest) =>
        (Text.trimEnd Text.isBlank regex, rest)
  | '}' :: rest => some ([], rest)
  | _ => none

def takeBraced? (text : List Char) : Option (Variable × List Char) := do
  let (name, rest) ← Text.takeName? Text.continuesBracedName (skipBlanks text)
  let (quantifier, rest) := takeQuantifier (skipBlanks rest)
  let (regex, rest) ← takeBracedEnd? (skipBlanks rest)
  return (.make name regex quantifier, rest)

def takeBare? (text : List Char) : Option (Variable × List Char) := do
  let (name, rest) ← Text.takeName? Text.continuesName text
  let (quantifier, rest) := takeQuantifier rest
  return (.make name [] quantifier, rest)

def takeVariable? (first : Char) (rest : List Char) : Option (Variable × List Char) :=
  if first = '{' then takeBraced? rest
  else if first = ':' then takeBare? rest
  else none

theorem length_takeQuantifier_le (text : List Char) :
    (takeQuantifier text).2.length ≤ text.length := by
  unfold takeQuantifier
  split <;> simp

theorem length_of_takeRegex? {depth : Nat} {text regex rest : List Char}
    (taken : takeRegex? depth text = some (regex, rest)) : rest.length < text.length := by
  fun_induction takeRegex? depth text generalizing regex rest with
  | case1 => simp at taken
  | case2 depth others induction =>
      obtain ⟨⟨_, _⟩, inner, equal⟩ := Option.map_eq_some_iff.mp taken
      simp only [Prod.mk.injEq] at equal
      obtain ⟨-, rfl⟩ := equal
      exact Nat.lt_succ_of_lt (induction inner)
  | case3 others =>
      simp only [Option.some.injEq, Prod.mk.injEq] at taken
      obtain ⟨-, rfl⟩ := taken
      exact Nat.lt_succ_self _
  | case4 others depth induction =>
      obtain ⟨⟨_, _⟩, inner, equal⟩ := Option.map_eq_some_iff.mp taken
      simp only [Prod.mk.injEq] at equal
      obtain ⟨-, rfl⟩ := equal
      exact Nat.lt_succ_of_lt (induction inner)
  | case5 depth character others _ _ induction =>
      obtain ⟨⟨_, _⟩, inner, equal⟩ := Option.map_eq_some_iff.mp taken
      simp only [Prod.mk.injEq] at equal
      obtain ⟨-, rfl⟩ := equal
      exact Nat.lt_succ_of_lt (induction inner)

theorem length_of_takeBracedEnd? {text regex rest : List Char}
    (taken : takeBracedEnd? text = some (regex, rest)) : rest.length < text.length := by
  unfold takeBracedEnd? at taken
  split at taken
  case h_1 others =>
    obtain ⟨⟨_, _⟩, inner, equal⟩ := Option.map_eq_some_iff.mp taken
    simp only [Prod.mk.injEq] at equal
    obtain ⟨-, rfl⟩ := equal
    have shorter := length_of_takeRegex? inner
    have skipped := Text.length_dropWhile_le Text.isAsciiBlank others
    simp only [skipBlanks] at shorter
    simp only [List.length_cons]
    omega
  case h_2 =>
    simp only [Option.some.injEq, Prod.mk.injEq] at taken
    obtain ⟨-, rfl⟩ := taken
    simp
  case h_3 => simp at taken

theorem length_of_takeVariable? {first : Char} {text rest : List Char} {parameter : Variable}
    (taken : takeVariable? first text = some (parameter, rest)) :
    rest.length ≤ text.length := by
  unfold takeVariable? at taken
  split at taken
  · simp only [takeBraced?, Option.bind_eq_bind, Option.pure_def, Option.bind_eq_some_iff,
      Option.some.injEq, Prod.mk.injEq] at taken
    obtain ⟨⟨name, afterName⟩, named, ⟨regex, others⟩, ended, -, rfl⟩ := taken
    have shorterName := Text.length_of_takeName? named
    have shorterEnd := length_of_takeBracedEnd? ended
    have first := Text.length_dropWhile_le Text.isAsciiBlank text
    have second := Text.length_dropWhile_le Text.isAsciiBlank afterName
    have third := length_takeQuantifier_le (skipBlanks afterName)
    have fourth := Text.length_dropWhile_le Text.isAsciiBlank
      (takeQuantifier (skipBlanks afterName)).2
    simp only [skipBlanks] at *
    omega
  · split at taken
    · simp only [takeBare?, Option.bind_eq_bind, Option.pure_def, Option.bind_eq_some_iff,
        Option.some.injEq, Prod.mk.injEq] at taken
      obtain ⟨⟨name, afterName⟩, named, -, rfl⟩ := taken
      have shorter := Text.length_of_takeName? named
      exact Nat.le_trans (length_takeQuantifier_le afterName) (Nat.le_of_lt shorter)
    · simp at taken

inductive Lexeme
  | opening
  | closing
  | literal (text : List Char)
  | placeholder (parameter : Variable)
  deriving DecidableEq

def addCharacter (character : Char) : List Lexeme → List Lexeme
  | .literal text :: rest => .literal (character :: text) :: rest
  | rest => .literal [character] :: rest

/-- The lexemes of a text. Brackets mean groups only where groups are wanted. -/
def lexemes (groups : Bool) : List Char → List Lexeme
  | [] => []
  | character :: rest =>
      if groups && character == '[' then .opening :: lexemes groups rest
      else if groups && character == ']' then .closing :: lexemes groups rest
      else
        match _taken : takeVariable? character rest with
        | some (parameter, others) => .placeholder parameter :: lexemes groups others
        | none => addCharacter character (lexemes groups rest)
termination_by text => text.length
decreasing_by
  · exact Nat.lt_succ_self _
  · exact Nat.lt_succ_self _
  · exact Nat.lt_succ_of_le (length_of_takeVariable? _taken)
  · exact Nat.lt_succ_self _

namespace Lexeme

def token? : Lexeme → Option Token
  | opening => none
  | closing => none
  | literal text => some (.literal (String.ofList text))
  | placeholder parameter => some (.placeholder parameter)

end Lexeme

def tokenize (text : String) : List Token :=
  (lexemes false text.toList).filterMap Lexeme.token?

def hasVariables (text : String) : Bool :=
  (tokenize text).any fun token => token.parameter?.isSome

end UrlRouting.Pattern
