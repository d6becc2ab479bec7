import UrlRouting.Pattern.Lexeme
import UrlRouting.Table

/-!
Patterns compiled to their variants. Brackets nest lexemes into groups; each way of taking and
leaving out groups, where an inner group can be taken only with the one around it, gives a variant.
The variants are listed so that those with more groups come first: first the one with all groups,
last the one with none. Results are remembered by pattern text.
-/

namespace UrlRouting.Pattern

/-- Nest lexemes into parts, given the parts before them in the open groups, the innermost group
first and each in reverse. Nothing results if the brackets do not match. -/
def nest? (outer : List (List Part)) (inner : List Part) : List Lexeme → Option (List Part)
  | [] => if outer.isEmpty then some inner.reverse else none
  | .opening :: rest => nest? (inner :: outer) [] rest
  | .closing :: rest =>
      match outer with
      | [] => none
      | parts :: outer => nest? outer (.optional inner.reverse :: parts) rest
  | .literal text :: rest => nest? outer (.token (.literal (String.ofList text)) :: inner) rest
  | .placeholder parameter :: rest => nest? outer (.ofVariable parameter :: inner) rest

def parts (pattern : String) : Except ConfigError (List Part) :=
  match nest? [] [] (lexemes true pattern.toList) with
  | some parts => .ok parts
  | none => .error (.unmatchedBrackets pattern)

/-- The token sequences of parts, each group left out before it is taken, earlier groups deciding
the order before later ones. -/
def expand : List Part → List (List Token)
  | [] => [[]]
  | .token token :: rest => (expand rest).map (token :: ·)
  | .optional inner :: rest =>
      ([] :: expand inner).flatMap fun choice => (expand rest).map (choice ++ ·)

def compile (pattern : String) : Except ConfigError (List Variant) := do
  return ((expand (← parts pattern)).map Variant.ofTokens).reverse

structure Memo where
  compiled : Table (List Variant)

namespace Memo

def empty : Memo := { compiled := .empty }

def size (memo : Memo) : Nat :=
  memo.compiled.size

/-- The variants of a pattern, remembered from an earlier time or compiled now. A pattern that
cannot be compiled is not remembered. -/
def variants (memo : Memo) (pattern : String) : Except ConfigError (List Variant) × Memo :=
  match memo.compiled.get? pattern with
  | some variants => (.ok variants, memo)
  | none =>
      match compile pattern with
      | .ok variants => (.ok variants, { compiled := memo.compiled.set pattern variants })
      | .error error => (.error error, memo)

end Memo

end UrlRouting.Pattern
