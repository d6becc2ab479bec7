import Mathlib.Data.List.Chain
import Mathlib.Data.List.TakeWhile
import UrlRouting.Pattern.Lexeme
import UrlRouting.Template

/-!
What the lexemes of a pattern are like. The variables have proper names, so each reads as a capture
when it stands in a template; literal text holds no colon that would begin a capture, unless groups
put two literals together.
-/

namespace UrlRouting

namespace Pattern

def Variable.Named (parameter : Variable) : Prop :=
  ∃ first rest, parameter.name.toList = first :: rest ∧ Text.startsName first = true ∧
    ∀ character ∈ rest, Text.continuesBracedName character = true

/-- Whether no colon stands before a character that may begin a name. -/
def CaptureFree (text : List Char) : Prop :=
  ∀ before character after, text = before ++ ':' :: character :: after →
    Text.startsName character = false

theorem captureFree_cons {character : Char} {rest : List Char} (free : CaptureFree rest)
    (next : character = ':' → ∀ second, rest.head? = some second →
      Text.startsName second = false) : CaptureFree (character :: rest) := by
  intro before second after equal
  cases before with
  | nil =>
      rcases List.cons.inj equal with ⟨colon, others⟩
      exact next colon second (by rw [others]; rfl)
  | cons head before =>
      rcases List.cons.inj equal with ⟨-, others⟩
      exact free before second after others

theorem continuesBracedName_of_continuesName {character : Char}
    (continues : Text.continuesName character = true) :
    Text.continuesBracedName character = true := by
  rw [Text.continuesBracedName, continues, Bool.true_or]

theorem named_of_takeName? {continues : Char → Bool} {text name rest : List Char}
    (braced : ∀ character, continues character = true →
      Text.continuesBracedName character = true)
    (taken : Text.takeName? continues text = some (name, rest)) (regex : List Char)
    (quantifier : Quantifier) : (Variable.make name regex quantifier).Named := by
  cases text with
  | nil => cases taken
  | cons first others =>
      rw [Text.takeName?] at taken
      split at taken
      case isFalse => cases taken
      case isTrue starts =>
        cases taken
        refine ⟨first, others.takeWhile continues, String.toList_ofList, starts, ?_⟩
        intro character member
        exact braced character (List.mem_takeWhile_imp member)

theorem named_of_takeVariable? {first : Char} {text rest : List Char} {parameter : Variable}
    (taken : takeVariable? first text = some (parameter, rest)) : parameter.Named := by
  rw [takeVariable?] at taken
  split at taken
  · simp only [takeBraced?, Option.bind_eq_bind, Option.pure_def, Option.bind_eq_some_iff,
      Option.some.injEq, Prod.mk.injEq] at taken
    rcases taken with ⟨⟨name, afterName⟩, named, ⟨regex, others⟩, -, rfl, -⟩
    exact named_of_takeName? (fun _ braced => braced) named _ _
  · split at taken
    · simp only [takeBare?, Option.bind_eq_bind, Option.pure_def, Option.bind_eq_some_iff,
        Option.some.injEq, Prod.mk.injEq] at taken
      rcases taken with ⟨⟨name, afterName⟩, named, rfl, -⟩
      exact named_of_takeName? (fun _ => continuesBracedName_of_continuesName) named _ _
    · cases taken

theorem startsName_of_takeVariable?_eq_none {rest : List Char}
    (refused : takeVariable? ':' rest = none) {second : Char}
    (head : rest.head? = some second) : Text.startsName second = false := by
  cases rest with
  | nil => cases head
  | cons character others =>
      cases head
      rw [takeVariable?, if_neg (by decide), if_pos rfl, takeBare?, Text.takeName?] at refused
      cases starts : Text.startsName second with
      | false => rfl
      | true =>
          rw [starts] at refused
          cases refused

/-! ### Lexemes -/

theorem placeholder_mem_addCharacter_iff {character : Char} {lexemes : List Lexeme}
    {parameter : Variable} :
    Lexeme.placeholder parameter ∈ addCharacter character lexemes ↔
      Lexeme.placeholder parameter ∈ lexemes := by
  rw [addCharacter.eq_def]
  split <;> simp

theorem literal_mem_addCharacter {character : Char} {lexemes : List Lexeme} {literal : List Char}
    (member : Lexeme.literal literal ∈ addCharacter character lexemes) :
    (∃ next others, lexemes = .literal next :: others ∧ literal = character :: next) ∨
      literal = [character] ∨ Lexeme.literal literal ∈ lexemes := by
  rw [addCharacter.eq_def] at member
  split at member
  case h_1 next others =>
    rcases List.mem_cons.mp member with equal | later
    · cases equal
      exact .inl ⟨next, others, rfl, rfl⟩
    · exact .inr (.inr (List.mem_cons_of_mem _ later))
  case h_2 =>
    rcases List.mem_cons.mp member with equal | later
    · cases equal
      exact .inr (.inl rfl)
    · exact .inr (.inr later)

theorem named_of_mem_lexemes {groups : Bool} {text : List Char} {parameter : Variable}
    (member : Lexeme.placeholder parameter ∈ lexemes groups text) : parameter.Named := by
  fun_induction lexemes groups text with
  | case1 => cases member
  | case2 character rest _ induction =>
      rcases List.mem_cons.mp member with equal | later
      · cases equal
      · exact induction later
  | case3 character rest _ _ induction =>
      rcases List.mem_cons.mp member with equal | later
      · cases equal
      · exact induction later
  | case4 character rest _ _ other others taken induction =>
      rcases List.mem_cons.mp member with equal | later
      · cases equal
        exact named_of_takeVariable? taken
      · exact induction later
  | case5 character rest _ _ _ induction =>
      exact induction (placeholder_mem_addCharacter_iff.mp member)

theorem head?_of_lexemes {groups : Bool} {text literal : List Char} {others : List Lexeme}
    (cut : lexemes groups text = .literal literal :: others) : text.head? = literal.head? := by
  cases text with
  | nil => rw [lexemes] at cut; cases cut
  | cons character rest =>
      rw [lexemes] at cut
      split at cut
      · cases cut
      · split at cut
        · cases cut
        · split at cut
          · cases cut
          · rw [addCharacter.eq_def] at cut
            split at cut <;> cases cut <;> rfl

theorem captureFree_of_mem_lexemes {groups : Bool} {text literal : List Char}
    (member : Lexeme.literal literal ∈ lexemes groups text) : CaptureFree literal := by
  fun_induction lexemes groups text generalizing literal with
  | case1 => cases member
  | case2 character rest _ induction =>
      rcases List.mem_cons.mp member with equal | later
      · cases equal
      · exact induction later
  | case3 character rest _ _ induction =>
      rcases List.mem_cons.mp member with equal | later
      · cases equal
      · exact induction later
  | case4 character rest _ _ other others taken induction =>
      rcases List.mem_cons.mp member with equal | later
      · cases equal
      · exact induction later
  | case5 character rest _ _ refused induction =>
      rcases literal_mem_addCharacter member with ⟨next, others, cut, rfl⟩ | rfl | later
      · apply captureFree_cons (induction (by simp [cut]))
        intro colon second head
        rw [colon] at refused
        exact startsName_of_takeVariable?_eq_none refused ((head?_of_lexemes cut).trans head)
      · apply captureFree_cons
        · intro before second after equal
          simp at equal
        · intro _ second head
          cases head
      · exact induction later

theorem ne_nil_of_literal_mem_lexemes {groups : Bool} {text literal : List Char}
    (member : Lexeme.literal literal ∈ lexemes groups text) : literal ≠ [] := by
  fun_induction lexemes groups text generalizing literal with
  | case1 => cases member
  | case2 character rest _ induction =>
      rcases List.mem_cons.mp member with equal | later
      · cases equal
      · exact induction later
  | case3 character rest _ _ induction =>
      rcases List.mem_cons.mp member with equal | later
      · cases equal
      · exact induction later
  | case4 character rest _ _ other others taken induction =>
      rcases List.mem_cons.mp member with equal | later
      · cases equal
      · exact induction later
  | case5 character rest _ _ _ induction =>
      rcases literal_mem_addCharacter member with ⟨next, others, -, rfl⟩ | rfl | later
      · exact List.cons_ne_nil _ _
      · exact List.cons_ne_nil _ _
      · exact induction later

def Lexeme.isLiteral : Lexeme → Bool
  | literal _ => true
  | _ => false

theorem isChain_cons_of_not_isLiteral {lexeme : Lexeme} (notLiteral : lexeme.isLiteral = false)
    {rest : List Lexeme}
    (chain : rest.IsChain fun first second => first.isLiteral = false ∨ second.isLiteral = false) :
    (lexeme :: rest).IsChain fun first second =>
      first.isLiteral = false ∨ second.isLiteral = false := by
  cases rest with
  | nil => exact .singleton _
  | cons second others => exact List.isChain_cons_cons.mpr ⟨.inl notLiteral, chain⟩

theorem isChain_addCharacter (character : Char) {rest : List Lexeme}
    (chain : rest.IsChain fun first second => first.isLiteral = false ∨ second.isLiteral = false) :
    (addCharacter character rest).IsChain fun first second =>
      first.isLiteral = false ∨ second.isLiteral = false := by
  rw [addCharacter.eq_def]
  split
  case h_1 next others =>
    cases others with
    | nil => exact .singleton _
    | cons second rest => exact List.isChain_cons_cons.mpr (List.isChain_cons_cons.mp chain)
  case h_2 notLiteral =>
    cases rest with
    | nil => exact .singleton _
    | cons second others =>
        refine List.isChain_cons_cons.mpr ⟨.inr ?_, chain⟩
        cases second with
        | literal next => exact absurd rfl (notLiteral next others)
        | opening => rfl
        | closing => rfl
        | placeholder parameter => rfl

theorem isChain_lexemes (groups : Bool) (text : List Char) :
    (lexemes groups text).IsChain fun first second =>
      first.isLiteral = false ∨ second.isLiteral = false := by
  fun_induction lexemes groups text with
  | case1 => exact .nil
  | case2 character rest _ induction => exact isChain_cons_of_not_isLiteral rfl induction
  | case3 character rest _ _ induction => exact isChain_cons_of_not_isLiteral rfl induction
  | case4 character rest _ _ other others taken induction =>
      exact isChain_cons_of_not_isLiteral rfl induction
  | case5 character rest _ _ _ induction => exact isChain_addCharacter character induction

/-! ### Variables in templates -/

theorem Variable.Named.slash_notMem {parameter : Variable} (named : parameter.Named) :
    '/' ∉ parameter.name.toList := by
  rcases named with ⟨first, rest, equal, starts, continues⟩
  rw [equal, List.mem_cons, not_or]
  constructor
  · intro slash
    rw [← slash] at starts
    exact absurd starts (by decide)
  · intro slash
    exact absurd (continues '/' slash) (by decide)

def Variable.segment (parameter : Variable) : Template.Segment :=
  match parameter.quantifier with
  | .zeroOrMore => .anyNumber parameter.name
  | .oneOrMore => .wildcard parameter.name
  | _ => .capture parameter.name

theorem Variable.Named.getLast? {parameter : Variable} (named : parameter.Named) :
    ∃ last, parameter.name.toList.getLast? = some last ∧
      last ≠ '?' ∧ last ≠ '*' ∧ last ≠ '+' := by
  rcases named with ⟨first, rest, equal, starts, continues⟩
  rw [equal]
  cases ends : (first :: rest).getLast? with
  | none => simp at ends
  | some last =>
      have plain : Text.startsName last = true ∨ Text.continuesBracedName last = true := by
        rcases List.mem_cons.mp (List.mem_of_getLast? ends) with rfl | later
        · exact .inl starts
        · exact .inr (continues last later)
      refine ⟨last, rfl, ?_, ?_, ?_⟩
      · intro equal
        subst equal
        rcases plain with starts | continues <;> contradiction
      · intro equal
        subst equal
        rcases plain with starts | continues <;> contradiction
      · intro equal
        subst equal
        rcases plain with starts | continues <;> contradiction

theorem ofPiece_of_startsName {first : Char} (starts : Text.startsName first = true)
    (rest : List Char) :
    Template.Segment.ofPiece (':' :: first :: rest) =
      match (first :: rest).getLast? with
      | some '?' => .optional (String.ofList (first :: rest).dropLast)
      | some '*' => .anyNumber (String.ofList (first :: rest).dropLast)
      | some '+' => .wildcard (String.ofList (first :: rest).dropLast)
      | _ => .capture (String.ofList (first :: rest)) := by
  rw [Template.Segment.ofPiece]
  exact if_pos starts

/-- What a mark after a name makes of a capture. -/
inductive Marks : List Char → (String → Template.Segment) → Prop
  | capture : Marks [] .capture
  | optional : Marks ['?'] .optional
  | anyNumber : Marks ['*'] .anyNumber
  | wildcard : Marks ['+'] .wildcard

/-- A colon before a character that may begin a name captures under the text after it, but for a
mark at its end. -/
theorem exists_marks_of_startsName {first : Char} (starts : Text.startsName first = true)
    (rest : List Char) : ∃ name mark make, first :: rest = name ++ mark ∧ Marks mark make ∧
      Template.Segment.ofPiece (':' :: first :: rest) = make (String.ofList name) := by
  rw [ofPiece_of_startsName starts]
  split
  case h_1 ends =>
    exact ⟨_, _, _, (List.dropLast_append_getLast? _ ends).symm, .optional, rfl⟩
  case h_2 ends =>
    exact ⟨_, _, _, (List.dropLast_append_getLast? _ ends).symm, .anyNumber, rfl⟩
  case h_3 ends =>
    exact ⟨_, _, _, (List.dropLast_append_getLast? _ ends).symm, .wildcard, rfl⟩
  case h_4 => exact ⟨_, _, _, (List.append_nil _).symm, .capture, rfl⟩

theorem Variable.Named.ofPiece_eq {parameter : Variable} (named : parameter.Named) :
    Template.Segment.ofPiece
        (':' :: (parameter.name.toList ++ parameter.quantifier.mark.toList)) =
      parameter.segment := by
  rcases named.getLast? with ⟨last, ends, notOptional, notAny, notWildcard⟩
  rcases named with ⟨first, rest, equal, starts, -⟩
  have whole : String.ofList (first :: rest) = parameter.name := by
    rw [← equal, String.ofList_toList]
  have plain : Template.Segment.ofPiece (':' :: first :: rest) = .capture parameter.name := by
    rw [ofPiece_of_startsName starts, ← equal, ends, equal, whole]
    split <;> simp_all
  rw [equal, Variable.segment]
  cases parameter.quantifier with
  | one => simpa [Quantifier.mark] using plain
  | optional => simpa [Quantifier.mark] using plain
  | zeroOrMore =>
      have marked : first :: (rest ++ ['*']) = (first :: rest) ++ ['*'] := rfl
      rw [show Quantifier.mark .zeroOrMore = "*" from rfl, List.cons_append,
        show "*".toList = ['*'] from rfl, ofPiece_of_startsName starts, marked,
        List.getLast?_concat, List.dropLast_concat, whole]
      rfl
  | oneOrMore =>
      have marked : first :: (rest ++ ['+']) = (first :: rest) ++ ['+'] := rfl
      rw [show Quantifier.mark .oneOrMore = "+" from rfl, List.cons_append,
        show "+".toList = ['+'] from rfl, ofPiece_of_startsName starts, marked,
        List.getLast?_concat, List.dropLast_concat, whole]
      rfl

theorem Variable.Named.ofPiece_name {parameter : Variable} (named : parameter.Named) :
    Template.Segment.ofPiece (':' :: parameter.name.toList) = .capture parameter.name := by
  have required : Named { parameter with quantifier := .one } := named
  have read := required.ofPiece_eq
  rwa [show Quantifier.mark .one = "" from rfl, String.toList_empty, List.append_nil] at read

theorem CaptureFree.ofPiece_eq {piece : List Char} (free : CaptureFree piece) :
    Template.Segment.ofPiece piece = .static (String.ofList piece) := by
  rw [Template.Segment.ofPiece.eq_def]
  split
  case h_1 character rest =>
    rw [if_neg]
    rw [free [] character rest rfl]
    decide
  case h_2 => rfl

theorem CaptureFree.within {text part : List Char} (free : CaptureFree text)
    (inside : part <:+: text) : CaptureFree part := by
  intro before character after equal
  rcases inside with ⟨first, last, whole⟩
  apply free (first ++ before) character (after ++ last)
  rw [← whole, equal]
  simp

end Pattern

end UrlRouting
