import UrlRouting.Proofs.Pattern.Brackets

/-!
The two ways of writing a variable, after a colon and in braces. In a pattern without opening braces
every variable is written after a colon. Written in braces instead, each stays the unit that it was,
so the pattern keeps its lexemes and its variants.
-/

namespace UrlRouting.Pattern

namespace Variable

def bare (parameter : Variable) : List Char :=
  ':' :: (parameter.name.toList ++ parameter.quantifier.sign)

def braced (parameter : Variable) : List Char :=
  '{' :: (parameter.name.toList ++ (parameter.quantifier.sign ++ ['}']))

end Variable

def spell (write : Variable → List Char) (units : List (Char ⊕ Variable)) : List Char :=
  units.flatMap (Sum.elim (fun character => [character]) write)

theorem spell_inl (write : Variable → List Char) (character : Char)
    (units : List (Char ⊕ Variable)) :
    spell write (.inl character :: units) = character :: spell write units :=
  rfl

theorem spell_inr (write : Variable → List Char) (parameter : Variable)
    (units : List (Char ⊕ Variable)) :
    spell write (.inr parameter :: units) = write parameter ++ spell write units :=
  rfl

/-! ### Variables after a colon -/

theorem append_of_takeQuantifier {text rest : List Char} {quantifier : Quantifier}
    (taken : takeQuantifier text = (quantifier, rest)) : text = quantifier.sign ++ rest := by
  rw [takeQuantifier.eq_def] at taken
  split at taken <;> cases taken <;> rfl

theorem exists_slot_of_takeBare? {text rest : List Char} {parameter : Variable}
    (taken : takeBare? text = some (parameter, rest)) :
    ∃ slot : Slot, slot.regex? = none ∧ slot.parameter = parameter ∧
      text = slot.name ++ (slot.quantifier.sign ++ rest) := by
  cases text with
  | nil => cases taken
  | cons first others =>
      rw [takeBare?, Text.takeName?] at taken
      split at taken
      case isFalse => cases taken
      case isTrue starts =>
        have named : ∀ character ∈ others.takeWhile Text.continuesName,
            Text.continuesBracedName character = true := fun character member =>
          continuesBracedName_of_continuesName (List.mem_takeWhile_imp member)
        cases signed : takeQuantifier (others.dropWhile Text.continuesName) with
        | mk quantifier after =>
            simp only [Option.bind_eq_bind, Option.bind_some, signed] at taken
            cases taken
            let slot : Slot :=
              { name := first :: others.takeWhile Text.continuesName
                quantifier, regex? := none
                named := ⟨first, _, rfl, starts, named⟩, writable := by simp }
            refine ⟨slot, rfl, slot.make_eq.symm, ?_⟩
            rw [← append_of_takeQuantifier signed, List.cons_append,
              List.takeWhile_append_dropWhile]

namespace Slot

variable {slot : Slot}

theorem bare_parameter : slot.parameter.bare = ':' :: (slot.name ++ slot.quantifier.sign) := by
  rw [Variable.bare, parameter, String.toList_ofList]

theorem braced_parameter (plain : slot.regex? = none) :
    slot.parameter.braced = slot.characters := by
  rw [Variable.braced, characters, ending, plain, parameter, String.toList_ofList]

theorem units_characters_append (slot : Slot) (rest : List Char) :
    units (slot.characters ++ rest) = .inr slot.parameter :: units rest := by
  rw [characters, List.cons_append, List.append_assoc, List.append_assoc]
  exact units_of_eq_some (slot.takeVariable?_characters rest)

end Slot

theorem exists_slot_of_takeVariable? {character : Char} {rest others : List Char}
    {parameter : Variable} (noBrace : '{' ∉ character :: rest)
    (taken : takeVariable? character rest = some (parameter, others)) :
    ∃ slot : Slot, slot.regex? = none ∧ slot.parameter = parameter ∧
      character :: rest = slot.parameter.bare ++ others ∧ '{' ∉ others := by
  rw [takeVariable?, if_neg (Ne.symm (List.ne_of_not_mem_cons noBrace))] at taken
  split at taken
  case isFalse => cases taken
  case isTrue colon =>
    rcases exists_slot_of_takeBare? taken with ⟨slot, plain, same, rfl⟩
    have whole : character :: (slot.name ++ (slot.quantifier.sign ++ others)) =
        slot.parameter.bare ++ others := by
      rw [colon, slot.bare_parameter, List.cons_append, List.append_assoc]
    exact ⟨slot, plain, same, whole,
      fun member => noBrace (whole ▸ List.mem_append_right _ member)⟩

/-! ### Texts spelled again -/

theorem spell_bare_units {text : List Char} (noBrace : '{' ∉ text) :
    spell Variable.bare (units text) = text := by
  fun_induction units text with
  | case1 => rfl
  | case2 character rest parameter others taken induction =>
      rcases exists_slot_of_takeVariable? noBrace taken with ⟨slot, -, same, whole, noneLeft⟩
      rw [spell_inr, induction noneLeft, whole, same]
  | case3 character rest refused induction =>
      rw [spell_inl, induction (List.not_mem_of_not_mem_cons noBrace)]

theorem takeVariable?_eq_none_of_head? {character : Char} {rest other : List Char}
    (noBrace : character ≠ '{') (refused : takeVariable? character rest = none)
    (alike : ∀ next ∈ other.head?, Text.startsName next = true → rest.head? = some next) :
    takeVariable? character other = none := by
  rw [takeVariable?, if_neg noBrace]
  split
  case isFalse => rfl
  case isTrue colon =>
    subst colon
    cases other with
    | nil => rfl
    | cons next others =>
        cases starts : Text.startsName next with
        | false => simp [takeBare?, Text.takeName?, starts]
        | true =>
            have unnamed := startsName_of_takeVariable?_eq_none refused (alike next rfl starts)
            rw [starts] at unnamed
            cases unnamed

theorem head?_spell_braced {text : List Char} {next : Char} (starts : Text.startsName next = true)
    (here : next ∈ (spell Variable.braced (units text)).head?) : text.head? = some next := by
  cases text with
  | nil =>
      rw [units] at here
      cases here
  | cons character rest =>
      cases taken : takeVariable? character rest with
      | none =>
          rw [units_of_eq_none taken, spell_inl] at here
          exact here
      | some found =>
          -- A variable in braces does not begin as a name does.
          rw [units_of_eq_some taken, spell_inr] at here
          cases here
          contradiction

theorem units_spell_braced {text : List Char} (noBrace : '{' ∉ text) :
    units (spell Variable.braced (units text)) = units text := by
  fun_induction units text with
  | case1 => rw [spell, List.flatMap_nil, units]
  | case2 character rest parameter others taken induction =>
      rcases exists_slot_of_takeVariable? noBrace taken with ⟨slot, plain, same, -, noneLeft⟩
      rw [spell_inr, ← same, Slot.braced_parameter plain, slot.units_characters_append,
        induction noneLeft]
  | case3 character rest refused induction =>
      have notBrace := Ne.symm (List.ne_of_not_mem_cons noBrace)
      have refusedToo := takeVariable?_eq_none_of_head? notBrace refused
        fun next here starts => head?_spell_braced starts here
      rw [spell_inl, units_of_eq_none refusedToo,
        induction (List.not_mem_of_not_mem_cons noBrace)]

/-! ### Lexemes and variants -/

def addUnit : Char ⊕ Variable → List Lexeme → List Lexeme
  | .inl '[', lexemes => .opening :: lexemes
  | .inl ']', lexemes => .closing :: lexemes
  | .inl character, lexemes => addCharacter character lexemes
  | .inr parameter, lexemes => .placeholder parameter :: lexemes

theorem lexemes_eq_foldr_units (text : List Char) :
    lexemes true text = (units text).foldr addUnit [] := by
  fun_induction lexemes true text with
  | case1 =>
      rw [units]
      rfl
  | case2 character rest opens induction =>
      have opening : character = '[' := by simpa using opens
      subst opening
      rw [units_opening, List.foldr_cons, ← induction]
      rfl
  | case3 character rest notOpening closes induction =>
      have closing : character = ']' := by simpa using closes
      subst closing
      rw [units_closing, List.foldr_cons, ← induction]
      rfl
  | case4 character rest notOpening notClosing parameter others taken induction =>
      rw [units_of_eq_some taken, List.foldr_cons, ← induction]
      rfl
  | case5 character rest notOpening notClosing refused induction =>
      rw [units_of_eq_none refused, List.foldr_cons, ← induction, addUnit]
      · simpa using notOpening
      · simpa using notClosing

theorem compile_eq_ok_iff_of_units_eq {pattern other : String}
    (same : units pattern.toList = units other.toList) (variants : List Variant) :
    compile pattern = .ok variants ↔ compile other = .ok variants := by
  have cut : lexemes true pattern.toList = lexemes true other.toList := by
    rw [lexemes_eq_foldr_units, lexemes_eq_foldr_units, same]
  rw [compile, compile, parts, parts, cut]
  cases nest? [] [] (lexemes true other.toList) with
  | none =>
      constructor
      · intro compiled
        cases compiled
      · intro compiled
        cases compiled
  | some decided => exact Iff.rfl

/-- The two ways of writing variables are interchangeable. A pattern without opening braces is that
of its units with each variable after a colon; with each variable in braces instead, it compiles to
the same variants, or neither compiles. -/
theorem compile_spelled_braced (pattern : String) (noBrace : '{' ∉ pattern.toList) :
    String.ofList (spell Variable.bare (units pattern.toList)) = pattern ∧
      ∀ variants,
        compile (String.ofList (spell Variable.braced (units pattern.toList))) = .ok variants ↔
          compile pattern = .ok variants := by
  constructor
  · rw [spell_bare_units noBrace, String.ofList_toList]
  · apply compile_eq_ok_iff_of_units_eq
    rw [String.toList_ofList, units_spell_braced noBrace]

theorem compile_spelled_braced_files :
    '{' ∉ "/::lang?-x[:rest*].:7".toList ∧ ∃ variants,
      compile "/::lang?-x[:rest*].:7" = .ok variants ∧
      compile "/:{lang?}-x[{rest*}].:7" = .ok variants ∧
      variants.map Variant.names = [["lang", "rest"], ["lang"], ["rest"], []] := by
  have noBrace : '{' ∉ "/::lang?-x[:rest*].:7".toList := by decide
  have written : String.ofList (spell Variable.braced (units "/::lang?-x[:rest*].:7".toList)) =
      "/:{lang?}-x[{rest*}].:7" := by cbv
  have compiled : compile "/::lang?-x[:rest*].:7" = .ok [
      { tokens := [.literal "/:", .placeholder ⟨"lang", "[^/]+", .optional⟩, .literal "-x",
        .placeholder ⟨"rest", ".+", .zeroOrMore⟩, .literal ".:7"] },
      { tokens := [.literal "/:", .placeholder ⟨"lang", "[^/]+", .optional⟩,
        .literal "-x.:7"] },
      { tokens := [.literal "/:-x", .placeholder ⟨"rest", ".+", .zeroOrMore⟩, .literal ".:7"] },
      { tokens := [.literal "/:-x.:7"] }] := by
    cbv
  exact ⟨noBrace, _, compiled,
    written ▸ ((compile_spelled_braced _ noBrace).2 _).mpr compiled, rfl⟩

end UrlRouting.Pattern
