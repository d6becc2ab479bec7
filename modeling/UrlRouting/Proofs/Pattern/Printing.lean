import UrlRouting.Proofs.Path.Tidy
import UrlRouting.Proofs.Pattern.Variants

/-!
Patterns written down. An abstract pattern is made of literal text, of variables to be written in
braces, and of groups of such elements, nested in any way. Compiling what is written gives the
variants of the abstract pattern: each way of taking and leaving out its groups, as a sequence of
characters and variables.
-/

namespace UrlRouting.Pattern

/-! ### Abstract patterns -/

/-- Literal text without the characters that begin or end something else. -/
structure Run where
  text : List Char
  plain : ∀ character ∈ text, character ∉ ['[', ']', '{', ':']

/-- Whether the braces of a text match, where it closes `depth` braces that were open before. -/
structure Balanced (depth : Nat) (text : List Char) : Prop where
  along : ∀ before, before <+: text → before.count '}' ≤ depth + before.count '{'
  whole : text.count '}' = depth + text.count '{'

instance (depth : Nat) (text : List Char) : Decidable (Balanced depth text) :=
  decidable_of_iff
    ((∀ before ∈ text.inits, before.count '}' ≤ depth + before.count '{') ∧
      text.count '}' = depth + text.count '{')
    ⟨fun given => ⟨fun before start => given.1 before ((List.mem_inits ..).mpr start), given.2⟩,
      fun given => ⟨fun before member => given.along before ((List.mem_inits ..).mp member),
        given.whole⟩⟩

/-- Whether a regular expression can stand in a variable. White space around it would be lost: that
of ASCII before it, and any after it. -/
structure Writable (regex : List Char) : Prop where
  nonempty : regex ≠ []
  balanced : Balanced 0 regex
  begins : ∀ first ∈ regex.head?, Text.isAsciiBlank first = false
  ends : ∀ last ∈ regex.getLast?, Text.isBlank last = false

/-- A variable to be written in braces, with a regular expression or without one. -/
structure Slot where
  name : List Char
  quantifier : Quantifier
  regex? : Option (List Char)
  named : ∃ first others, name = first :: others ∧ Text.startsName first = true ∧
    ∀ character ∈ others, Text.continuesBracedName character = true
  writable : ∀ regex ∈ regex?, Writable regex

inductive Element
  | literal (run : Run)
  | placeholder (slot : Slot)
  | group (inner : List Element)

/-! ### What is written -/

def Quantifier.sign : Quantifier → List Char
  | one => []
  | optional => ['?']
  | zeroOrMore => ['*']
  | oneOrMore => ['+']

namespace Slot

def ending (slot : Slot) : List Char :=
  match slot.regex? with
  | none => ['}']
  | some regex => ':' :: (regex ++ ['}'])

def characters (slot : Slot) : List Char :=
  '{' :: (slot.name ++ (slot.quantifier.sign ++ slot.ending))

def parameter (slot : Slot) : Variable where
  name := String.ofList slot.name
  regex :=
    match slot.regex? with
    | none => if slot.quantifier.isWildcard then ".+" else "[^/]+"
    | some regex => String.ofList regex
  quantifier := slot.quantifier

end Slot

def characters : List Element → List Char
  | [] => []
  | .literal run :: rest => run.text ++ characters rest
  | .placeholder slot :: rest => slot.characters ++ characters rest
  | .group inner :: rest => '[' :: (characters inner ++ ']' :: characters rest)

def print (elements : List Element) : String :=
  String.ofList (characters elements)

/-! ### What is meant -/

/-- The ways of taking and leaving out the groups of an abstract pattern, as characters and
variables. An optional variable is a group by itself. What has a group comes before what leaves it
out, and earlier groups decide before later ones. -/
def choices : List Element → List (List (Char ⊕ Variable))
  | [] => [[]]
  | .literal run :: rest => (choices rest).map (run.text.map .inl ++ ·)
  | .placeholder slot :: rest =>
      if slot.quantifier = .optional then
        (choices rest).map (.inr slot.parameter :: ·) ++ choices rest
      else
        (choices rest).map (.inr slot.parameter :: ·)
  | .group inner :: rest =>
      (choices inner ++ [[]]).flatMap fun choice => (choices rest).map (choice ++ ·)

/-- Tokens with a character or a variable before them, a character being part of the literal that
it stands at. -/
def addSymbol : Char ⊕ Variable → List Token → List Token
  | .inl character, .literal text :: rest =>
      .literal (String.ofList (character :: text.toList)) :: rest
  | .inl character, tokens => .literal (String.ofList [character]) :: tokens
  | .inr parameter, tokens => .placeholder parameter :: tokens

/-- Characters and variables as a variant, in which adjacent characters form one literal. -/
def Variant.ofSymbols (symbols : List (Char ⊕ Variable)) : Variant where
  tokens := symbols.foldr addSymbol []

/-! ### Reading a variable -/

theorem Balanced.tail {depth next : Nat} {character : Char} {rest : List Char}
    (balanced : Balanced depth (character :: rest))
    (moves : next + (if character = '}' then 1 else 0) =
      depth + if character = '{' then 1 else 0) : Balanced next rest := by
  constructor
  · intro before start
    have bound := balanced.along _ (List.cons_prefix_cons.mpr ⟨rfl, start⟩)
    simp only [List.count_cons, beq_iff_eq] at bound
    omega
  · have equal := balanced.whole
    simp only [List.count_cons, beq_iff_eq] at equal
    omega

theorem takeRegex?_of_balanced {depth : Nat} {regex : List Char} (balanced : Balanced depth regex)
    (rest : List Char) : takeRegex? depth (regex ++ '}' :: rest) = some (regex, rest) := by
  induction regex generalizing depth with
  | nil =>
      have closed : depth = 0 := by simpa using balanced.whole.symm
      subst closed
      rfl
  | cons character regex induction =>
      rw [List.cons_append]
      by_cases opens : character = '{'
      · subst opens
        have inner : Balanced (depth + 1) regex := balanced.tail (by simp)
        rw [takeRegex?, induction inner, Option.map_some]
      · by_cases closes : character = '}'
        · subst closes
          -- The bound along the text keeps its first brace from closing the variable.
          have before := balanced.along ['}'] ⟨regex, rfl⟩
          cases depth with
          | zero => simp at before
          | succ depth =>
              have inner : Balanced depth regex := balanced.tail (by simp)
              rw [takeRegex?, induction inner, Option.map_some]
        · have inner : Balanced depth regex := balanced.tail (by simp [opens, closes])
          rw [takeRegex?, induction inner, Option.map_some]
          · exact opens
          · exact closes

theorem skipBlanks_eq {text : List Char}
    (begins : ∀ first ∈ text.head?, Text.isAsciiBlank first = false) : skipBlanks text = text := by
  cases text with
  | nil => rfl
  | cons first rest =>
      rw [skipBlanks, List.dropWhile_cons_of_neg]
      simp [begins first rfl]

theorem takeName?_append {continues : Char → Bool} {first : Char} {others rest : List Char}
    (starts : Text.startsName first = true)
    (within : ∀ character ∈ others, continues character = true)
    (after : ∀ next ∈ rest.head?, continues next = false) :
    Text.takeName? continues (first :: (others ++ rest)) = some (first :: others, rest) := by
  have stops : rest.takeWhile continues = [] ∧ rest.dropWhile continues = rest := by
    cases rest with
    | nil => exact ⟨rfl, rfl⟩
    | cons next rest =>
        have different := after next rfl
        exact ⟨List.takeWhile_cons_of_neg (by simp [different]),
          List.dropWhile_cons_of_neg (by simp [different])⟩
  rw [Text.takeName?, if_pos starts, List.takeWhile_append_of_pos within,
    List.dropWhile_append_of_pos within, stops.1, stops.2, List.append_nil]

theorem isAsciiBlank_of_startsName {first : Char} (starts : Text.startsName first = true) :
    Text.isAsciiBlank first = false := by
  cases blank : Text.isAsciiBlank first with
  | false => rfl
  | true =>
      simp only [Text.isAsciiBlank, Bool.or_eq_true, beq_iff_eq] at blank
      rcases blank with (((rfl | rfl) | rfl) | rfl) | rfl <;> contradiction

namespace Slot

theorem head?_sign_ending (slot : Slot) (rest : List Char) :
    ∀ next ∈ (slot.quantifier.sign ++ (slot.ending ++ rest)).head?,
      Text.continuesBracedName next = false ∧ Text.isAsciiBlank next = false := by
  intro next here
  rw [ending] at here
  cases quantifier : slot.quantifier <;> cases regex : slot.regex? <;>
    rw [quantifier, regex] at here <;> cases here <;> decide

theorem head?_ending (slot : Slot) (rest : List Char) :
    ∀ next ∈ (slot.ending ++ rest).head?, next = '}' ∨ next = ':' := by
  intro next here
  rw [ending] at here
  cases regex : slot.regex? <;> rw [regex] at here <;> cases here
  · exact .inl rfl
  · exact .inr rfl

theorem takeQuantifier_sign (slot : Slot) (rest : List Char) :
    takeQuantifier (slot.quantifier.sign ++ (slot.ending ++ rest)) =
      (slot.quantifier, slot.ending ++ rest) := by
  cases quantifier : slot.quantifier with
  | one =>
      rw [ending]
      cases slot.regex? <;> rfl
  | optional => rfl
  | zeroOrMore => rfl
  | oneOrMore => rfl

theorem takeBracedEnd?_ending (slot : Slot) (rest : List Char) :
    takeBracedEnd? (slot.ending ++ rest) = some (slot.regex?.getD [], rest) := by
  rw [ending]
  cases given : slot.regex? with
  | none => rfl
  | some regex =>
      have writable := slot.writable regex given
      have skipped : skipBlanks (regex ++ '}' :: rest) = regex ++ '}' :: rest := by
        apply skipBlanks_eq
        rw [List.head?_append_of_ne_nil _ writable.nonempty]
        exact writable.begins
      simp only [List.cons_append, List.append_assoc, List.nil_append, takeBracedEnd?, skipped,
        takeRegex?_of_balanced writable.balanced, Option.map_some,
        Text.trimEnd_eq_self writable.ends, Option.getD_some]

theorem make_eq (slot : Slot) :
    Variable.make slot.name (slot.regex?.getD []) slot.quantifier = slot.parameter := by
  rw [Variable.make, parameter]
  cases given : slot.regex? with
  | none => rfl
  | some regex =>
      have nonempty := (slot.writable regex given).nonempty
      simp [nonempty]

theorem takeVariable?_characters (slot : Slot) (rest : List Char) :
    takeVariable? '{' (slot.name ++ (slot.quantifier.sign ++ (slot.ending ++ rest))) =
      some (slot.parameter, rest) := by
  rcases slot.named with ⟨first, others, equal, starts, continues⟩
  have marks := slot.head?_sign_ending rest
  have name := takeName?_append starts continues fun next here => (marks next here).1
  have begins : skipBlanks (first :: (others ++ (slot.quantifier.sign ++ (slot.ending ++ rest)))) =
      first :: (others ++ (slot.quantifier.sign ++ (slot.ending ++ rest))) := by
    apply skipBlanks_eq
    intro character here
    cases here
    exact isAsciiBlank_of_startsName starts
  have ending : skipBlanks (slot.ending ++ rest) = slot.ending ++ rest := by
    apply skipBlanks_eq
    intro next here
    rcases slot.head?_ending rest next here with rfl | rfl <;> rfl
  have marked := skipBlanks_eq fun next here => (marks next here).2
  rw [takeVariable?, if_pos rfl, takeBraced?, equal, List.cons_append, begins, name]
  simp only [Option.bind_eq_bind, Option.bind_some, marked, takeQuantifier_sign, ending,
    takeBracedEnd?_ending, ← equal, make_eq, Option.pure_def]

end Slot

/-! ### Reading an abstract pattern -/

def written : List Element → List Lexeme
  | [] => []
  | .literal run :: rest => run.text.foldr addCharacter (written rest)
  | .placeholder slot :: rest => .placeholder slot.parameter :: written rest
  | .group inner :: rest => .opening :: (written inner ++ .closing :: written rest)

theorem addCharacter_append (character : Char) (before : List Lexeme) {after : List Lexeme}
    (apart : ∀ next ∈ after.head?, next.isLiteral = false) :
    addCharacter character (before ++ after) = addCharacter character before ++ after := by
  cases before with
  | nil =>
      cases after with
      | nil => rfl
      | cons next rest =>
          have notLiteral := apart next rfl
          cases next <;> first | rfl | cases notLiteral
  | cons lexeme rest => cases lexeme <;> rfl

theorem foldr_addCharacter_append (text : List Char) (before : List Lexeme) {after : List Lexeme}
    (apart : ∀ next ∈ after.head?, next.isLiteral = false) :
    text.foldr addCharacter (before ++ after) = text.foldr addCharacter before ++ after := by
  induction text with
  | nil => rfl
  | cons character text induction =>
      rw [List.foldr_cons, List.foldr_cons, induction, addCharacter_append _ _ apart]

theorem lexemes_opening (rest : List Char) :
    lexemes true ('[' :: rest) = .opening :: lexemes true rest := by
  rw [lexemes]
  rfl

theorem lexemes_closing (rest : List Char) :
    lexemes true (']' :: rest) = .closing :: lexemes true rest := by
  rw [lexemes]
  rfl

theorem lexemes_append_of_plain {text : List Char}
    (plain : ∀ character ∈ text, character ∉ ['[', ']', '{', ':']) (rest : List Char) :
    lexemes true (text ++ rest) = text.foldr addCharacter (lexemes true rest) := by
  induction text with
  | nil => rw [List.nil_append, List.foldr_nil]
  | cons character text induction =>
      rw [List.forall_mem_cons] at plain
      rcases plain with ⟨first, others⟩
      simp only [List.mem_cons, List.not_mem_nil, or_false, not_or] at first
      rcases first with ⟨notOpening, notClosing, notBrace, notColon⟩
      have refused : takeVariable? character (text ++ rest) = none := by
        rw [takeVariable?, if_neg notBrace, if_neg notColon]
      rw [List.cons_append, lexemes, if_neg (by simpa using notOpening),
        if_neg (by simpa using notClosing), List.foldr_cons, ← induction others]
      split
      case h_1 taken =>
        rw [refused] at taken
        cases taken
      case h_2 => rfl

theorem lexemes_slot_append (slot : Slot) (rest : List Char) :
    lexemes true (slot.characters ++ rest) = .placeholder slot.parameter :: lexemes true rest := by
  rw [Slot.characters, List.cons_append, List.append_assoc, List.append_assoc, lexemes,
    if_neg (by decide), if_neg (by decide)]
  split
  case h_1 taken =>
    rw [slot.takeVariable?_characters] at taken
    cases taken
    rfl
  case h_2 refused =>
    rw [slot.takeVariable?_characters] at refused
    cases refused

theorem lexemes_characters_append (elements : List Element) {rest : List Char}
    (apart : ∀ next ∈ (lexemes true rest).head?, next.isLiteral = false) :
    lexemes true (characters elements ++ rest) = written elements ++ lexemes true rest := by
  fun_induction characters elements generalizing rest with
  | case1 => rw [List.nil_append, written, List.nil_append]
  | case2 run others induction =>
      rw [List.append_assoc, lexemes_append_of_plain run.plain, induction apart, written,
        foldr_addCharacter_append _ _ apart]
  | case3 slot others induction =>
      rw [List.append_assoc, lexemes_slot_append, induction apart, written, List.cons_append]
  | case4 inner others within after =>
      -- What follows the inside of a group begins with its bracket, which is no literal.
      have closed : ∀ next ∈ (lexemes true (']' :: (characters others ++ rest))).head?,
          next.isLiteral = false := by
        rw [lexemes_closing]
        intro next here
        cases here
        rfl
      rw [List.cons_append, List.append_assoc, List.cons_append, lexemes_opening, within closed,
        lexemes_closing, after apart, written]
      simp only [List.cons_append, List.append_assoc]

theorem lexemes_characters (elements : List Element) :
    lexemes true (characters elements) = written elements := by
  have cut := @lexemes_characters_append elements [] (by simp [lexemes])
  rwa [List.append_nil, lexemes, List.append_nil] at cut

/-! ### The variants -/

def symbolLists (parts : List Part) : List (List (Char ⊕ Variable)) :=
  (expand parts).map (List.flatMap Token.symbols)

theorem symbolLists_token (token : Token) (rest : List Part) :
    symbolLists (.token token :: rest) = (symbolLists rest).map (token.symbols ++ ·) := by
  rw [symbolLists, symbolLists, expand, List.map_map, List.map_map]
  rfl

theorem symbolLists_optional (inner rest : List Part) :
    symbolLists (.optional inner :: rest) =
      ([] :: symbolLists inner).flatMap fun choice => (symbolLists rest).map (choice ++ ·) := by
  have whole : [] :: symbolLists inner = ([] :: expand inner).map (List.flatMap Token.symbols) :=
    rfl
  rw [whole, List.flatMap_map, symbolLists, expand, List.map_flatMap]
  congr 1
  funext choice
  rw [symbolLists, List.map_map, List.map_map]
  congr 1
  funext others
  exact List.flatMap_append

theorem Nests.nest?_append {lexemes : List Lexeme} {parts : List Part}
    (nested : Nests lexemes parts) (outer : List (List Part)) (inner : List Part)
    (rest : List Lexeme) :
    nest? outer inner (lexemes ++ rest) = nest? outer (parts.reverse ++ inner) rest := by
  induction nested generalizing outer inner rest with
  | nil => rfl
  | literal _ induction => simp [nest?, induction]
  | placeholder required _ induction => simp [nest?, induction, Part.ofVariable, required]
  | optional optional _ induction => simp [nest?, induction, Part.ofVariable, optional]
  | group _ _ within after => simp [nest?, within, after]

theorem nests_addCharacter (character : Char) {lexemes : List Lexeme} {parts : List Part}
    (nested : Nests lexemes parts) :
    ∃ others, Nests (addCharacter character lexemes) others ∧
      symbolLists others = (symbolLists parts).map (.inl character :: ·) := by
  rw [addCharacter.eq_def]
  split
  case h_1 text rest =>
    cases nested with
    | @literal _ _ parts later =>
        refine ⟨_, .literal later, ?_⟩
        rw [symbolLists_token, symbolLists_token, List.map_map]
        simp [Token.symbols]
  case h_2 =>
    refine ⟨_, .literal nested, ?_⟩
    rw [symbolLists_token]
    simp [Token.symbols]

theorem nests_foldr_addCharacter (text : List Char) {lexemes : List Lexeme} {parts : List Part}
    (nested : Nests lexemes parts) :
    ∃ others, Nests (text.foldr addCharacter lexemes) others ∧
      symbolLists others = (symbolLists parts).map (text.map .inl ++ ·) := by
  induction text with
  | nil => exact ⟨parts, nested, by simp⟩
  | cons character text induction =>
      rcases induction with ⟨others, later, same⟩
      rcases nests_addCharacter character later with ⟨all, whole, sameAll⟩
      refine ⟨all, whole, ?_⟩
      rw [sameAll, same, List.map_map]
      rfl

theorem exists_nests_written (elements : List Element) :
    ∃ parts, Nests (written elements) parts ∧ symbolLists parts = (choices elements).reverse := by
  fun_induction written elements with
  | case1 => exact ⟨[], .nil, by simp [symbolLists, expand, choices]⟩
  | case2 run rest induction =>
      rcases induction with ⟨parts, nested, same⟩
      rcases nests_foldr_addCharacter run.text nested with ⟨others, whole, sameAll⟩
      exact ⟨others, whole, by rw [sameAll, same, choices, List.map_reverse]⟩
  | case3 slot rest induction =>
      rcases induction with ⟨parts, nested, same⟩
      rw [choices]
      split
      case isTrue optional =>
        refine ⟨_, .optional optional nested, ?_⟩
        rw [symbolLists_optional, symbolLists_token, same]
        simp [symbolLists, expand, Token.symbols]
      case isFalse required =>
        refine ⟨_, .placeholder required nested, ?_⟩
        rw [symbolLists_token, same, ← List.map_reverse]
        rfl
  | case4 inner rest within after =>
      rcases within with ⟨innerParts, innerNested, innerSame⟩
      rcases after with ⟨parts, nested, same⟩
      refine ⟨_, .group innerNested nested, ?_⟩
      rw [symbolLists_optional, innerSame, same, choices, List.reverse_flatMap,
        List.reverse_append]
      simp [Function.comp_def]

theorem foldr_addSymbol_literal (text : List Char) (next : String) (rest : List Token) :
    (text.map .inl).foldr addSymbol (.literal next :: rest) =
      .literal (String.ofList (text ++ next.toList)) :: rest := by
  induction text with
  | nil => simp
  | cons character text induction => simp [induction, addSymbol]

theorem foldr_addSymbol_of_ne_nil {text : List Char} (nonempty : text ≠ []) {tokens : List Token}
    (apart : ∀ next others, tokens ≠ .literal next :: others) :
    (text.map .inl).foldr addSymbol tokens = .literal (String.ofList text) :: tokens := by
  rcases List.eq_nil_or_concat text with rfl | ⟨before, last, rfl⟩
  · exact absurd rfl nonempty
  · have first : addSymbol (.inl last) tokens = .literal (String.ofList [last]) :: tokens := by
      cases tokens with
      | nil => rfl
      | cons token rest =>
          cases token with
          | literal next => exact absurd rfl (apart next rest)
          | placeholder parameter => rfl
    rw [List.concat_eq_append, List.map_append, List.foldr_append, List.map_singleton,
      List.foldr_cons, List.foldr_nil, first, foldr_addSymbol_literal, String.toList_ofList]

theorem mergeLiterals_eq_foldr {tokens : List Token} (nonempty : .literal "" ∉ tokens) :
    mergeLiterals tokens = (tokens.flatMap Token.symbols).foldr addSymbol [] := by
  fun_induction mergeLiterals tokens with
  | case1 => rfl
  | case2 text rest next others merged induction =>
      rw [List.mem_cons, not_or] at nonempty
      rw [List.flatMap_cons, List.foldr_append, ← induction nonempty.2, merged, Token.symbols,
        foldr_addSymbol_literal, String.ofList_append, String.ofList_toList, String.ofList_toList]
  | case3 text rest notLiteral induction =>
      rw [List.mem_cons, not_or] at nonempty
      have letters : text.toList ≠ [] := by
        intro empty
        apply nonempty.1
        rw [← String.ofList_toList (s := text), empty]
      rw [List.flatMap_cons, List.foldr_append, ← induction nonempty.2, Token.symbols,
        foldr_addSymbol_of_ne_nil letters notLiteral, String.ofList_toList]
  | case4 parameter rest induction =>
      rw [List.mem_cons, not_or] at nonempty
      rw [induction nonempty.2]
      rfl

/-- Compiling the text of an abstract pattern succeeds, and gives its variants: one for each way of
taking and leaving out its groups, with the literal text and the variables that were written. -/
theorem compile_print (elements : List Element) :
    compile (print elements) = .ok ((choices elements).map Variant.ofSymbols) := by
  rcases exists_nests_written elements with ⟨decided, nested, same⟩
  have read : nest? [] [] (lexemes true (print elements).toList) = some decided := by
    have whole := nested.nest?_append [] [] []
    rw [List.append_nil, List.append_nil] at whole
    rw [print, String.toList_ofList, lexemes_characters, whole]
    simp [nest?]
  have merged : (expand decided).map Variant.ofTokens =
      (symbolLists decided).map Variant.ofSymbols := by
    rw [symbolLists, List.map_map]
    apply List.map_congr_left
    intro tokens member
    rw [Variant.ofTokens, mergeLiterals_eq_foldr (empty_notMem_of_mem_expand read member)]
    rfl
  rw [compile, parts, read]
  simp only [Bind.bind, Except.bind, pure, Except.pure, merged, same, List.map_reverse,
    List.reverse_reverse]

example : print [
    .literal ⟨['/'], by simp⟩,
    .placeholder ⟨['i', 'd'], .oneOrMore, some "[a-z]{2}:".toList,
      ⟨'i', ['d'], rfl, rfl, by simp; rfl⟩, by
        intro regex given
        cases given
        exact ⟨by decide, by decide, by simp; rfl, by simp; rfl⟩⟩,
    .group [.literal ⟨['/', '}'], by simp⟩, .group []]] = "/{id+:[a-z]{2}:}[/\x7d[]]" := by
  cbv

end UrlRouting.Pattern
