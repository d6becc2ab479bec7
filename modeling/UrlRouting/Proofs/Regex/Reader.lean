import Mathlib.Data.List.Forall2
import UrlRouting.Host
import UrlRouting.Proofs.Regex.Match

/-!
What the reader of expressions makes of texts that are put together from parts. A part reads as one
item if that is so whatever was read before and comes after; then the items of a whole are those of
its parts, in order.
-/

namespace UrlRouting.Regex

/-- Whether a text that stands outside of groups is read as one item with a property, whatever was
read before and comes after. -/
def ReadsAs (text : List Char) (property : Regex → Prop) : Prop :=
  ∀ (reader : Reader) (rest : List Char) (regex : Regex), reader.flags = {} →
    reader.groups = [] → reader.run? (text ++ rest) = some regex →
      ∃ item names captures, property item ∧
        ({ reader with names, captures, items := item :: reader.items }).run? rest = some regex

theorem ReadsAs.mono {text : List Char} {property other : Regex → Prop}
    (reads : ReadsAs text property) (weaker : ∀ item, property item → other item) :
    ReadsAs text other := by
  intro reader rest regex plain outside run
  rcases reads reader rest regex plain outside run with ⟨item, names, captures, holds, later⟩
  exact ⟨item, names, captures, weaker item holds, later⟩

variable {reader : Reader} {rest : List Char}

namespace Reader

theorem skip_of_plain (plain : reader.flags = {}) (text : List Char) :
    skip reader.flags text = text := by
  rw [plain]
  rfl

theorem run?_nil (plain : reader.flags = {}) : reader.run? [] = reader.finish? := by
  rw [run?, skip_of_plain plain]

theorem run?_of_step? (plain : reader.flags = {}) {character : Char} {next : Reader}
    {later : List Char} (step : reader.step? character rest = some (next, later))
    (shorter : later.length ≤ rest.length) :
    reader.run? (character :: rest) = next.run? later := by
  rw [run?, skip_of_plain plain]
  simp only [step]
  rw [if_pos (by rw [List.length_cons]; omega)]

/-! ### Single characters -/

theorem takeEscape?_of_isSpecial {character : Char} (special : isSpecial character = true)
    (flags : Flags) (rest : List Char) :
    takeEscape? flags (character :: rest) = some (.single character, rest) := by
  have known : "\\.+*?()|[]\x7b\x7d^$#&-~".toList.all (fun character =>
      (namedClass? character).isNone && (codeDigits? character).isNone &&
        (control? character).isNone && (look? character).isNone && isEscapable character) =
      true := by
    decide
  have here := List.all_eq_true.mp known character (List.contains_iff_mem.mp special)
  simp only [Bool.and_eq_true, Option.isNone_iff_eq_none] at here
  rcases here with ⟨⟨⟨⟨notNamed, notCode⟩, notControl⟩, notLook⟩, escapable⟩
  rw [takeEscape?, notNamed, notCode, notControl, notLook]
  exact if_pos escapable

theorem step?_of_not_isSpecial (plain : reader.flags = {}) {character : Char}
    (ordinary : isSpecial character = false) (rest : List Char) :
    reader.step? character rest = some (reader.push (.exactly character), rest) := by
  have known : ∀ special ∈ "\\.+*?()|[]\x7b\x7d^$#&-~".toList, character ≠ special := by
    intro special member equal
    rw [equal, isSpecial, ← Bool.not_eq_true] at ordinary
    exact ordinary (List.contains_iff_mem.mpr member)
  rw [step?.eq_def]
  split
  case h_13 => simp [plain, literal]
  all_goals exact absurd rfl (known _ (by decide))

end Reader

def escaped (character : Char) : List Char :=
  if isSpecial character then ['\\', character] else [character]

theorem readsAs_escaped (character : Char) :
    ReadsAs (escaped character) (· = .exactly character) := by
  intro reader rest regex plain _ run
  refine ⟨_, reader.names, reader.captures, rfl, ?_⟩
  rw [← run, escaped]
  split
  case isTrue special =>
    rw [List.cons_append, List.cons_append, List.nil_append]
    symm
    apply Reader.run?_of_step? plain
    · simp only [Reader.step?, Reader.takeEscape?_of_isSpecial special, Option.map_some]
      simp [Escape.regex, literal, plain, Reader.push]
    · exact Nat.le_succ _
  case isFalse ordinary =>
    symm
    exact Reader.run?_of_step? plain
      (Reader.step?_of_not_isSpecial plain (by simpa using ordinary) rest) (Nat.le_refl _)

/-! ### Groups -/

def grouped (text : List Char) : List Char :=
  '(' :: '?' :: ':' :: (text ++ [')'])

namespace Reader

def within (reader : Reader) (choices items : List Regex) : Reader :=
  { reader with
    groups := [{ choices := reader.choices, items := reader.items, flags := reader.flags,
                 capture := none }]
    choices, items }

theorem run?_openGroup (plain : reader.flags = {}) (outside : reader.groups = []) :
    reader.run? ('(' :: '?' :: ':' :: rest) = (reader.within [] []).run? rest := by
  apply run?_of_step? plain
  · have opened : reader.openGroup? reader.flags none = some (reader.within [] []) := by
      rw [openGroup?, outside, if_pos (by decide), within]
    simp [step?, takeGroup?, skip_of_plain plain, takeFlags?, opened]
  · simp only [List.length_cons]
    omega

theorem run?_closeGroup (plain : reader.flags = {}) (outside : reader.groups = [])
    (choices items : List Regex) :
    (reader.within choices items).run? (')' :: rest) =
      (reader.push (ofChoices (ofItems items.reverse :: choices).reverse)).run? rest := by
  apply run?_of_step? (show (reader.within choices items).flags = {} from plain)
  · simp [step?, closeGroup?, within, content, push, outside]
  · exact Nat.le_refl _

end Reader

def labelRegex : Regex :=
  .repetition (.characters (CharClass.ofRanges [.single '.']).complement) 1 none

theorem avoids_labelRegex : labelRegex.avoids '.' = true := by
  decide

theorem readsAs_label : ReadsAs (grouped "[^.]+".toList) (· = labelRegex) := by
  intro reader rest regex plain outside run
  refine ⟨_, reader.names, reader.captures, rfl, ?_⟩
  rw [← run, grouped]
  have inClass : (reader.within [] []).run? ('[' :: '^' :: '.' :: ']' :: '+' :: ')' :: rest) =
      (reader.within [] [.characters (CharClass.ofRanges [.single '.']).complement]).run?
        ('+' :: ')' :: rest) := by
    apply Reader.run?_of_step? (show (reader.within [] []).flags = {} from plain)
    · simp only [Reader.step?, Reader.within, plain]
      rfl
    · simp only [List.length_cons]
      omega
  have inRepetition : (reader.within []
      [.characters (CharClass.ofRanges [.single '.']).complement]).run? ('+' :: ')' :: rest) =
      (reader.within [] [labelRegex]).run? (')' :: rest) := by
    apply Reader.run?_of_step? (show (reader.within [] _).flags = {} from plain)
    · rfl
    · exact Nat.le_refl _
  have whole : grouped "[^.]+".toList ++ rest =
      '(' :: '?' :: ':' :: '[' :: '^' :: '.' :: ']' :: '+' :: ')' :: rest := rfl
  rw [grouped] at whole
  rw [whole, Reader.run?_openGroup plain outside, inClass, inRepetition,
    Reader.run?_closeGroup plain outside]
  rfl

theorem Reader.run?_words (plain : reader.flags = {}) (outside : reader.groups = [])
    {text : List Char}
    (ordinary : ∀ character ∈ text, character = '|' ∨ isSpecial character = false)
    {avoided : Char} (special : isSpecial avoided = true) {choices items : List Regex}
    (choicesAvoid : ∀ choice ∈ choices, choice.avoids avoided = true)
    (itemsAvoid : ∀ item ∈ items, item.avoids avoided = true) {regex : Regex}
    (run : (reader.within choices items).run? (text ++ ')' :: rest) = some regex) :
    ∃ item : Regex, item.avoids avoided = true ∧ (reader.push item).run? rest = some regex := by
  have choiceAvoids : (ofItems items.reverse).avoids avoided = true :=
    avoids_ofItems fun item member => itemsAvoid item (List.mem_reverse.mp member)
  induction text generalizing choices items with
  | nil =>
      rw [List.nil_append, run?_closeGroup plain outside] at run
      refine ⟨_, avoids_ofChoices fun choice member => ?_, run⟩
      rcases List.mem_cons.mp (List.mem_reverse.mp member) with rfl | inChoices
      · exact choiceAvoids
      · exact choicesAvoid choice inChoices
  | cons character text induction =>
      rw [List.forall_mem_cons] at ordinary
      have inside : (reader.within choices items).flags = {} := plain
      rw [List.cons_append] at run
      rcases ordinary.1 with rfl | itself
      · rw [run?_of_step? inside rfl (Nat.le_refl _)] at run
        exact induction ordinary.2 (by simpa using ⟨choiceAvoids, choicesAvoid⟩) (by simp) run rfl
      · rw [run?_of_step? inside (step?_of_not_isSpecial inside itself _) (Nat.le_refl _)] at run
        have different : Regex.avoids avoided (.exactly character) = true := by
          rw [Regex.avoids, bne_iff_ne]
          intro equal
          rw [equal, special] at itself
          cases itself
        have stillAvoid : ∀ item ∈ Regex.exactly character :: items,
            item.avoids avoided = true := by
          simpa using ⟨different, itemsAvoid⟩
        exact induction ordinary.2 choicesAvoid stillAvoid run
          (avoids_ofItems fun item member => stillAvoid item (List.mem_reverse.mp member))

/-- A text of ordinary characters, in which a bar stands between words, reads as an expression that
takes ordinary characters only. -/
theorem readsAs_words {text : List Char}
    (ordinary : ∀ character ∈ text, character = '|' ∨ isSpecial character = false)
    {avoided : Char} (special : isSpecial avoided = true) :
    ReadsAs (grouped text) (·.avoids avoided = true) := by
  intro reader rest regex plain outside run
  rw [grouped, List.cons_append, List.cons_append, List.cons_append, List.append_assoc,
    List.singleton_append, Reader.run?_openGroup plain outside] at run
  rcases Reader.run?_words plain outside ordinary special (by simp) (by simp) run with
    ⟨item, avoids, later⟩
  exact ⟨item, reader.names, reader.captures, avoids, later⟩

/-! ### Wholes -/

theorem run?_flatMap {α : Type} {source : α → List Char} {property : α → Regex → Prop}
    {parts : List α} (reads : ∀ part ∈ parts, ReadsAs (source part) (property part))
    {reader : Reader} {rest : List Char} {regex : Regex} (plain : reader.flags = {})
    (outside : reader.groups = [])
    (run : reader.run? (parts.flatMap source ++ rest) = some regex) :
    ∃ items names captures, List.Forall₂ property parts items ∧
      ({ reader with names, captures, items := items.reverse ++ reader.items }).run? rest =
        some regex := by
  induction parts generalizing reader with
  | nil => exact ⟨[], reader.names, reader.captures, .nil, run⟩
  | cons part others induction =>
      rw [List.forall_mem_cons] at reads
      rw [List.flatMap_cons, List.append_assoc] at run
      rcases reads.1 reader _ regex plain outside run with ⟨item, names, captures, holds, later⟩
      rcases @induction reads.2 { reader with names, captures, items := item :: reader.items }
        plain outside later with ⟨items, names, captures, each, last⟩
      refine ⟨item :: items, names, captures, .cons holds each, ?_⟩
      rwa [List.reverse_cons, List.append_assoc, List.singleton_append]

theorem exists_texts_of_takesInRow {α : Type} {property : α → Regex → Prop}
    {spells : α → List Char → Prop} {parts : List α} {items : List Regex} {taken : List Char}
    (each : ∀ part item, property part item → ∀ taken, item.Takes taken → spells part taken)
    (related : List.Forall₂ property parts items) (takes : TakesInRow items taken) :
    ∃ texts, List.Forall₂ spells parts texts ∧ taken = texts.flatten := by
  induction related generalizing taken with
  | nil => exact ⟨[], .nil, takes⟩
  | cons holds _ induction =>
      rcases takes with ⟨left, right, takesLeft, takesRight, rfl⟩
      rcases induction takesRight with ⟨texts, spelled, rfl⟩
      exact ⟨left :: texts, .cons (each _ _ holds left takesLeft) spelled, rfl⟩

theorem eq_concat_of_read? {α : Type} {source : α → List Char} {property : α → Regex → Prop}
    {parts : List α} (reads : ∀ part ∈ parts, ReadsAs (source part) (property part))
    {text : String} (whole : text.toList = '^' :: (parts.flatMap source ++ ['$'])) {regex : Regex}
    (read : read? text = some regex) :
    ∃ items, List.Forall₂ property parts items ∧
      regex = .concat (.look .textStart :: (items ++ [.look .textEnd])) := by
  rw [read?, whole, Reader.run?_of_step? rfl rfl (Nat.le_refl _)] at read
  rcases run?_flatMap reads rfl rfl read with ⟨items, names, captures, each, last⟩
  rw [Reader.run?_of_step? rfl rfl (Nat.le_refl _), Reader.run?_nil rfl, Reader.finish?] at last
  split at last
  case isFalse => cases last
  case isTrue =>
    refine ⟨items, each, ?_⟩
    have reversed : (Regex.look .textEnd :: (items.reverse ++ [.look .textStart])).reverse =
        .look .textStart :: (items ++ [.look .textEnd]) := by
      simp
    rw [← Option.some.inj last]
    refine (congrArg ofItems reversed).trans ?_
    cases items <;> rfl

end UrlRouting.Regex
