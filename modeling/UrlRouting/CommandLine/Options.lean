import UrlRouting.Text.Fields

/-!
Options on a command line. An option is known by a long name after two hyphens and perhaps by a
letter after one; a flag stands alone, any other option takes a value, which is attached to it or is
the next word. All other words are operands. Reading enters each option and operand into a record,
which says by itself what may be given and how often.
-/

namespace UrlRouting.CommandLine

inductive Refusal
  | help
  | version
  | misuse
  deriving DecidableEq

abbrev Enter (σ : Type) := String → σ → Except Refusal σ

inductive Effect (σ : Type)
  | flag (enter : σ → Except Refusal σ)
  | value (enter : Enter σ)

structure OptionRule (σ : Type) where
  name : String
  letter : Option Char := none
  effect : Effect σ

inductive Operands (σ : Type)
  | stop
  | each (enter : Enter σ)

structure Grammar (σ : Type) where
  options : List (OptionRule σ)
  operands : Operands σ

inductive Form
  | operand
  | endOfOptions
  | long (body : List Char)
  | letters (letters : List Char)
  deriving DecidableEq

namespace Form

def ofWord (word : String) : Form :=
  match word.toList with
  | ['-', '-'] => endOfOptions
  | '-' :: '-' :: body => long body
  | '-' :: letter :: rest => letters (letter :: rest)
  | _ => operand

example : ofWord "--" = .endOfOptions := by decide

example : ofWord "-" = .operand := by decide

example : ofWord "-xy" = .letters ['x', 'y'] := by decide

end Form

namespace Grammar

variable {σ : Type}

abbrev Entered (σ : Type) := σ × Option (Enter σ)

def enterLong (grammar : Grammar σ) (body : List Char) (record : σ) :
    Except Refusal (Entered σ) :=
  let (name, attached) :=
    match Text.cutFirst? '=' body with
    | some (name, value) => (name, some (String.ofList value))
    | none => (body, none)
  match grammar.options.find? (·.name == String.ofList name) with
  | none => .error .misuse
  | some rule =>
      match rule.effect, attached with
      | .flag enter, none => (enter record).map (·, none)
      | .flag _, some _ => .error .misuse
      | .value enter, none => .ok (record, some enter)
      | .value enter, some value => (enter value record).map (·, none)

def enterLetters (grammar : Grammar σ) : List Char → σ → Except Refusal (Entered σ)
  | [], record => .ok (record, none)
  | letter :: rest, record =>
      match grammar.options.find? (·.letter == some letter) with
      | none => .error .misuse
      | some rule =>
          match rule.effect with
          | .flag enter => do grammar.enterLetters rest (← enter record)
          | .value enter =>
              match rest with
              | [] => .ok (record, some enter)
              | '=' :: value => (enter (String.ofList value) record).map (·, none)
              | value => (enter (String.ofList value) record).map (·, none)

/-- Read words into a record. The result also has the words that are left, beginning with the
operand that ended the reading. Where operands end the reading, no operand may follow the end of
options. -/
def read (grammar : Grammar σ) : Option (Enter σ) → List String → σ →
    Except Refusal (σ × List String)
  | none, [], record => .ok (record, [])
  | some _, [], _ => .error .misuse
  | some enter, word :: words, record =>
      match Form.ofWord word with
      | .operand => do grammar.read none words (← enter word record)
      | _ => .error .misuse
  | none, word :: words, record =>
      match Form.ofWord word with
      | .operand =>
          match grammar.operands with
          | .stop => .ok (record, word :: words)
          | .each enter => do grammar.read none words (← enter word record)
      | .endOfOptions =>
          match grammar.operands with
          | .stop => .error .misuse
          | .each enter => return (← words.foldlM (fun record word => enter word record) record, [])
      | .long body => do
          let (record, waiting) ← grammar.enterLong body record
          grammar.read waiting words record
      | .letters letters => do
          let (record, waiting) ← grammar.enterLetters letters record
          grammar.read waiting words record

end Grammar

end UrlRouting.CommandLine
