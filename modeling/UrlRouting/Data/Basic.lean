import UrlRouting.Table
import UrlRouting.Text.Utf8

/-!
Structured data, the common ground of the two formats in which routes, configurations and dispatch
trees are stored. A reader is a partial function from data to a type of the domain; it is told how
the format counts levels and given the number of levels that it may descend.

A record is read from a map by the names of its fields or from a list by their order. Fields that
are not known are skipped; a known field must not occur twice.
-/

namespace UrlRouting

inductive Data
  | null
  | bool (value : Bool)
  | unsigned (value : Nat)
  | signed (value : Int)
  | fraction
  | text (value : String)
  /-- A text with half of a surrogate pair, which can be skipped but not read. -/
  | unpairedText
  | bytes (value : List UInt8)
  /-- A value of a type that has no meaning here, which can be skipped but not read. -/
  | extension
  | list (items : List Data)
  | map (entries : List (Data × Data))
  deriving Inhabited

namespace Data

mutual

/-- The number of levels that data has by itself. A value of another type is inside of something. -/
def height : Data → Nat
  | list items => heightOfItems items + 1
  | map entries => heightOfEntries entries + 1
  | extension => 1
  | _ => 0

def heightOfItems : List Data → Nat
  | [] => 0
  | item :: others => max item.height (heightOfItems others)

def heightOfEntries : List (Data × Data) → Nat
  | [] => 0
  | (key, value) :: others => max (max key.height value.height) (heightOfEntries others)

end

example : (list [bool true, list [null], map []]).height = 2 := rfl

/-- What a format counts as a level besides the records, lists and maps that are read. -/
structure Counting where
  skipped : Bool
  /-- Whether a map that names one of several choices counts. -/
  choices : Bool

abbrev Reader (α : Type) := Counting → Nat → Data → Option α

def within {α : Type} (read : Reader α) : Reader α
  | _, 0, _ => none
  | counting, depth + 1, data => read counting depth data

def readText : Data → Option String
  | text value => some value
  | bytes value => (Text.Utf8.decode? value).map String.ofList
  | _ => none

def readBool : Data → Option Bool
  | bool value => some value
  | _ => none

def readSize : Data → Option Nat
  | unsigned value => if value < UInt64.size then some value else none
  | signed value => if 0 ≤ value ∧ value < UInt64.size then some value.toNat else none
  | _ => none

def readOption {α : Type} (read : Data → Option α) : Data → Option (Option α)
  | null => some none
  | data => (read data).map some

def readItems {α : Type} (read : Data → Option α) : Data → Option (List α)
  | list items => items.mapM read
  | bytes [] => some []
  | _ => none

def readList {α : Type} (read : Reader α) : Reader (List α)
  | _, _, bytes [] => some []
  | counting, depth, data =>
      within (fun counting depth => readItems (read counting depth)) counting depth data

def readTexts : Reader (List String) :=
  readList fun _ _ => readText

def readTable {α : Type} (read : Reader α) : Reader (Table α) :=
  within fun counting depth data =>
    match data with
    | map entries => do
        let entries ← entries.mapM fun entry => do
          return (← readText entry.1, ← read counting depth entry.2)
        return Table.ofList entries
    | _ => none

structure Fields where
  given : List (String × Data)
  ordered : Bool

namespace Fields

def get? (fields : Fields) (name : String) : Option Data :=
  fields.given.lookup name

end Fields

inductive Key
  | field (name : String)
  | unknown
  deriving DecidableEq

def readKey (names : List String) : Data → Option Key
  | text value => some (if value ∈ names then .field value else .unknown)
  | bytes value =>
      match (Text.Utf8.decode? value).map String.ofList with
      | some name => some (if name ∈ names then .field name else .unknown)
      | none => some .unknown
  | unsigned index =>
      match names[index]? with
      | some name => some (.field name)
      | none => some .unknown
  | _ => none

/-- Collect the fields from the entries of a map, refusing one that occurs twice. What is skipped
must not have more levels than there are left, if they count. -/
def collectFields (names : List String) (counting : Counting) (depth : Nat)
    (given : List (String × Data)) : List (Data × Data) → Option (List (String × Data))
  | [] => some given
  | (key, value) :: rest => do
      match ← readKey names key with
      | .unknown =>
          if counting.skipped && depth < value.height then none
          else collectFields names counting depth given rest
      | .field name =>
          if (given.lookup name).isSome then none
          else collectFields names counting depth (given ++ [(name, value)]) rest

def readFields (names : List String) : Reader Fields
  | counting, depth, map entries =>
      (collectFields names counting depth [] entries).map fun given => { given, ordered := false }
  | _, _, list items =>
      if items.length ≤ names.length then some { given := names.zip items, ordered := true }
      else none
  | _, _, _ => none

namespace Fields

variable {α : Type}

def required (fields : Fields) (name : String) (read : Data → Option α) : Option α := do
  read (← fields.get? name)

def withDefault (fields : Fields) (name : String) (read : Data → Option α) (default : α) :
    Option α :=
  match fields.get? name with
  | none => some default
  | some data => read data

/-- A field that may be left out of a map, but not of a list. -/
def optional (fields : Fields) (name : String) (read : Data → Option (Option α)) :
    Option (Option α) :=
  match fields.get? name with
  | none => if fields.ordered then none else some none
  | some data => read data

end Fields

end Data

end UrlRouting
