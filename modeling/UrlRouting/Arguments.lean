import UrlRouting.Table

/-!
Argument bags for URL generation. A bag keeps its arguments in the order in which their names came;
setting a name again keeps its place. An argument may be null, which is not the same as absent: a
null argument can be laid over another one to take it away.
-/

namespace UrlRouting

structure Arguments where
  entries : Table (Option String)
  deriving DecidableEq, Inhabited

namespace Arguments

def empty : Arguments := { entries := .empty }

def names (arguments : Arguments) : List String :=
  arguments.entries.names

def size (arguments : Arguments) : Nat :=
  arguments.entries.size

def isEmpty (arguments : Arguments) : Bool :=
  arguments.entries.isEmpty

def contains (arguments : Arguments) (name : String) : Bool :=
  arguments.entries.contains name

/-- The value for a name, if its argument is there and not null. -/
def get? (arguments : Arguments) (name : String) : Option String :=
  (arguments.entries.get? name).bind id

def set (arguments : Arguments) (name : String) (value : Option String) : Arguments :=
  { entries := arguments.entries.set name value }

def erase (arguments : Arguments) (name : String) : Arguments :=
  { entries := arguments.entries.erase name }

def merge (arguments other : Arguments) : Arguments :=
  { entries := arguments.entries.setAll other.entries.entries }

def withoutNulls (arguments : Arguments) : Arguments :=
  { entries := arguments.entries.filter fun _ value => value.isSome }

def pairs (arguments : Arguments) : List (String × String) :=
  arguments.entries.entries.filterMap fun (name, value) => value.map fun value => (name, value)

def ofPairs (pairs : List (String × String)) : Arguments :=
  { entries := .ofList (pairs.map fun (name, value) => (name, some value)) }

def ofTable (table : Table String) : Arguments :=
  ofPairs (table.entries.mergeSort fun left right => !decide (right.1 < left.1))

end Arguments

end UrlRouting
