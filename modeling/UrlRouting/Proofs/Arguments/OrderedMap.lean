import Mathlib.Data.List.Basic
import UrlRouting.Proofs.Arguments

/-!
Argument bags as maps that know the order in which names were inserted. Whatever operations made a
bag, it looks like the map on which the same operations were carried out. A bag is given by its map,
so the laws of laying one map over another hold for bags, their order included.
-/

namespace UrlRouting

/-! ### Ordered maps -/

/-- A map from names to arguments, of which some are null, with the names in the order in which they
were inserted. -/
structure OrderedMap where
  order : List String
  entry : String → Option (Option String)

namespace OrderedMap

@[ext] theorem ext {map other : OrderedMap} (order : map.order = other.order)
    (entry : ∀ name, map.entry name = other.entry name) : map = other := by
  cases map
  cases other
  cases order
  cases funext entry
  rfl

def empty : OrderedMap where
  order := []
  entry := fun _ => none

/-- The map with an argument, be it null. A name that is there keeps its place, and a new one comes
last. -/
def insert (map : OrderedMap) (name : String) (argument : Option String) : OrderedMap where
  order := if name ∈ map.order then map.order else map.order ++ [name]
  entry := fun other => if other = name then some argument else map.entry other

def remove (map : OrderedMap) (name : String) : OrderedMap where
  order := map.order.filter (· != name)
  entry := fun other => if other = name then none else map.entry other

/-- The map with another one laid over it: its own names first, then the new ones. -/
def overlay (map other : OrderedMap) : OrderedMap where
  order := map.order ++ other.order.filter (· ∉ map.order)
  entry := fun name => (other.entry name).or (map.entry name)

def dropNulls (map : OrderedMap) : OrderedMap where
  order := map.order.filter fun name => map.entry name ≠ some none
  entry := fun name => (map.entry name).filter Option.isSome

def collect (pairs : List (String × String)) : OrderedMap :=
  pairs.foldl (fun map pair => map.insert pair.1 (some pair.2)) empty

theorem overlay_assoc (first second third : OrderedMap) :
    (first.overlay second).overlay third = first.overlay (second.overlay third) := by
  apply ext
  · simp only [overlay, List.filter_append, List.append_assoc, List.filter_filter]
    congr 2
    apply List.filter_congr
    intro name _
    by_cases inFirst : name ∈ first.order <;> simp [inFirst]
  · intro name
    exact Option.or_assoc.symm

theorem overlay_self (map : OrderedMap) : map.overlay map = map := by
  apply ext
  · simp [overlay]
  · intro name
    exact Option.or_self

end OrderedMap

namespace Arguments

/-! ### Bags as ordered maps -/

def ordered (arguments : Arguments) : OrderedMap where
  order := arguments.names
  entry := arguments.entries.get?

theorem eq_of_ordered_eq {arguments other : Arguments} (same : arguments.ordered = other.ordered) :
    arguments = other := by
  have names : arguments.entries.names = other.entries.names := congrArg OrderedMap.order same
  have entries : arguments.entries.get? = other.entries.get? := congrArg OrderedMap.entry same
  cases arguments
  cases other
  rw [mk.injEq]
  apply Table.ext_entries
  rw [Table.entries_eq_filterMap_names, Table.entries_eq_filterMap_names, names, entries]

variable (arguments other : Arguments)

theorem ordered_set (name : String) (argument : Option String) :
    (arguments.set name argument).ordered = arguments.ordered.insert name argument := by
  apply OrderedMap.ext
  · exact Table.names_set arguments.entries name argument
  · intro other
    exact Table.get?_set arguments.entries name other argument

theorem ordered_erase (name : String) :
    (arguments.erase name).ordered = arguments.ordered.remove name := by
  apply OrderedMap.ext
  · exact names_erase arguments name
  · exact Table.get?_erase arguments.entries name

theorem ordered_merge :
    (arguments.merge other).ordered = arguments.ordered.overlay other.ordered := by
  apply OrderedMap.ext
  · exact names_merge arguments other
  · exact Table.get?_setAll_entries arguments.entries other.entries

theorem ordered_withoutNulls : arguments.withoutNulls.ordered = arguments.ordered.dropNulls := by
  apply OrderedMap.ext
  · refine (Table.names_filter arguments.entries _).trans (List.filter_congr ?_)
    intro name member
    rcases Option.isSome_iff_exists.mp (arguments.entries.mem_names_iff.mp member) with
      ⟨argument, known⟩
    cases argument <;> simp [ordered, known]
  · exact Table.get?_filter arguments.entries _

theorem ordered_setAll (pairs : List (String × String)) :
    ordered { entries := arguments.entries.setAll (pairs.map fun (name, value) =>
        (name, some value)) } =
      pairs.foldl (fun map pair => map.insert pair.1 (some pair.2)) arguments.ordered := by
  induction pairs generalizing arguments with
  | nil => rfl
  | cons pair others induction =>
      have later := induction (arguments.set pair.1 (some pair.2))
      rw [ordered_set] at later
      exact later

theorem ordered_ofPairs (pairs : List (String × String)) :
    (ofPairs pairs).ordered = .collect pairs :=
  empty.ordered_setAll pairs

/-! ### The laws of merging -/

variable (another : Arguments)

theorem merge_assoc :
    (arguments.merge other).merge another = arguments.merge (other.merge another) := by
  apply eq_of_ordered_eq
  simp only [ordered_merge, OrderedMap.overlay_assoc]

theorem merge_self : arguments.merge arguments = arguments := by
  apply eq_of_ordered_eq
  rw [ordered_merge, OrderedMap.overlay_self]

theorem merge_merge_self : (arguments.merge other).merge other = arguments.merge other := by
  rw [merge_assoc, merge_self]

theorem names_erase_set (name : String) (argument : Option String) :
    ((arguments.erase name).set name argument).names =
      arguments.names.filter (· != name) ++ [name] := by
  have absent : name ∉ (arguments.erase name).names := by simp [names_erase]
  rw [← names_erase]
  exact (Table.names_set _ name argument).trans (if_neg absent)

/-! ### Runs of operations -/

inductive Operation
  | set (name : String) (argument : Option String)
  | erase (name : String)
  | merge (other : Arguments)
  | withoutNulls
  | ofPairs (pairs : List (String × String))

namespace Operation

def apply (arguments : Arguments) : Operation → Arguments
  | set name argument => arguments.set name argument
  | erase name => arguments.erase name
  | merge other => arguments.merge other
  | withoutNulls => arguments.withoutNulls
  | ofPairs pairs => .ofPairs pairs

def applyOrdered (map : OrderedMap) : Operation → OrderedMap
  | set name argument => map.insert name argument
  | erase name => map.remove name
  | merge other => map.overlay other.ordered
  | withoutNulls => map.dropNulls
  | ofPairs pairs => .collect pairs

theorem ordered_apply (operation : Operation) (arguments : Arguments) :
    (operation.apply arguments).ordered = operation.applyOrdered arguments.ordered := by
  cases operation with
  | set name argument => exact ordered_set arguments name argument
  | erase name => exact ordered_erase arguments name
  | merge other => exact ordered_merge arguments other
  | withoutNulls => exact ordered_withoutNulls arguments
  | ofPairs pairs => exact ordered_ofPairs pairs

theorem ordered_foldl_apply (operations : List Operation) (arguments : Arguments) :
    (operations.foldl apply arguments).ordered =
      operations.foldl applyOrdered arguments.ordered := by
  induction operations generalizing arguments with
  | nil => rfl
  | cons operation others induction =>
      rw [List.foldl_cons, List.foldl_cons, induction, ordered_apply]

end Operation

/-- Whether a bag answers every question as a map does, which has each of its names once. -/
structure LooksLike (arguments : Arguments) (map : OrderedMap) : Prop where
  distinct : map.order.Nodup
  names : arguments.names = map.order
  entry : ∀ name, arguments.entries.get? name = map.entry name
  contains : ∀ name, arguments.contains name = (map.entry name).isSome
  get? : ∀ name, arguments.get? name = (map.entry name).join
  pairs : arguments.pairs =
    map.order.filterMap fun name => (map.entry name).join.map (name, ·)

theorem looksLike_ordered : arguments.LooksLike arguments.ordered where
  distinct := arguments.entries.nodup_names
  names := rfl
  entry := fun _ => rfl
  contains := arguments.entries.contains_eq_isSome_get?
  get? := fun _ => rfl
  pairs := by
    rw [pairs, Table.entries_eq_filterMap_names, List.filterMap_filterMap]
    apply List.filterMap_congr
    intro name _
    simp only [ordered]
    cases arguments.entries.get? name <;> rfl

/-- An argument bag is a map that knows the order in which names were inserted. After any operations
it looks like the map to which the same was done. Setting a name again keeps its place, setting it
after it was erased puts it last, and a null argument is there while an erased one is not. So
merging is associative, with the empty bag as its unit; what is merged again changes nothing; and
a merged name stands for what the upper bag has for it, be it null, and else for what it stood for.
-/
theorem acts_as_ordered_map :
    (∀ operations : List Operation,
      (operations.foldl Operation.apply empty).LooksLike
        (operations.foldl Operation.applyOrdered .empty)) ∧
    (∀ bag name argument,
      (set bag name argument).names =
        (if name ∈ bag.names then bag.names else bag.names ++ [name]) ∧
      ((erase bag name).set name argument).names = bag.names.filter (· != name) ++ [name] ∧
      (set bag name none).contains name = true ∧ (set bag name none).get? name = none ∧
      (erase bag name).contains name = false) ∧
    (∀ bag other another, (merge bag other).merge another = bag.merge (other.merge another)) ∧
    (∀ bag, merge bag empty = bag ∧ empty.merge bag = bag ∧ bag.merge bag = bag) ∧
    (∀ bag other, (merge bag other).merge other = bag.merge other) ∧
    ∀ bag other name, (merge bag other).entries.get? name =
      (other.entries.get? name).or (bag.entries.get? name) := by
  refine ⟨fun operations => ?_, fun bag name argument => ⟨?_, ?_, ?_, ?_, ?_⟩, merge_assoc,
    fun bag => ⟨bag.merge_empty, bag.empty_merge, bag.merge_self⟩, merge_merge_self,
    fun bag other => Table.get?_setAll_entries bag.entries other.entries⟩
  · have same := Operation.ordered_foldl_apply operations empty
    exact same ▸ looksLike_ordered _
  · exact Table.names_set bag.entries name argument
  · exact names_erase_set bag name argument
  · simp [contains_set]
  · rw [get?, set, Table.get?_set_self]
    rfl
  · rw [contains, erase, Table.contains_eq_isSome_get?, Table.get?_erase, if_pos rfl]
    rfl

end Arguments

end UrlRouting
