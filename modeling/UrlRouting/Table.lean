/-!
Tables from names to values. A table keeps its entries in the order in which the names were first
set; setting a name again replaces the value in place. Each name occurs once, so what a name stands
for does not depend on that order.
-/

namespace UrlRouting

namespace Table

def setEntry {α : Type u} (name : String) (value : α) :
    List (String × α) → List (String × α)
  | [] => [(name, value)]
  | entry :: others =>
      if entry.1 = name then (name, value) :: others else entry :: setEntry name value others

theorem names_setEntry {α : Type u} (name : String) (value : α)
    (entries : List (String × α)) :
    (setEntry name value entries).map Prod.fst =
      if name ∈ entries.map Prod.fst then entries.map Prod.fst
      else entries.map Prod.fst ++ [name] := by
  induction entries with
  | nil => simp [setEntry]
  | cons entry others induction =>
      unfold setEntry
      split
      case isTrue equal => simp [equal]
      case isFalse different =>
        have different' : ¬ name = entry.1 := fun equal => different equal.symm
        rw [List.map_cons, induction]
        by_cases member : name ∈ others.map Prod.fst
        · rw [if_pos member,
            if_pos (by simp only [List.map_cons, List.mem_cons]; exact .inr member)]
          rfl
        · rw [if_neg member, if_neg]
          · rfl
          · simp only [List.map_cons, List.mem_cons, not_or]
            exact ⟨different', member⟩

theorem nodup_names_setEntry {α : Type u} (name : String) (value : α)
    {entries : List (String × α)} (distinct : (entries.map Prod.fst).Nodup) :
    ((setEntry name value entries).map Prod.fst).Nodup := by
  rw [names_setEntry]
  split
  case isTrue => exact distinct
  case isFalse absent =>
    rw [List.nodup_append]
    refine ⟨distinct, by simp, ?_⟩
    intro present member other last
    simp only [List.mem_singleton] at last
    subst last
    exact fun equal => absent (equal ▸ member)

end Table

structure Table (α : Type u) where
  entries : List (String × α)
  distinct : (entries.map Prod.fst).Nodup := by simp

namespace Table

variable {α : Type u}

instance [DecidableEq α] : DecidableEq (Table α) := fun left right =>
  if equal : left.entries = right.entries then
    .isTrue (by cases left; cases right; simp_all)
  else
    .isFalse (fun same => equal (same ▸ rfl))

def empty : Table α := { entries := [] }

instance : Inhabited (Table α) := ⟨empty⟩

def names (table : Table α) : List String :=
  table.entries.map Prod.fst

def values (table : Table α) : List α :=
  table.entries.map Prod.snd

def size (table : Table α) : Nat :=
  table.entries.length

def isEmpty (table : Table α) : Bool :=
  table.entries.isEmpty

def get? (table : Table α) (name : String) : Option α :=
  table.entries.lookup name

def contains (table : Table α) (name : String) : Bool :=
  table.entries.any (·.1 == name)

def set (table : Table α) (name : String) (value : α) : Table α where
  entries := setEntry name value table.entries
  distinct := nodup_names_setEntry name value table.distinct

def erase (table : Table α) (name : String) : Table α where
  entries := table.entries.filter (·.1 != name)
  distinct := table.distinct.sublist (List.filter_sublist.map _)

def filter (table : Table α) (keep : String → α → Bool) : Table α where
  entries := table.entries.filter fun entry => keep entry.1 entry.2
  distinct := table.distinct.sublist (List.filter_sublist.map _)

def setAll (table : Table α) (entries : List (String × α)) : Table α :=
  entries.foldl (fun table entry => table.set entry.1 entry.2) table

def ofList (entries : List (String × α)) : Table α :=
  empty.setAll entries

theorem nodup_names (table : Table α) : table.names.Nodup :=
  table.distinct

theorem names_set (table : Table α) (name : String) (value : α) :
    (table.set name value).names =
      if name ∈ table.names then table.names else table.names ++ [name] :=
  names_setEntry name value table.entries

end Table

end UrlRouting
