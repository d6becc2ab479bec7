import UrlRouting.Table

/-!
Tables as functions from names: what a name stands for after a setting. Entries under names of their
own are set in order, and a table is given by its names in order and what they stand for.
-/

namespace UrlRouting.Table

variable {α : Type u}

theorem lookup_cons_eq (name first : String) (value : α) (others : List (String × α)) :
    ((first, value) :: others).lookup name =
      if name = first then some value else others.lookup name := by
  by_cases same : name = first
  · rw [if_pos same, same, List.lookup_cons_self]
  · rw [if_neg same, List.lookup_cons, beq_eq_false_iff_ne.mpr same]

theorem lookup_setEntry (name other : String) (value : α) (entries : List (String × α)) :
    (setEntry name value entries).lookup other =
      if other = name then some value else entries.lookup other := by
  induction entries with
  | nil => rw [setEntry, lookup_cons_eq]
  | cons entry others induction =>
      rcases entry with ⟨first, kept⟩
      rw [setEntry]
      split
      case isTrue same =>
        subst same
        rw [lookup_cons_eq, lookup_cons_eq]
        split <;> rfl
      case isFalse different =>
        rw [lookup_cons_eq, lookup_cons_eq, induction]
        by_cases equal : other = first
        · have notName : other ≠ name := fun same => different (equal.symm.trans same)
          rw [if_pos equal, if_neg notName, if_pos equal]
        · rw [if_neg equal, if_neg equal]

theorem get?_set (table : Table α) (name other : String) (value : α) :
    (table.set name value).get? other = if other = name then some value else table.get? other :=
  lookup_setEntry name other value table.entries

theorem get?_set_self (table : Table α) (name : String) (value : α) :
    (table.set name value).get? name = some value := by
  rw [get?_set, if_pos rfl]

theorem get?_set_of_ne (table : Table α) {name other : String} (value : α)
    (different : other ≠ name) : (table.set name value).get? other = table.get? other := by
  rw [get?_set, if_neg different]

@[simp] theorem get?_empty (name : String) : (empty : Table α).get? name = none := rfl

theorem eq_empty_of_isEmpty {table : Table α} (none : table.isEmpty = true) : table = empty := by
  rcases table with ⟨entries, distinct⟩
  cases List.isEmpty_iff.mp none
  rfl

theorem contains_eq_isSome_get? (table : Table α) (name : String) :
    table.contains name = (table.get? name).isSome := by
  rw [contains, get?]
  induction table.entries with
  | nil => rfl
  | cons entry others induction =>
      rcases entry with ⟨first, value⟩
      rw [List.any_cons, induction, lookup_cons_eq]
      by_cases same : name = first
      · simp [same]
      · simp [same, Ne.symm same]

theorem get?_filter (table : Table α) (keep : String → α → Bool) (name : String) :
    (table.filter keep).get? name = (table.get? name).filter (keep name) := by
  rcases table with ⟨entries, distinct⟩
  simp only [filter, get?]
  induction entries with
  | nil => rfl
  | cons entry others induction =>
      rcases entry with ⟨first, value⟩
      rw [List.map_cons, List.nodup_cons] at distinct
      have later := induction distinct.2
      by_cases same : name = first
      · subst same
        have absent : others.lookup name = none := by
          rw [List.lookup_eq_none_iff]
          intro other member
          rw [bne_iff_ne]
          intro equal
          exact distinct.1 (List.mem_map.mpr ⟨other, member, equal.symm⟩)
        rw [List.lookup_cons_self, Option.filter_some, List.filter_cons]
        split
        case isTrue => rw [List.lookup_cons_self]
        case isFalse => rw [later, absent, Option.filter_none]
      · rw [List.filter_cons, lookup_cons_eq, if_neg same]
        split
        case isTrue => rw [lookup_cons_eq, if_neg same, later]
        case isFalse => exact later

/-! ### Entries of different names -/

theorem setEntry_of_notMem {name : String} (value : α) {entries : List (String × α)}
    (absent : name ∉ entries.map Prod.fst) :
    setEntry name value entries = entries ++ [(name, value)] := by
  induction entries with
  | nil => rfl
  | cons entry others induction =>
      rw [List.map_cons, List.mem_cons, not_or] at absent
      rw [setEntry, if_neg (Ne.symm absent.1), induction absent.2, List.cons_append]

theorem entries_setAll {table : Table α} {entries : List (String × α)}
    (distinct : ((table.entries ++ entries).map Prod.fst).Nodup) :
    (table.setAll entries).entries = table.entries ++ entries := by
  induction entries generalizing table with
  | nil => rw [List.append_nil, setAll, List.foldl_nil]
  | cons entry others induction =>
      have absent : entry.1 ∉ table.entries.map Prod.fst := by
        rw [List.map_append, List.map_cons, List.nodup_append] at distinct
        intro member
        exact distinct.2.2 _ member _ (by simp) rfl
      have added : (table.set entry.1 entry.2).entries = table.entries ++ [entry] :=
        setEntry_of_notMem entry.2 absent
      have later := @induction (table.set entry.1 entry.2) (by
        rwa [added, List.append_assoc, List.singleton_append])
      rw [added, List.append_assoc, List.singleton_append] at later
      exact later

theorem entries_ofList {entries : List (String × α)} (distinct : (entries.map Prod.fst).Nodup) :
    (ofList entries).entries = entries :=
  entries_setAll distinct

theorem ext_entries {left right : Table α} (same : left.entries = right.entries) :
    left = right := by
  cases left
  cases right
  cases same
  rfl

theorem setEntry_eq_self {name : String} {value : α} {entries : List (String × α)}
    (known : entries.lookup name = some value) : setEntry name value entries = entries := by
  induction entries with
  | nil => cases known
  | cons entry others induction =>
      rcases entry with ⟨first, kept⟩
      rw [lookup_cons_eq] at known
      rw [setEntry]
      split
      case isTrue same =>
        cases same
        rw [if_pos rfl] at known
        rw [Option.some.inj known]
      case isFalse different =>
        rw [if_neg (Ne.symm different)] at known
        rw [induction known]

theorem setEntry_setEntry (name : String) (first second : α) (entries : List (String × α)) :
    setEntry name second (setEntry name first entries) = setEntry name second entries := by
  induction entries with
  | nil => simp [setEntry]
  | cons entry others induction => by_cases same : entry.1 = name <;> simp [setEntry, same, induction]

theorem set_get? {table : Table α} {name : String} {value : α}
    (known : table.get? name = some value) : table.set name value = table :=
  ext_entries (setEntry_eq_self known)

theorem set_set (table : Table α) (name : String) (first second : α) :
    (table.set name first).set name second = table.set name second :=
  ext_entries (setEntry_setEntry name first second table.entries)

theorem setAll_empty (table : Table α) : empty.setAll table.entries = table :=
  ext_entries (entries_ofList table.distinct)

theorem get?_setAll (table : Table α) (entries : List (String × α)) (name : String) :
    (table.setAll entries).get? name = ((ofList entries).get? name).or (table.get? name) := by
  induction entries generalizing table with
  | nil => rfl
  | cons entry others induction =>
      have here := induction (table.set entry.1 entry.2)
      have alone := induction (empty.set entry.1 entry.2)
      rw [show table.setAll (entry :: others) = (table.set entry.1 entry.2).setAll others from rfl,
        show ofList (entry :: others) = (empty.set entry.1 entry.2).setAll others from rfl, here,
        alone, get?_set, get?_set, Option.or_assoc, get?_empty]
      split <;> simp

theorem get?_ofList_append (first second : List (String × α)) (name : String) :
    (ofList (first ++ second)).get? name =
      ((ofList second).get? name).or ((ofList first).get? name) := by
  rw [show ofList (first ++ second) = (ofList first).setAll second from List.foldl_append,
    get?_setAll]

theorem get?_ofList_of_notMem {entries : List (String × α)} {name : String}
    (absent : name ∉ entries.map Prod.fst) : (ofList entries).get? name = none := by
  induction entries with
  | nil => rfl
  | cons entry others induction =>
      rw [List.map_cons, List.mem_cons, not_or] at absent
      rw [← List.singleton_append, get?_ofList_append, induction absent.2, Option.none_or]
      exact get?_set_of_ne _ _ absent.1

theorem notMem_map_fst_zip {names : List String} {values : List α} {name : String}
    (absent : name ∉ names) : name ∉ (names.zip values).map Prod.fst := by
  intro inZip
  rcases List.mem_map.mp inZip with ⟨⟨_, _⟩, member, rfl⟩
  exact absent (List.of_mem_zip member).1

theorem get?_ofList_of_last {before after : List (String × α)} {name : String} (value : α)
    (last : name ∉ after.map Prod.fst) :
    (ofList (before ++ (name, value) :: after)).get? name = some value := by
  rw [← List.singleton_append, get?_ofList_append, get?_ofList_append,
    get?_ofList_of_notMem last, Option.none_or,
    show (ofList [(name, value)]).get? name = some value from get?_set_self _ _ _, Option.some_or]

theorem get?_ofList_of_mem {entries : List (String × α)}
    (distinct : (entries.map Prod.fst).Nodup) {name : String} {value : α}
    (member : (name, value) ∈ entries) : (ofList entries).get? name = some value := by
  rcases List.append_of_mem member with ⟨before, after, rfl⟩
  apply get?_ofList_of_last
  rw [List.map_append, List.nodup_append] at distinct
  exact (List.nodup_cons.mp distinct.2.1).1

theorem mem_entries_iff {table : Table α} {name : String} {value : α} :
    (name, value) ∈ table.entries ↔ table.get? name = some value := by
  constructor
  · intro member
    have found := get?_ofList_of_mem table.distinct member
    rwa [ofList, setAll_empty] at found
  · intro found
    rcases List.lookup_eq_some_iff.mp found with ⟨before, after, split, -⟩
    rw [split]
    exact List.mem_append_right _ List.mem_cons_self

theorem get?_setAll_entries (table upper : Table α) (name : String) :
    (table.setAll upper.entries).get? name = (upper.get? name).or (table.get? name) := by
  rw [get?_setAll, ofList, setAll_empty]

theorem names_setAll (table : Table α) {entries : List (String × α)}
    (distinct : (entries.map Prod.fst).Nodup) :
    (table.setAll entries).names =
      table.names ++ (entries.map Prod.fst).filter (· ∉ table.names) := by
  induction entries generalizing table with
  | nil => simp [setAll]
  | cons entry others induction =>
      rw [List.map_cons, List.nodup_cons] at distinct
      have later := induction (table.set entry.1 entry.2) distinct.2
      have kept : (others.map Prod.fst).filter (· ∉ (table.set entry.1 entry.2).names) =
          (others.map Prod.fst).filter (· ∉ table.names) := by
        apply List.filter_congr
        intro name member
        have different : name ≠ entry.1 := fun equal => distinct.1 (equal ▸ member)
        rw [names_set]
        split <;> simp [different]
      rw [setAll, List.foldl_cons, ← setAll, later, kept, names_set]
      split
      case isTrue present => simp [present]
      case isFalse absent => simp [absent]

/-! ### Tables given by their names -/

variable (table : Table α)

theorem mem_names_iff {name : String} : name ∈ table.names ↔ (table.get? name).isSome = true := by
  rw [← contains_eq_isSome_get?, contains, List.any_eq_true, names, List.mem_map]
  simp only [beq_iff_eq]

theorem names_filter (keep : String → α → Bool) :
    (table.filter keep).names =
      table.names.filter fun name => (table.get? name).any (keep name) := by
  rw [names, filter, names, List.filter_map]
  congr 1
  apply List.filter_congr
  intro entry member
  rw [Function.comp_apply, mem_entries_iff.mp member, Option.any_some]

theorem get?_erase (name other : String) :
    (table.erase name).get? other = if other = name then none else table.get? other := by
  rw [show table.erase name = table.filter fun first _ => first != name from rfl, get?_filter]
  by_cases same : other = name
  · simp [same]
  · cases table.get? other <;> simp [same]

theorem entries_eq_filterMap_names :
    table.entries = table.names.filterMap fun name => (table.get? name).map (name, ·) := by
  have read : ∀ entries : List (String × α), entries ⊆ table.entries →
      entries =
        (entries.map Prod.fst).filterMap fun name => (table.get? name).map (name, ·) := by
    intro entries within
    induction entries with
    | nil => rfl
    | cons entry others induction =>
        rcases List.cons_subset.mp within with ⟨member, later⟩
        rw [List.map_cons, List.filterMap_cons, mem_entries_iff.mp member, ← induction later]
        rfl
  exact read table.entries (List.Subset.refl _)

end UrlRouting.Table
