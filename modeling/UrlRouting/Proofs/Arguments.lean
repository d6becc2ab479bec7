import UrlRouting.Arguments
import UrlRouting.Proofs.Table

/-!
Argument bags as functions from names. Dropping null arguments changes no value, and leaves just the
arguments that have one.
-/

namespace UrlRouting.Arguments

variable (arguments : Arguments)

theorem get?_withoutNulls (name : String) :
    arguments.withoutNulls.get? name = arguments.get? name := by
  rw [get?, withoutNulls, Table.get?_filter, get?]
  cases arguments.entries.get? name with
  | none => rfl
  | some value => cases value <;> rfl

theorem contains_withoutNulls (name : String) :
    arguments.withoutNulls.contains name = (arguments.get? name).isSome := by
  rw [contains, withoutNulls, Table.contains_eq_isSome_get?, Table.get?_filter, get?]
  cases arguments.entries.get? name with
  | none => rfl
  | some value => cases value <;> rfl

theorem empty_merge : empty.merge arguments = arguments := by
  rw [merge, empty, Table.setAll_empty]

theorem merge_empty : arguments.merge empty = arguments :=
  rfl

theorem get?_merge (other : Arguments) (name : String) :
    (arguments.merge other.withoutNulls).get? name =
      (other.get? name).or (arguments.get? name) := by
  rw [← get?_withoutNulls other, get?, merge, Table.get?_setAll_entries, get?, get?]
  rw [withoutNulls, Table.get?_filter]
  cases other.entries.get? name with
  | none => rfl
  | some value => cases value <;> rfl

theorem contains_merge (other : Arguments) (name : String) :
    (arguments.merge other.withoutNulls).contains name =
      ((other.get? name).isSome || arguments.contains name) := by
  rw [← contains_withoutNulls, contains, merge, Table.contains_eq_isSome_get?,
    Table.get?_setAll_entries, Option.isSome_or, contains, contains,
    Table.contains_eq_isSome_get?, Table.contains_eq_isSome_get?]

theorem get?_merge_eq_ite (other : Arguments) (name : String) :
    (arguments.merge other).get? name =
      if other.contains name then other.get? name else arguments.get? name := by
  rw [get?, merge, Table.get?_setAll_entries, contains, Table.contains_eq_isSome_get?, get?, get?]
  cases other.entries.get? name <;> rfl

theorem get?_eq_none_of_contains_eq_false {name : String}
    (absent : arguments.contains name = false) : arguments.get? name = none := by
  rw [contains, Table.contains_eq_isSome_get?, Option.isSome_eq_false_iff,
    Option.isNone_iff_eq_none] at absent
  rw [get?, absent]
  rfl

theorem names_erase (name : String) :
    (arguments.erase name).names = arguments.names.filter (· != name) := by
  simp [names, Table.names, erase, Table.erase, List.filter_map, Function.comp_def]

theorem mem_names_eraseAll_iff {names : List String} {name : String} :
    name ∈ (names.foldl erase arguments).names ↔ name ∈ arguments.names ∧ name ∉ names := by
  induction names generalizing arguments with
  | nil => simp
  | cons first rest induction =>
      rw [List.foldl_cons, induction, names_erase, List.mem_filter, bne_iff_ne, List.mem_cons,
        not_or, and_assoc]

theorem pairs_eq_nil {arguments : Arguments} (unnamed : arguments.names = []) :
    arguments.pairs = [] := by
  have none : arguments.entries.entries = [] := List.map_eq_nil_iff.mp unnamed
  rw [pairs, none, List.filterMap_nil]

/-! ### Names and values -/

theorem mem_pairs_iff {name value : String} :
    (name, value) ∈ arguments.pairs ↔ arguments.get? name = some value := by
  rw [get?, Option.bind_eq_some_iff, pairs, List.mem_filterMap]
  constructor
  · rintro ⟨⟨other, kept⟩, member, pair⟩
    rcases Option.map_eq_some_iff.mp pair with ⟨text, rfl, equal⟩
    cases equal
    exact ⟨some value, Table.mem_entries_iff.mp member, rfl⟩
  · rintro ⟨kept, known, rfl⟩
    exact ⟨(name, some value), Table.mem_entries_iff.mpr known, rfl⟩

theorem get?_eq_none_iff {name : String} :
    arguments.get? name = none ↔ name ∉ arguments.pairs.map Prod.fst := by
  rw [Option.eq_none_iff_forall_ne_some, List.mem_map, Prod.exists]
  simp [mem_pairs_iff]

theorem names_pairs : arguments.pairs.map Prod.fst = arguments.withoutNulls.names := by
  simp only [pairs, names, Table.names, withoutNulls, Table.filter]
  induction arguments.entries.entries with
  | nil => rfl
  | cons entry others induction =>
      rcases entry with ⟨name, _ | value⟩
      · exact induction
      · exact congrArg (name :: ·) induction

theorem nodup_names_pairs : (arguments.pairs.map Prod.fst).Nodup := by
  rw [names_pairs]
  exact Table.nodup_names _

@[simp] theorem pairs_withoutNulls : arguments.withoutNulls.pairs = arguments.pairs := by
  simp only [pairs, withoutNulls, Table.filter]
  induction arguments.entries.entries with
  | nil => rfl
  | cons entry others induction =>
      rcases entry with ⟨name, _ | value⟩
      · exact induction
      · exact congrArg ((name, value) :: ·) induction

theorem pairs_erase (name : String) :
    (arguments.erase name).pairs = arguments.pairs.filter (·.1 ≠ name) := by
  simp only [pairs, erase, Table.erase]
  induction arguments.entries.entries with
  | nil => rfl
  | cons entry others induction =>
      rcases entry with ⟨other, _ | value⟩
      · by_cases same : other = name <;> simpa [same] using induction
      · by_cases same : other = name <;> simpa [same] using induction

theorem pairs_eraseAll (names : List String) :
    (names.foldl erase arguments).pairs = arguments.pairs.filter (·.1 ∉ names) := by
  induction names generalizing arguments with
  | nil => exact (List.filter_eq_self.mpr (by simp)).symm
  | cons name others induction =>
      rw [List.foldl_cons, induction, pairs_erase, List.filter_filter]
      apply List.filter_congr
      intro pair _
      simp [Bool.and_comm]

theorem pairs_set {name : String} (unknown : arguments.contains name = false) (value : String) :
    (arguments.set name (some value)).pairs = arguments.pairs ++ [(name, value)] := by
  have absent : name ∉ arguments.entries.entries.map Prod.fst := by
    intro member
    rcases List.mem_map.mp member with ⟨entry, inEntries, rfl⟩
    have known : arguments.contains entry.1 = true :=
      List.any_eq_true.mpr ⟨entry, inEntries, beq_self_eq_true _⟩
    rw [unknown] at known
    cases known
  simp only [pairs, set, Table.set]
  rw [Table.setEntry_of_notMem _ absent, List.filterMap_append]
  rfl

theorem contains_set (name other : String) (value : Option String) :
    (arguments.set name value).contains other =
      (decide (other = name) || arguments.contains other) := by
  rw [contains, contains, Table.contains_eq_isSome_get?, Table.contains_eq_isSome_get?, set,
    Table.get?_set]
  split <;> simp_all

theorem pairs_foldl_set {pairs : List (String × String)} (distinct : (pairs.map Prod.fst).Nodup) :
    (pairs.foldl
      (fun bag pair => if bag.contains pair.1 then bag else bag.set pair.1 (some pair.2))
      arguments).pairs =
      arguments.pairs ++ pairs.filter (!arguments.contains ·.1) := by
  induction pairs generalizing arguments with
  | nil => simp
  | cons pair others induction =>
      rw [List.map_cons, List.nodup_cons] at distinct
      rw [List.foldl_cons, induction _ distinct.2]
      split
      case isTrue known => simp [known]
      case isFalse unknown =>
        have unknown := Bool.eq_false_iff.mpr unknown
        have kept : others.filter (!(arguments.set pair.1 (some pair.2)).contains ·.1) =
            others.filter (!arguments.contains ·.1) := by
          apply List.filter_congr
          intro other member
          have different : other.1 ≠ pair.1 := fun same =>
            distinct.1 (same ▸ List.mem_map_of_mem member)
          simp [contains_set, different]
        rw [kept, pairs_set _ unknown, List.filter_cons]
        simp [unknown]

theorem names_merge (other : Arguments) :
    (arguments.merge other).names =
      arguments.names ++ other.names.filter (· ∉ arguments.names) :=
  Table.names_setAll arguments.entries other.entries.distinct

/-! ### Bags of pairs and of tables -/

theorem pairs_ofPairs {pairs : List (String × String)} (distinct : (pairs.map Prod.fst).Nodup) :
    (ofPairs pairs).pairs = pairs := by
  rw [Arguments.pairs, ofPairs, Table.entries_ofList (by simpa [Function.comp_def] using distinct),
    List.filterMap_map]
  exact List.filterMap_some

theorem withoutNulls_ofPairs {pairs : List (String × String)}
    (distinct : (pairs.map Prod.fst).Nodup) : (ofPairs pairs).withoutNulls = ofPairs pairs := by
  rw [withoutNulls, mk.injEq]
  apply Table.ext_entries
  apply List.filter_eq_self.mpr
  rw [ofPairs, Table.entries_ofList (by simpa [Function.comp_def] using distinct)]
  intro entry member
  rcases List.mem_map.mp member with ⟨pair, -, rfl⟩
  rfl

variable (table : Table String)

theorem pairs_ofTable :
    (ofTable table).pairs =
      table.entries.mergeSort fun left right => !decide (right.1 < left.1) :=
  pairs_ofPairs (((List.mergeSort_perm _ _).map Prod.fst).nodup_iff.mpr table.distinct)

theorem withoutNulls_ofTable : (ofTable table).withoutNulls = ofTable table :=
  withoutNulls_ofPairs (((List.mergeSort_perm _ _).map Prod.fst).nodup_iff.mpr table.distinct)

@[simp] theorem get?_ofTable (name : String) : (ofTable table).get? name = table.get? name := by
  apply Option.ext
  intro value
  rw [← mem_pairs_iff, pairs_ofTable, List.mem_mergeSort, Table.mem_entries_iff]

@[simp] theorem contains_ofTable (name : String) :
    (ofTable table).contains name = table.contains name := by
  rw [← withoutNulls_ofTable, contains_withoutNulls, get?_ofTable, Table.contains_eq_isSome_get?]

theorem pairwise_pairs_ofTable :
    (ofTable table).pairs.Pairwise fun left right => left.1 < right.1 := by
  have sorted : (ofTable table).pairs.Pairwise fun left right =>
      (!decide (right.1 < left.1)) = true := by
    rw [pairs_ofTable]
    apply List.pairwise_mergeSort
    · intro first second third
      simp only [Bool.not_eq_true', decide_eq_false_iff_not, String.not_lt]
      exact String.le_trans
    · intro first second
      simp only [Bool.or_eq_true, Bool.not_eq_true', decide_eq_false_iff_not, String.not_lt]
      exact String.le_total first.1 second.1
  have distinct := List.pairwise_map.mp (ofTable table).nodup_names_pairs
  apply List.Pairwise.imp₂ _ sorted distinct
  intro left right notAfter different
  simp only [Bool.not_eq_true', decide_eq_false_iff_not, String.not_lt] at notAfter
  by_cases before : left.1 < right.1
  · exact before
  · exact absurd (String.le_antisymm notAfter (String.not_lt.mp before)) different

end UrlRouting.Arguments
