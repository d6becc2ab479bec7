import UrlRouting.Data.Basic
import UrlRouting.Proofs.Table

/-!
Data read back as it is written: lists, tables and records. Each of them costs one of the levels
that may be descended, so what is written is read if it has no more levels than there are.
-/

namespace UrlRouting.Data

theorem heightOfItems_le_iff {items : List Data} {depth : Nat} :
    heightOfItems items ≤ depth ↔ ∀ item ∈ items, item.height ≤ depth := by
  induction items with
  | nil => simp [heightOfItems]
  | cons item others induction =>
      rw [heightOfItems, Nat.max_le, induction, List.forall_mem_cons]

theorem heightOfEntries_le_iff {entries : List (Data × Data)} {depth : Nat} :
    heightOfEntries entries ≤ depth ↔
      ∀ entry ∈ entries, entry.1.height ≤ depth ∧ entry.2.height ≤ depth := by
  induction entries with
  | nil => simp [heightOfEntries]
  | cons entry others induction =>
      simp only [heightOfEntries, List.forall_mem_cons, ← induction]
      omega

theorem height_list_le_iff {items : List Data} {depth : Nat} :
    (list items).height ≤ depth ↔
      ∃ below, depth = below + 1 ∧ ∀ item ∈ items, item.height ≤ below := by
  rw [height]
  constructor
  · intro shallow
    refine ⟨depth - 1, by omega, heightOfItems_le_iff.mp (by omega)⟩
  · rintro ⟨below, rfl, each⟩
    exact Nat.succ_le_succ (heightOfItems_le_iff.mpr each)

def named (fields : List (String × Data)) : Data :=
  map (fields.map fun field => (text field.1, field.2))

theorem height_named_le_iff {fields : List (String × Data)} {depth : Nat} :
    (named fields).height ≤ depth ↔
      ∃ below, depth = below + 1 ∧ ∀ field ∈ fields, field.2.height ≤ below := by
  have flat : ∀ name, (text name).height = 0 := fun _ => rfl
  rw [named, height]
  constructor
  · intro shallow
    have each := heightOfEntries_le_iff.mp (Nat.le_sub_one_of_lt shallow)
    refine ⟨depth - 1, by omega, fun field member => ?_⟩
    exact (each _ (List.mem_map_of_mem member)).2
  · rintro ⟨below, rfl, each⟩
    apply Nat.succ_le_succ
    apply heightOfEntries_le_iff.mpr
    intro entry member
    rcases List.mem_map.mp member with ⟨field, inFields, rfl⟩
    exact ⟨Nat.zero_le _, each field inFields⟩

/-! ### Lists and tables -/

variable {α : Type} {read : Reader α} {write : α → Data} {counting : Counting} {depth : Nat}

theorem mapM_map_eq_some {β γ : Type} {read : β → Option γ} {write : γ → β} {items : List γ}
    (each : ∀ item ∈ items, read (write item) = some item) :
    (items.map write).mapM read = some items := by
  induction items with
  | nil => rfl
  | cons item others induction =>
      have first := each item List.mem_cons_self
      have later := induction fun item member => each item (List.mem_cons_of_mem _ member)
      rw [List.map_cons, List.mapM_cons, first, later]
      rfl

theorem readItems_map {read : Data → Option α} {items : List α}
    (each : ∀ item ∈ items, read (write item) = some item) :
    readItems read (list (items.map write)) = some items :=
  mapM_map_eq_some each

theorem readList_map {items : List α} (shallow : (list (items.map write)).height ≤ depth)
    (each : ∀ item ∈ items, ∀ below, (write item).height ≤ below →
      read counting below (write item) = some item) :
    readList read counting depth (list (items.map write)) = some items := by
  rcases height_list_le_iff.mp shallow with ⟨below, rfl, heights⟩
  apply readItems_map
  intro item member
  exact each item member below (heights _ (List.mem_map_of_mem member))

theorem readTexts_map {texts : List String} (shallow : (list (texts.map text)).height ≤ depth) :
    readTexts counting depth (list (texts.map text)) = some texts :=
  readList_map shallow fun _ _ _ _ => rfl

def ofTable (write : α → Data) (table : Table α) : Data :=
  map (table.entries.map fun entry => (text entry.1, write entry.2))

theorem ofTable_eq (write : α → Data) (table : Table α) :
    ofTable write table = named (table.entries.map fun entry => (entry.1, write entry.2)) := by
  rw [ofTable, named, List.map_map]
  rfl

theorem readTable_ofTable {table : Table α} (shallow : (ofTable write table).height ≤ depth)
    (each : ∀ entry ∈ table.entries, ∀ below, (write entry.2).height ≤ below →
      read counting below (write entry.2) = some entry.2) :
    readTable read counting depth (ofTable write table) = some table := by
  rw [ofTable_eq] at shallow
  rcases height_named_le_iff.mp shallow with ⟨below, rfl, heights⟩
  have entries : ((table.entries.map fun entry => (text entry.1, write entry.2)).mapM
      fun entry => do return (← readText entry.1, ← read counting below entry.2)) =
        some table.entries := by
    apply mapM_map_eq_some
    intro entry member
    have value := each entry member below
      (heights (entry.1, write entry.2) (List.mem_map_of_mem member))
    simp [readText, value]
  rw [ofTable, readTable, within]
  simp only [entries]
  exact congrArg some (Table.setAll_empty table)

theorem readOption_eq {read : Data → Option α} {data : Data} {value : α} (present : data ≠ null)
    (whole : read data = some value) : readOption read data = some (some value) := by
  rw [readOption.eq_def]
  split
  case h_1 => exact absurd rfl present
  case h_2 => rw [whole, Option.map_some]

/-! ### Records -/

theorem collectFields_named {names : List String} {given fields : List (String × Data)}
    (known : ∀ field ∈ fields, field.1 ∈ names)
    (distinct : ((given ++ fields).map Prod.fst).Nodup) :
    collectFields names counting depth given (fields.map fun field => (text field.1, field.2)) =
      some (given ++ fields) := by
  induction fields generalizing given with
  | nil => rw [List.append_nil, List.map_nil, collectFields]
  | cons field others induction =>
      have first : field.1 ∈ names := known field List.mem_cons_self
      have absent : given.lookup field.1 = none := by
        rw [List.lookup_eq_none_iff]
        intro other member
        rw [bne_iff_ne]
        rw [List.map_append, List.nodup_append] at distinct
        exact Ne.symm (distinct.2.2 _ (List.mem_map_of_mem member) _ List.mem_cons_self)
      have later := @induction (given ++ [field])
        (fun field member => known field (List.mem_cons_of_mem _ member))
        (by rwa [List.append_assoc, List.singleton_append])
      rw [List.append_assoc, List.singleton_append] at later
      rw [List.map_cons, collectFields]
      simp [readKey, first, absent, later]

theorem readFields_named {names : List String} {fields : List (String × Data)}
    (known : ∀ field ∈ fields, field.1 ∈ names) (distinct : (fields.map Prod.fst).Nodup) :
    readFields names counting depth (named fields) = some { given := fields, ordered := false } := by
  have collected := @collectFields_named counting depth names [] fields known distinct
  rw [named, readFields, collected]
  rfl

end UrlRouting.Data
