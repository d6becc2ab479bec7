/-!
Text cut into fields at a separator character, and fields joined back. A text with `n` separators
has `n + 1` fields, some of them possibly empty; joining the fields gives the text again.
-/

namespace UrlRouting.Text

def fields (separator : Char) : List Char → List (List Char)
  | [] => [[]]
  | character :: rest =>
      if character = separator then
        [] :: fields separator rest
      else
        match fields separator rest with
        | [] => [[character]]
        | first :: others => (character :: first) :: others

def joinFields (separator : Char) : List (List Char) → List Char
  | [] => []
  | [field] => field
  | field :: others => field ++ separator :: joinFields separator others

theorem fields_ne_nil (separator : Char) (text : List Char) : fields separator text ≠ [] := by
  cases text with
  | nil => simp [fields]
  | cons character rest =>
      unfold fields
      split
      · simp
      · split <;> simp

theorem joinFields_fields (separator : Char) (text : List Char) :
    joinFields separator (fields separator text) = text := by
  induction text with
  | nil => rfl
  | cons character rest induction =>
      unfold fields
      split
      case isTrue equal =>
        cases cut : fields separator rest with
        | nil => exact absurd cut (fields_ne_nil separator rest)
        | cons first others =>
            rw [cut] at induction
            simp [joinFields, induction, equal]
      case isFalse =>
        cases cut : fields separator rest with
        | nil => exact absurd cut (fields_ne_nil separator rest)
        | cons first others =>
            rw [cut] at induction
            cases others with
            | nil => simpa [joinFields] using induction
            | cons => simpa [joinFields] using induction

theorem separator_notMem_of_mem_fields {separator : Char} {text field : List Char}
    (member : field ∈ fields separator text) : separator ∉ field := by
  induction text generalizing field with
  | nil =>
      simp only [fields, List.mem_singleton] at member
      simp [member]
  | cons character rest induction =>
      unfold fields at member
      split at member
      case isTrue =>
        rcases List.mem_cons.mp member with equal | later
        · simp [equal]
        · exact induction later
      case isFalse different =>
        split at member
        case h_1 =>
          simp only [List.mem_singleton] at member
          subst member
          simpa using fun equal => different equal.symm
        case h_2 first others cut =>
          rcases List.mem_cons.mp member with equal | later
          · subst equal
            have inner : separator ∉ first := induction (by simp [cut])
            simp only [List.mem_cons, not_or]
            exact ⟨fun equal => different equal.symm, inner⟩
          · exact induction (by simp [cut, later])

def trimEnd (drop : Char → Bool) (text : List Char) : List Char :=
  (text.reverse.dropWhile drop).reverse

def cutFirst? (separator : Char) : List Char → Option (List Char × List Char)
  | [] => none
  | character :: rest =>
      if character = separator then
        some ([], rest)
      else
        (cutFirst? separator rest).map fun (before, after) => (character :: before, after)

theorem eq_of_cutFirst? {separator : Char} {text before after : List Char}
    (cut : cutFirst? separator text = some (before, after)) :
    text = before ++ separator :: after := by
  induction text generalizing before with
  | nil => simp [cutFirst?] at cut
  | cons character rest induction =>
      unfold cutFirst? at cut
      split at cut
      case isTrue equal =>
        simp only [Option.some.injEq, Prod.mk.injEq] at cut
        obtain ⟨rfl, rfl⟩ := cut
        simp [equal]
      case isFalse =>
        simp only [Option.map_eq_some_iff] at cut
        obtain ⟨⟨first, last⟩, found, equal⟩ := cut
        simp only [Prod.mk.injEq] at equal
        obtain ⟨rfl, rfl⟩ := equal
        simp [induction found]

end UrlRouting.Text
