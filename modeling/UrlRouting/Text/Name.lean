/-!
Names of captures and variables. A name begins with an ASCII letter or an underscore; which
characters may follow differs between the places where names are written.
-/

namespace UrlRouting.Text

def startsName (character : Char) : Bool :=
  character.isAlpha || character == '_'

def continuesName (character : Char) : Bool :=
  character.isAlphanum || character == '_'

/-- Whether a character may follow in a name written within braces, where hyphens are allowed. -/
def continuesBracedName (character : Char) : Bool :=
  continuesName character || character == '-'

def takeName? (continues : Char → Bool) : List Char → Option (List Char × List Char)
  | [] => none
  | first :: rest =>
      if startsName first then
        some (first :: rest.takeWhile continues, rest.dropWhile continues)
      else
        none

theorem length_dropWhile_le (test : Char → Bool) (text : List Char) :
    (text.dropWhile test).length ≤ text.length :=
  (List.dropWhile_sublist test).length_le

theorem length_of_takeName? {continues : Char → Bool} {text name rest : List Char}
    (taken : takeName? continues text = some (name, rest)) : rest.length < text.length := by
  cases text with
  | nil => simp [takeName?] at taken
  | cons first others =>
      simp only [takeName?] at taken
      split at taken
      · simp only [Option.some.injEq, Prod.mk.injEq] at taken
        obtain ⟨-, rfl⟩ := taken
        exact Nat.lt_succ_of_le (length_dropWhile_le continues others)
      · simp at taken

end UrlRouting.Text
