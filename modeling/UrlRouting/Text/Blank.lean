/-!
White space. Formats disagree on what it is: patterns skip five ASCII characters, while the end of a
regular expression is trimmed of everything that Unicode calls white space.
-/

namespace UrlRouting.Text

def isBlank (character : Char) : Bool :=
  let code := character.toNat
  (9 ≤ code && code ≤ 13) || code == 0x20 || code == 0x85 || code == 0xA0 || code == 0x1680 ||
    (0x2000 ≤ code && code ≤ 0x200A) || code == 0x2028 || code == 0x2029 || code == 0x202F ||
    code == 0x205F || code == 0x3000

/-- The white space that may stand within a pattern: space, tab, line feed, form feed and carriage
return. The vertical tab is not among it. -/
def isAsciiBlank (character : Char) : Bool :=
  character == ' ' || character == '\t' || character == '\n' || character == '\x0c' ||
    character == '\r'

theorem isBlank_of_isWhitespace {character : Char} (blank : character.isWhitespace) :
    isBlank character = true := by
  simp only [Char.isWhitespace, Bool.or_eq_true, decide_eq_true_eq] at blank
  rcases blank with ((rfl | rfl) | rfl) | rfl <;> decide

end UrlRouting.Text
