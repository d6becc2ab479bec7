import UrlRouting.Proofs.Encoding
import UrlRouting.Proofs.Path.Tidy

/-!
Queries written and read again. A written name or value holds none of the marks that separate
things in URLs, so the pairs can be told apart, and each is read as what was written.
-/

namespace UrlRouting

namespace Text

theorem cutFirst?_append {separator : Char} {before : List Char} (absent : separator ∉ before)
    (after : List Char) :
    cutFirst? separator (before ++ separator :: after) = some (before, after) := by
  induction before with
  | nil => rw [List.nil_append, cutFirst?, if_pos rfl]
  | cons character rest induction =>
      rw [List.mem_cons, not_or] at absent
      rw [List.cons_append, cutFirst?, if_neg (Ne.symm absent.1), induction absent.2]
      rfl

namespace Form

def separators : List Char :=
  ['/', '?', '#', '&', '=']

theorem separator_notMem_encode {separator : Char} (separates : separator ∈ separators)
    (text : List Char) : separator ∉ encode text :=
  Encoding.notMem_encodeChars (List.mem_append_left [' '] separates) .legacy text

theorem decode_encode (text : List Char) : decode (encode text) = text := by
  have read := (Encoding.spells_encodeChars .legacy text).decode_eq
  rw [Encoding.decode, String.toList_ofList, String.ofList_inj] at read
  exact read

def encodePair (pair : String × String) : List Char :=
  encode pair.1.toList ++ '=' :: encode pair.2.toList

theorem decodePair_encodePair (pair : String × String) : decodePair (encodePair pair) = pair := by
  rw [decodePair, encodePair,
    cutFirst?_append (separator_notMem_encode (by decide) pair.1.toList)]
  simp only [Option.getD_some, decode_encode, String.ofList_toList]

theorem mem_encodePair {character : Char} {pair : String × String}
    (member : character ∈ encodePair pair) : character = '=' ∨ character ∉ separators := by
  rcases List.mem_append.mp member with inName | inRest
  · exact .inr fun separates => separator_notMem_encode separates _ inName
  · rcases List.mem_cons.mp inRest with equals | inValue
    · exact .inl equals
    · exact .inr fun separates => separator_notMem_encode separates _ inValue

theorem encodePair_ne_nil (pair : String × String) : encodePair pair ≠ [] := by
  simp [encodePair]

theorem decodePairs_encodePairs (pairs : List (String × String)) :
    decodePairs (encodePairs pairs) = pairs := by
  by_cases none : pairs = []
  · subst none
    rfl
  · have cut : fields '&' (joinFields '&' (pairs.map encodePair)) = pairs.map encodePair := by
      apply fields_joinFields (by simpa using none)
      intro part member
      rcases List.mem_map.mp member with ⟨pair, -, rfl⟩
      intro ampersand
      rcases mem_encodePair ampersand with equals | plain
      · cases equals
      · exact plain (by decide)
    have kept : (pairs.map encodePair).filter (!·.isEmpty) = pairs.map encodePair := by
      rw [List.filter_eq_self]
      intro part member
      rcases List.mem_map.mp member with ⟨pair, -, rfl⟩
      simpa using encodePair_ne_nil pair
    rw [decodePairs, encodePairs, show (fun pair : String × String =>
      encode pair.1.toList ++ '=' :: encode pair.2.toList) = encodePair from rfl, cut, kept,
      List.map_map]
    conv => rhs; rw [← List.map_id pairs]
    exact List.map_congr_left fun pair _ => decodePair_encodePair pair

end Form

end Text

namespace Query

theorem parse_build (pairs : List (String × String)) : parse (build pairs) = pairs := by
  rw [parse, build, String.toList_ofList, Text.Form.decodePairs_encodePairs]

theorem mark_notMem_build {mark : Char} (begins : mark ∈ ['/', '?', '#'])
    (pairs : List (String × String)) : mark ∉ (build pairs).toList := by
  rw [build, String.toList_ofList, Text.Form.encodePairs]
  intro member
  have separates : mark ∈ Text.Form.separators := List.mem_append_left ['&', '='] begins
  rcases Text.mem_joinFields member with rfl | ⟨part, inParts, inside⟩
  · simp at begins
  · rcases List.mem_map.mp inParts with ⟨pair, -, rfl⟩
    rcases Text.Form.mem_encodePair inside with rfl | plain
    · simp at begins
    · exact plain separates

end Query

end UrlRouting
