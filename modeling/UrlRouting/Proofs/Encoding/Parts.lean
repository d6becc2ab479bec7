import UrlRouting.Proofs.Encoding
import UrlRouting.Proofs.Path.Tidy

/-!
Paths put together from literal texts and written values. Whatever the values hold, the path is
read as the texts and the values one after the other. No value reaches beyond its place: what is
written for it begins no other part of a URL and has no slash that the value does not have.
-/

namespace UrlRouting.Encoding

open Text

/-- What a path is put together from: literal text without marks of the encoding, values that stand
within one piece, and values that keep their slashes. -/
inductive Part (encoding : Encoding)
  | literal (text : String) (plain : encoding.IsPlain text.toList)
  | value (text : String)
  | segments (text : String)

variable {encoding : Encoding}

namespace Part

def text : encoding.Part → String
  | literal text _ => text
  | value text => text
  | segments text => text

def written : encoding.Part → String
  | literal text _ => text
  | value text => encoding.encode text
  | segments text => encoding.encodeSegments text

end Part

/-! ### Reading -/

theorem toList_encodeSegments (encoding : Encoding) (value : String) :
    (encoding.encodeSegments value).toList =
      joinFields '/' ((fields '/' value.toList).map encoding.encodeChars) :=
  String.toList_ofList

theorem spells_encodeSegments (encoding : Encoding) (value : String) :
    encoding.Spells (encoding.encodeSegments value).toList value.toList := by
  have joined := spells_joinFields
    (forall₂_spells_encodeChars encoding (fields '/' value.toList))
  rwa [joinFields_fields, ← toList_encodeSegments] at joined

theorem Part.spells (part : encoding.Part) :
    encoding.Spells part.written.toList part.text.toList := by
  cases part with
  | literal text plain => exact spells_of_isPlain plain
  | value text =>
      rw [written, encode, String.toList_ofList]
      exact spells_encodeChars encoding text.toList
  | segments text => exact spells_encodeSegments encoding text

theorem spells_join (parts : List encoding.Part) :
    encoding.Spells (String.join (parts.map Part.written)).toList
      (String.join (parts.map Part.text)).toList := by
  induction parts with
  | nil => exact spells_nil
  | cons part others induction =>
      simp only [List.map_cons, String.join_cons, String.toList_append]
      exact part.spells.append induction

theorem decode_join (parts : List encoding.Part) :
    encoding.decode (String.join (parts.map Part.written)) = String.join (parts.map Part.text) := by
  have read := (spells_join parts).decode_eq
  rwa [String.ofList_toList, String.ofList_toList] at read

/-! ### Marks of URLs -/

theorem fields_encodeSegments (encoding : Encoding) (value : String) :
    fields '/' (encoding.encodeSegments value).toList =
      (fields '/' value.toList).map encoding.encodeChars := by
  rw [toList_encodeSegments]
  apply fields_joinFields
  · simpa using fields_ne_nil '/' value.toList
  · intro field member
    rcases List.mem_map.mp member with ⟨plain, -, rfl⟩
    exact slash_notMem_encodeChars encoding plain

theorem count_slash_encodeSegments (encoding : Encoding) (value : String) :
    (encoding.encodeSegments value).toList.count '/' = value.toList.count '/' := by
  have written := length_fields '/' (encoding.encodeSegments value).toList
  rw [fields_encodeSegments, List.length_map, length_fields] at written
  omega

theorem notMem_encodeSegments {mark : Char} (inMarks : mark ∈ marks) (different : mark ≠ '/')
    (encoding : Encoding) (value : String) : mark ∉ (encoding.encodeSegments value).toList := by
  rw [toList_encodeSegments]
  intro member
  rcases mem_joinFields member with slash | ⟨field, inFields, inside⟩
  · exact different slash
  · rcases List.mem_map.mp inFields with ⟨plain, -, rfl⟩
    exact notMem_encodeChars inMarks encoding plain inside

/-- Reading undoes writing in paths of any parts, and what is written for a value stays in its
place. -/
theorem decode_written_in_place (encoding : Encoding) :
    (∀ parts : List encoding.Part,
      encoding.decode (String.join (parts.map Part.written)) =
        String.join (parts.map Part.text)) ∧
    ∀ value : String,
      encoding.decode (encoding.encode value) = value ∧
      encoding.decode (encoding.encodeSegments value) = value ∧
      (∀ mark ∈ ['/', '?', '#', '&', '=', ' '], mark ∉ (encoding.encode value).toList) ∧
      (encoding.encodeSegments value).toList.count '/' = value.toList.count '/' ∧
      ∀ mark ∈ ['?', '#', '&', '=', ' '], mark ∉ (encoding.encodeSegments value).toList := by
  refine ⟨decode_join, fun value => ⟨?_, ?_, ?_, count_slash_encodeSegments encoding value, ?_⟩⟩
  · have alone := decode_join [(.value value : encoding.Part)]
    simpa [Part.written, Part.text] using alone
  · have alone := decode_join [(.segments value : encoding.Part)]
    simpa [Part.written, Part.text] using alone
  · intro mark inMarks
    rw [encode, String.toList_ofList]
    exact notMem_encodeChars inMarks encoding value.toList
  · intro mark inMarks
    apply notMem_encodeSegments (List.mem_cons_of_mem '/' inMarks)
    rintro rfl
    simp at inMarks

end UrlRouting.Encoding
