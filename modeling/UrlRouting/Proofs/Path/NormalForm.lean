import Mathlib.Data.List.DropRight
import UrlRouting.Proofs.Path.Tidy

/-!
The normal form of a path. A path is read as the non-empty pieces between its slashes, each at the
place where it stands. The form under which it is stored is a slash and these pieces joined by
slashes, and tidying a path that begins with a slash gives the same. The two are written in different
ways, and each has a test or a step by which it leaves a path alone that needs no change.
-/

namespace UrlRouting

namespace Text

theorem joinFields_eq_intercalate (separator : Char) (parts : List (List Char)) :
    joinFields separator parts = [separator].intercalate parts := by
  induction parts with
  | nil => rfl
  | cons part others induction =>
      by_cases last : others = []
      · subst last
        simp [joinFields]
      · rw [joinFields_cons last, induction, List.intercalate_cons_of_ne_nil last,
          List.append_assoc, List.singleton_append]

theorem trimEnd_eq_rdropWhile (drop : Char → Bool) (text : List Char) :
    trimEnd drop text = text.rdropWhile drop := rfl

end Text

namespace Path

open String (utf8Len)

/-! ### Pieces where they stand -/

/-- Whether a piece stands in a path where it says, with a slash or an end of the path on either
side. -/
def Piece.StandsIn (piece : Piece) (path : String) : Prop :=
  ∃ before after, path = before ++ piece.text ++ after ∧ before.utf8ByteSize = piece.offset ∧
    (before = "" ∨ before.toList.getLast? = some '/') ∧
    (after = "" ∨ after.toList.head? = some '/')

/-- The same for a text that begins after `offset` bytes of a path. -/
def Piece.StandsFrom (piece : Piece) (offset : Nat) (text : List Char) : Prop :=
  ∃ before after, text = before ++ (piece.text.toList ++ after) ∧
    piece.offset = offset + utf8Len before ∧
    (before = [] ∨ before.getLast? = some '/') ∧ (after = [] ∨ after.head? = some '/')

theorem Piece.StandsFrom.later {piece : Piece} {offset : Nat} {field text : List Char}
    (stands : piece.StandsFrom (offset + utf8Len field + 1) text) :
    piece.StandsFrom offset (field ++ '/' :: text) := by
  rcases stands with ⟨before, after, rfl, starts, begins, ends⟩
  refine ⟨field ++ '/' :: before, after, ?_, ?_, .inr ?_, ends⟩
  · rw [List.append_assoc, List.cons_append]
  · rw [starts, String.utf8Len_append, utf8Len_slash_cons]
    omega
  · rcases begins with rfl | last
    · simp
    · simp [List.getLast?_append, List.getLast?_cons, last]

theorem standsFrom_of_mem_piecesFrom {offset : Nat} {fields : List (List Char)} {piece : Piece}
    (member : piece ∈ piecesFrom offset fields) :
    piece.StandsFrom offset (Text.joinFields '/' fields) := by
  induction fields generalizing offset with
  | nil => cases member
  | cons field others induction =>
      have later (inOthers : piece ∈ piecesFrom (offset + utf8Len field + 1) others) :
          piece.StandsFrom offset (Text.joinFields '/' (field :: others)) := by
        have more : others ≠ [] := by
          rintro rfl
          cases inOthers
        rw [Text.joinFields_cons more]
        exact (induction inOthers).later
      by_cases empty : field = []
      · subst empty
        exact later member
      · rw [piecesFrom_cons empty] at member
        rcases List.mem_cons.mp member with rfl | inOthers
        · rcases Text.exists_tail_of_joinFields '/' field others with ⟨tail, joined, ends⟩
          exact ⟨[], tail, by rw [joined, String.toList_ofList, List.nil_append], rfl, .inl rfl,
            ends⟩
        · exact later inOthers

theorem standsIn_of_mem_pieces {path : String} {piece : Piece} (member : piece ∈ pieces path) :
    piece.StandsIn path := by
  rcases standsFrom_of_mem_piecesFrom member with ⟨before, after, joined, starts, begins, ends⟩
  rw [Text.joinFields_fields] at joined
  refine ⟨String.ofList before, String.ofList after, ?_, ?_, ?_, ?_⟩
  · apply String.toList_injective
    simp [joined]
  · rw [starts, String.utf8ByteSize_ofList, Nat.zero_add]
  · simpa using begins
  · simpa using ends

theorem le_offset_of_mem_piecesFrom {offset : Nat} {fields : List (List Char)} {piece : Piece}
    (member : piece ∈ piecesFrom offset fields) : offset ≤ piece.offset := by
  rcases standsFrom_of_mem_piecesFrom member with ⟨before, after, -, starts, -, -⟩
  omega

theorem pairwise_piecesFrom (offset : Nat) (fields : List (List Char)) :
    (piecesFrom offset fields).Pairwise fun first second => first.stop < second.offset := by
  induction fields generalizing offset with
  | nil => exact .nil
  | cons field others induction =>
      by_cases empty : field = []
      · subst empty
        exact induction (offset + 1)
      · rw [piecesFrom_cons empty, List.pairwise_cons]
        refine ⟨?_, induction _⟩
        intro second member
        have after := le_offset_of_mem_piecesFrom member
        rwa [Piece.stop, String.utf8ByteSize_ofList]

theorem texts_eq_splitOn (path : String) :
    texts path = ((path.toList.splitOn '/').filter (!·.isEmpty)).map String.ofList := by
  rw [texts, pieceTexts, Text.fields_eq_splitOn]

/-! ### The stored form -/

theorem toList_slash_intercalate (texts : List String) :
    ("/" ++ "/".intercalate texts).toList =
      '/' :: Text.joinFields '/' (texts.map String.toList) := by
  rw [String.toList_append, String.toList_intercalate, Text.joinFields_eq_intercalate]
  rfl

theorem ofPieces_eq_intercalate (texts : List String) :
    ofPieces texts = "/" ++ "/".intercalate texts := by
  by_cases none : texts = []
  · subst none
    rfl
  · apply String.toList_injective
    rw [toList_ofPieces none, toList_slash_intercalate,
      rooted_eq_joinFields (by simpa using none)]

/-! ### The tidy form -/

theorem not_infix_collapse (path : String) : ¬ ['/', '/'] <:+: (collapse path).toList := by
  intro double
  rw [collapse, Text.trimEnd_eq_rdropWhile] at double
  split at double
  case isTrue => exact absurd (hasDoubleSlash_iff.mpr double) (by decide)
  case isFalse =>
    rw [String.toList_ofList] at double
    have start := List.rdropWhile_prefix (· == '/') (squeeze path.toList)
    have within := hasDoubleSlash_iff.mpr (double.trans start.isInfix)
    rw [hasDoubleSlash_squeeze] at within
    cases within

theorem getLast?_collapse_iff (path : String) :
    (collapse path).toList.getLast? = some '/' ↔ collapse path = "/" := by
  constructor
  · rw [collapse, Text.trimEnd_eq_rdropWhile]
    split
    case isTrue => exact fun _ => rfl
    case isFalse left =>
      intro last
      have nonempty := mt List.isEmpty_iff.mpr left
      have kept := List.rdropWhile_last_not (· == '/') (squeeze path.toList) nonempty
      rw [String.toList_ofList, List.getLast?_eq_some_getLast nonempty] at last
      rw [Option.some_inj.mp last] at kept
      exact absurd rfl kept
  · intro root
    rw [root]
    rfl

theorem collapse_ne_empty (path : String) : collapse path ≠ "" := by
  rw [collapse]
  split
  case isTrue => decide
  case isFalse left => simpa using left

theorem collapse_eq_self {path : String} (nonempty : path ≠ "")
    (single : ¬ ['/', '/'] <:+: path.toList)
    (last : path.toList.getLast? = some '/' → path = "/") : collapse path = path := by
  by_cases root : path = "/"
  · subst root
    rfl
  · have squeezed : squeeze path.toList = path.toList :=
      squeeze_eq_self (Bool.eq_false_iff.mpr (mt hasDoubleSlash_iff.mp single))
    have kept : Text.trimEnd (· == '/') path.toList = path.toList := by
      apply Text.trimEnd_eq_self
      intro character isLast
      rw [beq_eq_false_iff_ne]
      rintro rfl
      exact root (last isLast)
    rw [collapse, squeezed, kept, if_neg (by simpa using nonempty), String.ofList_toList]

theorem collapse_collapse (path : String) : collapse (collapse path) = collapse path :=
  collapse_eq_self (collapse_ne_empty path) (not_infix_collapse path)
    (getLast?_collapse_iff path).mp

/-! ### Both forms -/

theorem normalForm_eq_intercalate (path : String) :
    normalForm path = "/" ++ "/".intercalate (texts path) := by
  rw [normalForm_eq_ofPieces, ofPieces_eq_intercalate]

theorem collapse_eq_normalForm {path : String} (begins : path.toList.head? = some '/') :
    collapse path = normalForm path := by
  rcases List.head?_eq_some_iff.mp begins with ⟨rest, text⟩
  apply String.toList_injective
  rw [toList_collapse_of_slash text, normalForm_eq_intercalate, toList_slash_intercalate,
    map_toList_texts]

theorem collapse_eq_intercalate {path : String} (nonempty : path ≠ "")
    (begins : path.toList.head? ≠ some '/') :
    collapse path = "/".intercalate (texts path) := by
  rcases List.exists_cons_of_ne_nil (fun none => nonempty (String.toList_eq_nil_iff.mp none)) with
    ⟨character, rest, text⟩
  have different : character ≠ '/' := by simpa [text] using begins
  apply String.toList_injective
  rw [toList_collapse_of_ne text different, String.toList_intercalate, map_toList_texts,
    Text.joinFields_eq_intercalate]
  rfl

theorem isNormal_iff {path : String} :
    isNormal path = true ↔ path = normalForm path ∧ path ≠ "/" := by
  constructor
  · intro normal
    have nonroot : path ≠ "/" := by
      rintro rfl
      cases normal
    have nonempty : texts path ≠ [] := by
      intro none
      have written := eq_rooted_of_isNormal normal
      rw [← map_toList_texts, none] at written
      rw [String.toList_eq_nil_iff.mp written] at normal
      cases normal
    refine ⟨?_, nonroot⟩
    rw [normalForm, texts_pieces, if_neg (by simpa using nonempty), if_pos normal]
  · rintro ⟨written, nonroot⟩
    have begins : path.toList.head? = some '/' := by
      rw [written, normalForm_eq_intercalate, toList_slash_intercalate]
      rfl
    -- Tidying leaves the path as it is, so it has nothing of what the test looks for.
    have tidy : collapse path = path := (collapse_eq_normalForm begins).trans written.symm
    have double := not_infix_collapse path
    have last := getLast?_collapse_iff path
    rw [tidy] at double last
    have single := Bool.eq_false_iff.mpr (mt hasDoubleSlash_iff.mp double)
    simp [isNormal, begins, last, nonroot, single]

/-- The forms of a path agree. Its pieces are the non-empty texts between its slashes, in order and
each where it says. It is stored under a slash and these pieces joined by slashes, and that is also
what is written from them; the path itself is taken for it just if it has that form already and is
not the root. A tidy path does not change when it is tidied again; it has no slash next to another,
none at its end unless it is the root, and the pieces of the path it was made of. If that path begins
with a slash it is the stored form, and otherwise, unless the path is empty, the stored form without
its slash. -/
theorem normal_forms_agree (path : String) :
    let texts := (pieces path).map Piece.text
    let normal := "/" ++ "/".intercalate texts
    texts = ((path.toList.splitOn '/').filter (!·.isEmpty)).map String.ofList ∧
    (∀ piece ∈ pieces path, piece.StandsIn path) ∧
    (pieces path).Pairwise (fun first second => first.stop < second.offset) ∧
    normalForm path = normal ∧
    ofPieces texts = normal ∧
    (isNormal path = true ↔ path = normal ∧ path ≠ "/") ∧
    collapse (collapse path) = collapse path ∧
    ¬ ['/', '/'] <:+: (collapse path).toList ∧
    ((collapse path).toList.getLast? = some '/' ↔ collapse path = "/") ∧
    (pieces (collapse path)).map Piece.text = texts ∧
    collapse path =
      if path = "" ∨ path.toList.head? = some '/' then normalForm path
      else "/".intercalate texts := by
  intro texts normal
  have read : texts = Path.texts path := texts_pieces path
  have stored : normalForm path = normal := by
    rw [normalForm_eq_intercalate, ← read]
  have tidied : collapse path =
      if path = "" ∨ path.toList.head? = some '/' then normalForm path
      else "/".intercalate texts := by
    split
    case isTrue known =>
      rcases known with rfl | begins
      · rfl
      · exact collapse_eq_normalForm begins
    case isFalse other =>
      rw [not_or] at other
      rw [read]
      exact collapse_eq_intercalate other.1 other.2
  refine ⟨?_, fun piece => standsIn_of_mem_pieces, pairwise_piecesFrom 0 _, stored,
    ofPieces_eq_intercalate texts, ?_, collapse_collapse path, not_infix_collapse path,
    getLast?_collapse_iff path, ?_, tidied⟩
  · rw [read, texts_eq_splitOn]
  · rw [← stored]
    exact isNormal_iff
  · rw [texts_pieces, texts_collapse, read]

theorem normal_forms_agree_archive :
    ⟨7, "b"⟩ ∈ pieces "//é///b/" ∧ Piece.StandsIn ⟨7, "b"⟩ "//é///b/" ∧
      collapse "//é///b/" = normalForm "//é///b/" := by
  rcases normal_forms_agree "//é///b/" with ⟨-, stands, -, -, -, -, -, -, -, -, tidied⟩
  have member : ⟨7, "b"⟩ ∈ pieces "//é///b/" := by decide
  refine ⟨member, stands _ member, ?_⟩
  rw [tidied, if_pos (.inr (by decide))]

end Path

end UrlRouting
