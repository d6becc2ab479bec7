import UrlRouting.Proofs.Path.Tidy

/-!
Slices of a path. The text from one of the pieces to the end of the last one is cut out by counting
bytes, with whatever slashes stand between the pieces. It begins and ends with a piece, and its
own pieces are the ones it was cut from. So where a path has no slash next to another, the slice is
the text of these pieces with a slash between them.
-/

namespace UrlRouting

namespace Path

open String (utf8Len)

theorem pieceTexts_rooted_flatMap (texts : List (List Char)) :
    pieceTexts (rooted texts) = texts.flatMap pieceTexts := by
  induction texts with
  | nil => rfl
  | cons text others induction =>
      rw [rooted, List.flatMap_cons, ← rooted, List.cons_append, pieceTexts_cons_slash,
        pieceTexts_append_rooted, induction, List.flatMap_cons]

theorem texts_ofPieces_flatMap (parts : List String) :
    texts (ofPieces parts) = parts.flatMap texts := by
  by_cases empty : parts = []
  · subst empty
    rfl
  · rw [texts, toList_ofPieces empty, pieceTexts_rooted_flatMap, List.flatMap_map,
      List.map_flatMap]
    rfl

theorem texts_of_isPiece {text : String} (piece : IsPiece text) : texts text = [text] := by
  have nonempty : text.toList ≠ [] := fun empty => piece.1 (String.toList_eq_nil_iff.mp empty)
  rw [texts, pieceTexts_of_piece nonempty piece.2, List.map_singleton, String.ofList_toList]

theorem pieceTexts_slashes_append {slashes : List Char} (only : ∀ other ∈ slashes, other = '/')
    (text : List Char) : pieceTexts (slashes ++ text) = pieceTexts text := by
  induction slashes with
  | nil => rfl
  | cons slash others induction =>
      rw [List.forall_mem_cons] at only
      rw [only.1, List.cons_append, pieceTexts_cons_slash, induction only.2]

theorem eq_slash_of_piecesFrom_eq_nil {offset : Nat} {fields : List (List Char)}
    (none : piecesFrom offset fields = []) :
    ∀ character ∈ Text.joinFields '/' fields, character = '/' := by
  induction fields generalizing offset with
  | nil => simp [Text.joinFields]
  | cons field others induction =>
      cases field with
      | cons character rest => simp [piecesFrom] at none
      | nil =>
          by_cases last : others = []
          · simp [last, Text.joinFields]
          · rw [Text.joinFields_cons last, List.nil_append, List.forall_mem_cons]
            exact ⟨rfl, induction none⟩

/-- A text from the first of some pieces to the last of them: it has just these pieces, and nothing
before and after them. -/
structure Spans (parts : List (List Char)) (text : List Char) : Prop where
  begins : ∃ first rest, text = first :: rest ∧ first ≠ '/'
  ends : ∃ before last, text = before ++ [last] ∧ last ≠ '/'
  cut : pieceTexts text = parts

theorem spans_single {part : List Char} (nonempty : part ≠ []) (whole : '/' ∉ part) :
    Spans [part] part := by
  refine ⟨?_, ?_, pieceTexts_of_piece nonempty whole⟩
  · rcases List.exists_cons_of_ne_nil nonempty with ⟨first, rest, rfl⟩
    exact ⟨first, rest, rfl, fun slash => whole (by simp [slash])⟩
  · rcases List.eq_nil_or_concat part with rfl | ⟨before, last, rfl⟩
    · exact absurd rfl nonempty
    · exact ⟨before, last, List.concat_eq_append, fun slash => whole (by simp [slash])⟩

theorem Spans.cons {part : List Char} (nonempty : part ≠ []) (whole : '/' ∉ part)
    {slashes : List Char} (only : ∀ other ∈ slashes, other = '/') {parts : List (List Char)}
    {text : List Char} (spans : Spans parts text) :
    Spans (part :: parts) (part ++ '/' :: (slashes ++ text)) := by
  have alone := spans_single nonempty whole
  refine ⟨?_, ?_, ?_⟩
  · rcases alone.begins with ⟨first, rest, rfl, different⟩
    exact ⟨first, _, rfl, different⟩
  · rcases spans.ends with ⟨before, last, rfl, different⟩
    exact ⟨part ++ '/' :: (slashes ++ before), last, by simp, different⟩
  · rw [pieceTexts_append, pieceTexts_slashes_append only, alone.cut, spans.cut]
    rfl

/-- The pieces of some fields are spanned by a part of the joined text that has only slashes around
it. The part stands where the pieces say. -/
theorem exists_spans_of_piecesFrom {offset : Nat} {fields : List (List Char)}
    (each : ∀ field ∈ fields, '/' ∉ field) {first : Piece} {rest : List Piece}
    (cut : piecesFrom offset fields = first :: rest) :
    ∃ lead value trail : List Char, Text.joinFields '/' fields = lead ++ (value ++ trail) ∧
      (∀ character ∈ lead, character = '/') ∧ (∀ character ∈ trail, character = '/') ∧
      first.offset = offset + utf8Len lead ∧
      ((first :: rest).getLast (by simp)).stop = first.offset + utf8Len value ∧
      Spans ((first :: rest).map fun piece => piece.text.toList) value := by
  induction fields generalizing offset first rest with
  | nil => cases cut
  | cons field others induction =>
      rw [List.forall_mem_cons] at each
      by_cases empty : field = []
      · subst empty
        have more : others ≠ [] := by
          rintro rfl
          cases cut
        rcases induction each.2 cut with
          ⟨lead, value, trail, joined, before, after, starts, spans⟩
        refine ⟨'/' :: lead, value, trail, ?_, ?_, after, ?_, spans⟩
        · rw [Text.joinFields_cons more, joined]
          rfl
        · rw [List.forall_mem_cons]
          exact ⟨rfl, before⟩
        · rw [starts, utf8Len_slash_cons]
          omega
      · rw [piecesFrom_cons empty] at cut
        rcases List.cons.inj cut with ⟨rfl, inRest⟩
        rw [List.map_cons, String.toList_ofList]
        cases rest with
        | nil =>
            -- Whatever stands behind the last piece is slashes.
            have stop : (⟨offset, String.ofList field⟩ : Piece).stop = offset + utf8Len field := by
              rw [Piece.stop, String.utf8ByteSize_ofList]
            by_cases last : others = []
            · subst last
              exact ⟨[], field, [], by simp [Text.joinFields], by simp, by simp, rfl, stop,
                spans_single empty each.1⟩
            · refine ⟨[], field, '/' :: Text.joinFields '/' others, ?_, by simp, ?_, rfl, stop,
                spans_single empty each.1⟩
              · rw [Text.joinFields_cons last, List.nil_append]
              · rw [List.forall_mem_cons]
                exact ⟨rfl, eq_slash_of_piecesFrom_eq_nil inRest⟩
        | cons second rest =>
            have more : others ≠ [] := by
              rintro rfl
              cases inRest
            rcases induction each.2 inRest with
              ⟨slashes, value, trail, joined, only, after, starts, stops, spans⟩
            refine ⟨[], field ++ '/' :: (slashes ++ value), trail, ?_, by simp, after, rfl, ?_,
              spans.cons empty each.1 only⟩
            · simp [Text.joinFields_cons more, joined]
            · rw [List.getLast_cons (List.cons_ne_nil _ _), stops, starts]
              simp only [String.utf8Len_append, utf8Len_slash_cons]
              omega

theorem exists_fields_of_piecesFrom {offset : Nat} {fields : List (List Char)}
    {before : List Piece} {first : Piece} {rest : List Piece}
    (cut : piecesFrom offset fields = before ++ first :: rest) :
    ∃ passed left, fields = passed ++ left ∧
      piecesFrom (offset + utf8Len (passed.flatMap (· ++ ['/']))) left = first :: rest ∧
      Text.joinFields '/' fields =
        passed.flatMap (· ++ ['/']) ++ Text.joinFields '/' left := by
  induction fields generalizing offset before with
  | nil => simp [piecesFrom] at cut
  | cons field others induction =>
      have extend : ∀ {earlier},
          piecesFrom (offset + utf8Len field + 1) others = earlier ++ first :: rest →
          ∃ passed left, field :: others = passed ++ left ∧
            piecesFrom (offset + utf8Len (passed.flatMap (· ++ ['/']))) left = first :: rest ∧
            Text.joinFields '/' (field :: others) =
              passed.flatMap (· ++ ['/']) ++ Text.joinFields '/' left := by
        intro earlier cutOthers
        have more : others ≠ [] := by
          rintro rfl
          simp [piecesFrom] at cutOthers
        rcases induction cutOthers with ⟨passed, left, rfl, here, joined⟩
        refine ⟨field :: passed, left, rfl, ?_, ?_⟩
        · rw [List.flatMap_cons, String.utf8Len_append, String.utf8Len_append, ← Nat.add_assoc]
          exact here
        · rw [Text.joinFields_cons more, joined, List.flatMap_cons]
          simp
      cases before with
      | nil => exact ⟨[], field :: others, rfl, cut, rfl⟩
      | cons head earlier =>
          by_cases empty : field = []
          · subst empty
            exact extend cut
          · rw [piecesFrom_cons empty] at cut
            exact extend (List.cons.inj cut).2

/-- Whether a text is the part of a path from the beginning of one of its pieces to the end of the
last one. -/
structure IsRest (path text : String) : Prop where
  within : ∃ earlier later : List Char, path.toList = earlier ++ (text.toList ++ later) ∧
    (earlier = [] ∨ earlier.getLast? = some '/') ∧ ∀ other ∈ later, other = '/'
  begins : ∃ first rest, text.toList = first :: rest ∧ first ≠ '/'
  ends : ∃ before last, text.toList = before ++ [last] ∧ last ≠ '/'

theorem isRest_sliceFrom {path : String} {before rest : List Piece} {first : Piece}
    (cut : pieces path = before ++ first :: rest) :
    IsRest path (sliceFrom path first rest) ∧
      texts (sliceFrom path first rest) = (first :: rest).map Piece.text := by
  rcases exists_fields_of_piecesFrom cut with ⟨passed, left, whole, here, joined⟩
  have each : ∀ field ∈ left, '/' ∉ field := fun field member =>
    Text.separator_notMem_of_mem_fields (whole ▸ List.mem_append_right passed member)
  rcases exists_spans_of_piecesFrom each here with
    ⟨lead, value, trail, split, slashes, after, starts, stops, spans⟩
  rw [Text.joinFields_fields, split] at joined
  have sliced : (sliceFrom path first rest).toList = value := by
    have start : first.offset = utf8Len (passed.flatMap (· ++ ['/']) ++ lead) := by
      rw [starts, String.utf8Len_append, Nat.zero_add]
    rw [← List.append_assoc] at joined
    rw [sliceFrom, stops, start, slice_of_toList joined, String.toList_ofList]
  constructor
  · rw [← sliced] at joined spans
    refine ⟨⟨passed.flatMap (· ++ ['/']) ++ lead, trail, ?_, ?_, after⟩, spans.begins, spans.ends⟩
    · rw [joined, List.append_assoc]
    · rcases List.eq_nil_or_concat lead with rfl | ⟨others, last, rfl⟩
      · rw [List.append_nil]
        rcases List.eq_nil_or_concat passed with rfl | ⟨others, last, rfl⟩
        · exact .inl rfl
        · right
          simp
      · right
        rw [List.concat_eq_append, ← List.append_assoc, List.getLast?_concat,
          slashes last (by simp)]
  · rw [texts, sliced, spans.cut, List.map_map]
    exact List.map_congr_left fun piece _ => String.ofList_toList

theorem exists_toList_sliceFrom {path : String} {before rest : List Piece} {first : Piece}
    (cut : pieces path = before ++ first :: rest) :
    ∃ more : List Char, (sliceFrom path first rest).toList = first.text.toList ++ more ∧
      (more = [] ∨ more.head? = some '/') := by
  rcases isRest_sliceFrom cut with ⟨isRest, sameTexts⟩
  rcases isRest.begins with ⟨character, others, text, different⟩
  have pieceFirst := map_toList_texts (sliceFrom path first rest)
  rw [sameTexts, List.map_cons, List.map_cons, pieceTexts] at pieceFirst
  have joined := Text.joinFields_fields '/' (sliceFrom path first rest).toList
  cases fields : Text.fields '/' (sliceFrom path first rest).toList with
  | nil => exact absurd fields (Text.fields_ne_nil _ _)
  | cons field later =>
      rcases Text.exists_tail_of_joinFields '/' field later with ⟨more, split, ends⟩
      rw [fields, split] at joined
      have nonempty : field ≠ [] := by
        rintro rfl
        rw [← joined] at text
        rcases ends with rfl | slash
        · cases text
        · rw [List.nil_append] at text
          rw [text] at slash
          exact different (Option.some.inj slash)
      rw [fields, List.filter_cons_of_pos (by simpa using nonempty)] at pieceFirst
      exact ⟨more, by rw [(List.cons.inj pieceFirst).1, joined], ends⟩

/-! ### Paths without needless slashes -/

theorem squeeze_eq_joinFields {text : List Char}
    (begins : ∃ first rest, text = first :: rest ∧ first ≠ '/')
    (ends : ∃ before last, text = before ++ [last] ∧ last ≠ '/') :
    squeeze text = Text.joinFields '/' (pieceTexts text) := by
  have rootedText := trimEnd_squeeze_slash text
  have kept : Text.trimEnd (· == '/') ('/' :: squeeze text) = '/' :: squeeze text := by
    rcases ends with ⟨before, last, rfl, different⟩
    apply Text.trimEnd_eq_self
    intro final here
    rw [List.getLast?_cons, getLast?_squeeze, List.getLast?_concat] at here
    cases here
    exact beq_eq_false_iff_ne.mpr different
  rcases begins with ⟨first, rest, rfl, different⟩
  rw [squeeze_slash_cons different, kept] at rootedText
  by_cases none : pieceTexts (first :: rest) = []
  · rw [none] at rootedText
    cases rootedText
  · rw [rooted_eq_joinFields none] at rootedText
    exact (List.cons.inj rootedText).2

theorem squeeze_sliceFrom {path : String} {before rest : List Piece} {first : Piece}
    (cut : pieces path = before ++ first :: rest) :
    squeeze (sliceFrom path first rest).toList =
      Text.joinFields '/' ((first :: rest).map fun piece => piece.text.toList) := by
  rcases isRest_sliceFrom cut with ⟨isRest, sameTexts⟩
  rw [squeeze_eq_joinFields isRest.begins isRest.ends, ← map_toList_texts, sameTexts,
    List.map_map]
  rfl

/-- Whether the text of a path from each of some pieces to the last of them is that of the pieces
with a slash between them. -/
def Joined (path : String) (pieces : List Piece) : Prop :=
  ∀ before first rest, pieces = before ++ first :: rest →
    (sliceFrom path first rest).toList =
      Text.joinFields '/' ((first :: rest).map fun piece => piece.text.toList)

theorem Joined.tail {path : String} {piece : Piece} {rest : List Piece}
    (joined : Joined path (piece :: rest)) : Joined path rest := by
  intro before first others equal
  exact joined (piece :: before) first others (by rw [equal, List.cons_append])

theorem joined_of_single {path : String} (single : ¬ ['/', '/'] <:+: path.toList) :
    Joined path (pieces path) := by
  intro before first rest cut
  rcases (isRest_sliceFrom cut).1.within with ⟨earlier, later, whole, -, -⟩
  have within : (sliceFrom path first rest).toList <:+: path.toList :=
    ⟨earlier, later, by rw [whole, List.append_assoc]⟩
  -- A slice of such a path has nothing that tidying would take away.
  have tidy : squeeze (sliceFrom path first rest).toList = (sliceFrom path first rest).toList := by
    apply squeeze_eq_self
    rw [← Bool.not_eq_true, hasDoubleSlash_iff]
    exact fun double => single (double.trans within)
  rw [← tidy, squeeze_sliceFrom cut]

theorem spans_joinFields {parts : List (List Char)} (nonempty : parts ≠ [])
    (each : ∀ part ∈ parts, part ≠ [] ∧ '/' ∉ part) :
    Spans parts (Text.joinFields '/' parts) := by
  induction parts with
  | nil => exact absurd rfl nonempty
  | cons part others induction =>
      rw [List.forall_mem_cons] at each
      by_cases last : others = []
      · subst last
        exact spans_single each.1.1 each.1.2
      · rw [Text.joinFields_cons last]
        exact (induction last each.2).cons each.1.1 each.1.2 (List.forall_mem_nil _)

theorem not_infix_lead_joinFields {lead : List Char} (short : lead = [] ∨ lead = ['/'])
    {parts : List (List Char)} (each : ∀ part ∈ parts, part ≠ [] ∧ '/' ∉ part) :
    ¬ ['/', '/'] <:+: lead ++ Text.joinFields '/' parts := by
  rw [← hasDoubleSlash_iff, Bool.not_eq_true]
  by_cases none : parts = []
  · subst none
    rcases short with rfl | rfl <;> rfl
  · have spans := spans_joinFields none each
    have single : hasDoubleSlash (Text.joinFields '/' parts) = false := by
      rw [← spans.cut, ← squeeze_eq_joinFields spans.begins spans.ends]
      exact hasDoubleSlash_squeeze _
    rcases short with rfl | rfl
    · exact single
    · rcases spans.begins with ⟨first, rest, text, different⟩
      rw [List.singleton_append, hasDoubleSlash_cons, single, text]
      simp [different]

theorem joined_pieces {path : String} {lead : List Char} (short : lead = [] ∨ lead = ['/'])
    {parts : List (List Char)} (each : ∀ part ∈ parts, part ≠ [] ∧ '/' ∉ part)
    (tidy : path.toList = lead ++ Text.joinFields '/' parts) : Joined path (pieces path) :=
  joined_of_single (tidy ▸ not_infix_lead_joinFields short each)

end Path

end UrlRouting
