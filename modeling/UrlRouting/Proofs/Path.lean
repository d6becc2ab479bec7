import UrlRouting.Path

/-!
Paths as lists of pieces. Where a path leads depends only on the texts of its non-empty pieces;
`texts` lists them without their places. The normal form is the one path that is written from these
texts with a slash before each.
-/

namespace UrlRouting

namespace Text

theorem fields_cons_separator (separator : Char) (rest : List Char) :
    fields separator (separator :: rest) = [] :: fields separator rest := by
  rw [fields, if_pos rfl]

theorem fields_cons_of_ne {separator character : Char} (different : character ≠ separator)
    {rest first : List Char} {others : List (List Char)}
    (cut : fields separator rest = first :: others) :
    fields separator (character :: rest) = (character :: first) :: others := by
  rw [fields, if_neg different, cut]

theorem fields_eq_splitOn (separator : Char) (text : List Char) :
    fields separator text = text.splitOn separator := by
  rw [List.splitOn_eq_splitOnP]
  induction text with
  | nil => rfl
  | cons character rest induction =>
      rw [List.splitOnP_cons_eq_if_modifyHead, ← induction]
      by_cases separates : character = separator
      · rw [separates, fields_cons_separator, if_pos (beq_self_eq_true separator)]
      · rw [if_neg (by simpa using separates)]
        cases cut : fields separator rest with
        | nil => exact absurd cut (fields_ne_nil separator rest)
        | cons first others => rw [fields_cons_of_ne separates cut, List.modifyHead_cons]

theorem fields_append (separator : Char) (left right : List Char) :
    fields separator (left ++ separator :: right) =
      fields separator left ++ fields separator right := by
  induction left with
  | nil => exact fields_cons_separator separator right
  | cons character rest induction =>
      by_cases equal : character = separator
      · subst equal
        rw [List.cons_append, fields_cons_separator, fields_cons_separator, induction,
          List.cons_append]
      · cases cut : fields separator rest with
        | nil => exact absurd cut (fields_ne_nil separator rest)
        | cons first others =>
            rw [cut, List.cons_append] at induction
            rw [List.cons_append, fields_cons_of_ne equal induction,
              fields_cons_of_ne equal cut, List.cons_append]

theorem fields_append_of_notMem {separator : Char} {text rest first : List Char}
    {others : List (List Char)} (absent : separator ∉ text)
    (cut : fields separator rest = first :: others) :
    fields separator (text ++ rest) = (text ++ first) :: others := by
  induction text with
  | nil => exact cut
  | cons character text induction =>
      rw [List.mem_cons, not_or] at absent
      exact fields_cons_of_ne (Ne.symm absent.1) (induction absent.2)

theorem fields_of_notMem {separator : Char} {text : List Char} (absent : separator ∉ text) :
    fields separator text = [text] := by
  have whole := fields_append_of_notMem absent (show fields separator [] = [[]] from rfl)
  rwa [List.append_nil] at whole

theorem exists_split_joinFields {separator : Char} {parts : List (List Char)} {field : List Char}
    (member : field ∈ parts) :
    ∃ before after, joinFields separator parts = before ++ (field ++ after) ∧
      (before = [] ∨ before.getLast? = some separator) := by
  induction parts with
  | nil => cases member
  | cons part others induction =>
      cases others with
      | nil =>
          rw [List.mem_singleton.mp member]
          exact ⟨[], [], by rw [joinFields, List.nil_append, List.append_nil], .inl rfl⟩
      | cons second rest =>
          rcases List.mem_cons.mp member with rfl | later
          · exact ⟨[], _, rfl, .inl rfl⟩
          · rcases induction later with ⟨before, after, split, begins⟩
            refine ⟨part ++ separator :: before, after, by simp [joinFields, split], .inr ?_⟩
            rcases begins with rfl | last
            · simp
            · simp [List.getLast?_append, List.getLast?_cons, last]

theorem exists_split_of_mem_fields {separator : Char} {text field : List Char}
    (member : field ∈ fields separator text) :
    ∃ before after, text = before ++ (field ++ after) ∧
      (before = [] ∨ before.getLast? = some separator) := by
  have split := @exists_split_joinFields separator _ _ member
  rwa [joinFields_fields] at split

theorem isInfix_of_mem_fields {separator : Char} {text field : List Char}
    (member : field ∈ fields separator text) : field <:+: text := by
  rcases exists_split_of_mem_fields member with ⟨before, after, rfl, -⟩
  exact ⟨before, after, by rw [List.append_assoc]⟩

end Text

namespace Path

def pieceTexts (text : List Char) : List (List Char) :=
  (Text.fields '/' text).filter (!·.isEmpty)

def texts (path : String) : List String :=
  (pieceTexts path.toList).map String.ofList

def IsPiece (text : String) : Prop :=
  text ≠ "" ∧ '/' ∉ text.toList

theorem pieceTexts_append (left right : List Char) :
    pieceTexts (left ++ '/' :: right) = pieceTexts left ++ pieceTexts right := by
  rw [pieceTexts, Text.fields_append, List.filter_append]
  rfl

theorem pieceTexts_cons_slash (text : List Char) : pieceTexts ('/' :: text) = pieceTexts text :=
  pieceTexts_append [] text

theorem pieceTexts_of_piece {text : List Char} (nonempty : text ≠ []) (whole : '/' ∉ text) :
    pieceTexts text = [text] := by
  rw [pieceTexts, Text.fields_of_notMem whole]
  simp [nonempty]

theorem ne_nil_of_mem_pieceTexts {text piece : List Char} (member : piece ∈ pieceTexts text) :
    piece ≠ [] := by
  simpa using (List.mem_filter.mp member).2

theorem slash_notMem_of_mem_pieceTexts {text piece : List Char}
    (member : piece ∈ pieceTexts text) : '/' ∉ piece :=
  Text.separator_notMem_of_mem_fields (List.mem_filter.mp member).1

theorem isInfix_of_mem_pieceTexts {text piece : List Char} (member : piece ∈ pieceTexts text) :
    piece <:+: text :=
  Text.isInfix_of_mem_fields (List.mem_filter.mp member).1

theorem exists_split_of_mem_pieceTexts {text piece : List Char}
    (member : piece ∈ pieceTexts text) :
    ∃ before after, text = before ++ (piece ++ after) ∧
      (before = [] ∨ before.getLast? = some '/') :=
  Text.exists_split_of_mem_fields (List.mem_filter.mp member).1

theorem exists_mem_pieceTexts_append {text : List Char} (nonempty : text ≠ [])
    (whole : '/' ∉ text) (rest : List Char) : ∃ more, text ++ more ∈ pieceTexts (text ++ rest) := by
  cases cut : Text.fields '/' rest with
  | nil => exact absurd cut (Text.fields_ne_nil '/' rest)
  | cons first others =>
      refine ⟨first, ?_⟩
      rw [pieceTexts, Text.fields_append_of_notMem whole cut]
      simp [nonempty]

def EndsPiece (rest : List Char) : Prop :=
  rest = [] ∨ ∃ others, rest = '/' :: others

theorem pieceTexts_append_of_endsPiece {rest : List Char} (ends : EndsPiece rest)
    (text : List Char) : pieceTexts (text ++ rest) = pieceTexts text ++ pieceTexts rest := by
  rcases ends with rfl | ⟨others, rfl⟩
  · simp [pieceTexts, Text.fields]
  · rw [pieceTexts_append, pieceTexts_cons_slash]

theorem pieceTexts_append_of_getLast? {text : List Char} (last : text.getLast? = some '/')
    (rest : List Char) : pieceTexts (text ++ rest) = pieceTexts text ++ pieceTexts rest := by
  rcases List.getLast?_eq_some_iff.mp last with ⟨before, rfl⟩
  have alone := pieceTexts_append before []
  rw [show pieceTexts [] = [] from rfl, List.append_nil] at alone
  rw [List.append_assoc, List.singleton_append, pieceTexts_append, alone]

theorem isPiece_of_mem_texts {path text : String} (member : text ∈ texts path) :
    IsPiece text := by
  rcases List.mem_map.mp member with ⟨piece, pieceMem, rfl⟩
  refine ⟨fun empty => ne_nil_of_mem_pieceTexts pieceMem ?_, ?_⟩
  · simpa using empty
  · simpa using slash_notMem_of_mem_pieceTexts pieceMem

theorem map_toList_texts (path : String) :
    (texts path).map String.toList = pieceTexts path.toList := by
  simp [texts, Function.comp_def]

theorem texts_piecesFrom (offset : Nat) (fields : List (List Char)) :
    (piecesFrom offset fields).map Piece.text =
      (fields.filter (!·.isEmpty)).map String.ofList := by
  induction fields generalizing offset with
  | nil => rfl
  | cons field others induction =>
      cases field with
      | nil => simpa [piecesFrom] using induction (offset + 1)
      | cons character rest => simp [piecesFrom, induction]

theorem texts_pieces (path : String) : (pieces path).map Piece.text = texts path :=
  texts_piecesFrom 0 _

/-! ### The normal form -/

def rooted (pieces : List (List Char)) : List Char :=
  pieces.flatMap ('/' :: ·)

theorem rooted_eq_joinFields {pieces : List (List Char)} (nonempty : pieces ≠ []) :
    rooted pieces = '/' :: Text.joinFields '/' pieces := by
  induction pieces with
  | nil => exact absurd rfl nonempty
  | cons piece others induction =>
      cases others with
      | nil => simp [rooted, Text.joinFields]
      | cons second rest =>
          have later := induction (by simp)
          rw [rooted, List.flatMap_cons, ← rooted, later]
          rfl

theorem pieceTexts_append_rooted (text : List Char) (pieces : List (List Char)) :
    pieceTexts (text ++ rooted pieces) = pieceTexts text ++ pieceTexts (rooted pieces) := by
  cases pieces with
  | nil => simp [rooted, pieceTexts, Text.fields]
  | cons piece others =>
      rw [rooted, List.flatMap_cons, List.cons_append, pieceTexts_append, pieceTexts_cons_slash]

theorem pieceTexts_rooted {pieces : List (List Char)}
    (each : ∀ piece ∈ pieces, piece ≠ [] ∧ '/' ∉ piece) : pieceTexts (rooted pieces) = pieces := by
  induction pieces with
  | nil => rfl
  | cons piece others induction =>
      have first := each piece (by simp)
      have later := induction fun piece member => each piece (by simp [member])
      rw [rooted, List.flatMap_cons, ← rooted, List.cons_append, pieceTexts_cons_slash,
        pieceTexts_append_rooted, pieceTexts_of_piece first.1 first.2, later]
      rfl

theorem toList_ofPieces {texts : List String} (nonempty : texts ≠ []) :
    (ofPieces texts).toList = rooted (texts.map String.toList) := by
  cases texts with
  | nil => exact absurd rfl nonempty
  | cons text others => simp [ofPieces, rooted, List.flatMap_map]

theorem texts_ofPieces {pieces : List String} (each : ∀ piece ∈ pieces, IsPiece piece) :
    texts (ofPieces pieces) = pieces := by
  by_cases empty : pieces = []
  · subst empty
    rfl
  · rw [texts, toList_ofPieces empty, pieceTexts_rooted]
    · simp [Function.comp_def]
    · intro text member
      rcases List.mem_map.mp member with ⟨piece, pieceMem, rfl⟩
      have piece := each piece pieceMem
      exact ⟨fun nil => piece.1 (String.toList_eq_nil_iff.mp nil), piece.2⟩

theorem ofPieces_injective {left right : List String} (leftPieces : ∀ piece ∈ left, IsPiece piece)
    (rightPieces : ∀ piece ∈ right, IsPiece piece) (equal : ofPieces left = ofPieces right) :
    left = right := by
  rw [← texts_ofPieces leftPieces, equal, texts_ofPieces rightPieces]

theorem hasDoubleSlash_cons (character : Char) (rest : List Char) :
    hasDoubleSlash (character :: rest) =
      (character == '/' && rest.head? == some '/' || hasDoubleSlash rest) := by
  by_cases slash : character = '/'
  · subst slash
    cases rest with
    | nil => rfl
    | cons next others =>
        by_cases second : next = '/'
        · subst second
          rfl
        · simp [hasDoubleSlash, second]
  · simp [hasDoubleSlash, slash]

theorem ne_nil_of_mem_tail_fields {text field : List Char} (single : hasDoubleSlash text = false)
    (last : text.getLast? ≠ some '/') (member : field ∈ (Text.fields '/' text).tail) :
    field ≠ [] := by
  induction text with
  | nil => simp [Text.fields] at member
  | cons character rest induction =>
      rw [hasDoubleSlash_cons, Bool.or_eq_false_iff] at single
      have later : rest ≠ [] → rest.getLast? ≠ some '/' := fun nonempty => by
        rwa [List.getLast?_cons_of_ne_nil nonempty] at last
      by_cases slash : character = '/'
      · subst slash
        rw [Text.fields_cons_separator, List.tail_cons] at member
        cases rest with
        | nil => exact absurd rfl last
        | cons next others =>
            have different : next ≠ '/' := by simpa using single.1
            cases cut : Text.fields '/' others with
            | nil => exact absurd cut (Text.fields_ne_nil '/' others)
            | cons first fields =>
                have whole := Text.fields_cons_of_ne different cut
                rw [whole] at member
                rcases List.mem_cons.mp member with equal | inTail
                · simp [equal]
                · exact induction single.2 (later (by simp)) (by rwa [whole])
      · cases cut : Text.fields '/' rest with
        | nil => exact absurd cut (Text.fields_ne_nil '/' rest)
        | cons first fields =>
            rw [Text.fields_cons_of_ne slash cut] at member
            cases rest with
            | nil => simp [Text.fields] at cut; simp [cut] at member
            | cons next others => exact induction single.2 (later (by simp)) (by rwa [cut])

theorem eq_rooted_of_isNormal {path : String} (normal : isNormal path = true) :
    path.toList = rooted (pieceTexts path.toList) := by
  simp only [isNormal, Bool.and_eq_true, beq_iff_eq, bne_iff_ne, Bool.not_eq_true'] at normal
  rcases normal with ⟨⟨first, last⟩, single⟩
  cases text : path.toList with
  | nil => simp [text] at first
  | cons character rest =>
      rw [text] at first last single
      have slash : character = '/' := by simpa using first
      subst slash
      have fields := Text.fields_cons_separator '/' rest
      have nonempty : ∀ field ∈ Text.fields '/' rest, field ≠ [] := fun field member =>
        ne_nil_of_mem_tail_fields single last (by rwa [fields])
      have all : (Text.fields '/' rest).filter (!·.isEmpty) = Text.fields '/' rest :=
        List.filter_eq_self.mpr fun field member => by simpa using nonempty field member
      rw [pieceTexts, fields, List.filter_cons_of_neg (by simp), all,
        rooted_eq_joinFields (Text.fields_ne_nil '/' rest), Text.joinFields_fields]

theorem normalForm_eq_ofPieces (path : String) : normalForm path = ofPieces (texts path) := by
  rw [normalForm, texts_pieces]
  split
  case isTrue empty =>
    rw [List.isEmpty_iff.mp empty]
    rfl
  case isFalse nonempty =>
    split
    case isTrue normal =>
      apply String.toList_injective
      rw [toList_ofPieces (by simpa using nonempty), texts, List.map_map]
      simpa [Function.comp_def] using eq_rooted_of_isNormal normal
    case isFalse => rfl

end Path

end UrlRouting
