import Mathlib.Data.String.Basic
import UrlRouting.Proofs.Path

/-!
The shape of tidy paths. Tidying leaves the pieces of a path with one slash between them, and at
most a slash in front.
-/

namespace UrlRouting

namespace Text

theorem joinFields_cons {separator : Char} {field : List Char} {others : List (List Char)}
    (nonempty : others ≠ []) :
    joinFields separator (field :: others) = field ++ separator :: joinFields separator others := by
  cases others with
  | nil => exact absurd rfl nonempty
  | cons second rest => rfl

theorem fields_joinFields {separator : Char} {parts : List (List Char)} (nonempty : parts ≠ [])
    (whole : ∀ part ∈ parts, separator ∉ part) :
    fields separator (joinFields separator parts) = parts := by
  induction parts with
  | nil => exact absurd rfl nonempty
  | cons part others induction =>
      have first := fields_of_notMem (whole part (by simp))
      by_cases last : others = []
      · subst last
        exact first
      · rw [joinFields_cons last, fields_append, first,
          induction last fun part member => whole part (by simp [member])]
        rfl

theorem exists_tail_of_joinFields (separator : Char) (field : List Char)
    (others : List (List Char)) :
    ∃ tail : List Char, joinFields separator (field :: others) = field ++ tail ∧
      (tail = [] ∨ tail.head? = some separator) := by
  cases others with
  | nil => exact ⟨[], (List.append_nil _).symm, .inl rfl⟩
  | cons second others => exact ⟨_, joinFields_cons (List.cons_ne_nil _ _), .inr rfl⟩

theorem mem_joinFields {separator character : Char} {parts : List (List Char)}
    (member : character ∈ joinFields separator parts) :
    character = separator ∨ ∃ part ∈ parts, character ∈ part := by
  induction parts with
  | nil => cases member
  | cons part others induction =>
      by_cases last : others = []
      · subst last
        exact .inr ⟨part, List.mem_cons_self, member⟩
      · rw [joinFields_cons last] at member
        rcases List.mem_append.mp member with here | rest
        · exact .inr ⟨part, List.mem_cons_self, here⟩
        · rcases List.mem_cons.mp rest with same | later
          · exact .inl same
          · rcases induction later with same | ⟨other, inOthers, inside⟩
            · exact .inl same
            · exact .inr ⟨other, List.mem_cons_of_mem _ inOthers, inside⟩

theorem length_fields (separator : Char) (text : List Char) :
    (fields separator text).length = text.count separator + 1 := by
  induction text with
  | nil => rfl
  | cons character rest induction =>
      by_cases separates : character = separator
      · rw [separates, fields_cons_separator, List.length_cons, induction, List.count_cons_self]
      · rw [fields, if_neg separates, List.count_cons_of_ne separates, ← induction]
        cases cut : fields separator rest with
        | nil => exact absurd cut (fields_ne_nil separator rest)
        | cons first others => rfl

theorem joinFields_append_cancel {separator : Char} {before firsts seconds : List (List Char)}
    {first second : List Char}
    (equal : joinFields separator (before ++ first :: firsts) =
      joinFields separator (before ++ second :: seconds)) :
    joinFields separator (first :: firsts) = joinFields separator (second :: seconds) := by
  induction before with
  | nil => exact equal
  | cons field before induction =>
      rw [List.cons_append, List.cons_append, joinFields_cons (by simp),
        joinFields_cons (by simp)] at equal
      exact induction (List.cons.inj (List.append_cancel_left equal)).2

theorem trimEnd_append {drop : Char → Bool} {before : List Char} {last : Char}
    (kept : drop last = false) (after : List Char) :
    trimEnd drop (before ++ last :: after) = before ++ last :: trimEnd drop after := by
  simp only [trimEnd, List.reverse_append, List.reverse_cons, List.append_assoc,
    List.singleton_append]
  rw [List.dropWhile_append]
  split
  case isTrue empty =>
    rw [List.isEmpty_iff] at empty
    rw [List.dropWhile_cons_of_neg (by simp [kept]), empty]
    simp
  case isFalse => simp

theorem trimEnd_eq_self {drop : Char → Bool} {text : List Char}
    (kept : ∀ last ∈ text.getLast?, drop last = false) : trimEnd drop text = text := by
  rcases List.eq_nil_or_concat text with rfl | ⟨before, last, rfl⟩
  · rfl
  · rw [List.concat_eq_append] at kept ⊢
    exact trimEnd_append (kept last List.getLast?_concat) []

end Text

namespace Path

open String (utf8Len)

theorem squeeze_cons_of_ne {character : Char} (different : character ≠ '/') (rest : List Char) :
    squeeze (character :: rest) = character :: squeeze rest := by
  rw [squeeze]
  intro others equal
  exact absurd equal different

theorem squeeze_append {text : List Char} (whole : '/' ∉ text) (rest : List Char) :
    squeeze (text ++ rest) = text ++ squeeze rest := by
  induction text with
  | nil => rfl
  | cons character others induction =>
      rw [List.mem_cons, not_or] at whole
      rw [List.cons_append, squeeze_cons_of_ne (Ne.symm whole.1), induction whole.2,
        List.cons_append]

theorem squeeze_slash_cons {character : Char} (different : character ≠ '/') (rest : List Char) :
    squeeze ('/' :: character :: rest) = '/' :: squeeze (character :: rest) := by
  rw [squeeze]
  intro others _ equal
  exact different (List.cons.inj equal).1

theorem head?_squeeze (text : List Char) : (squeeze text).head? = text.head? := by
  fun_induction squeeze text with
  | case1 rest induction => exact induction
  | case2 character rest _ induction => rfl
  | case3 => rfl

theorem getLast?_squeeze (text : List Char) : (squeeze text).getLast? = text.getLast? := by
  fun_induction squeeze text with
  | case1 rest induction => rw [induction, List.getLast?_cons_cons]
  | case2 character rest _ induction => rw [List.getLast?_cons, induction, List.getLast?_cons]
  | case3 => rfl

theorem hasDoubleSlash_iff {text : List Char} :
    hasDoubleSlash text = true ↔ ['/', '/'] <:+: text := by
  induction text with
  | nil => simp [hasDoubleSlash]
  | cons character rest induction =>
      rw [hasDoubleSlash_cons, Bool.or_eq_true, induction, List.infix_cons_iff]
      cases rest with
      | nil => simp
      | cons next others => simp [List.cons_prefix_cons, @eq_comm Char '/']

theorem hasDoubleSlash_squeeze (text : List Char) : hasDoubleSlash (squeeze text) = false := by
  fun_induction squeeze text with
  | case1 rest induction => exact induction
  | case2 character rest single induction =>
      rw [hasDoubleSlash_cons, head?_squeeze, induction, Bool.or_false, Bool.and_eq_false_iff]
      by_cases slash : character = '/'
      · right
        rw [beq_eq_false_iff_ne]
        intro next
        rcases List.head?_eq_some_iff.mp next with ⟨others, rfl⟩
        exact single others slash rfl
      · exact .inl (beq_eq_false_iff_ne.mpr slash)
  | case3 => rfl

theorem squeeze_eq_self {text : List Char} (single : hasDoubleSlash text = false) :
    squeeze text = text := by
  fun_induction squeeze text with
  | case1 rest induction => cases single
  | case2 character rest _ induction =>
      rw [hasDoubleSlash_cons, Bool.or_eq_false_iff] at single
      rw [induction single.2]
  | case3 => rfl

theorem trimEnd_squeeze_joinFields {fields : List (List Char)} (nonempty : fields ≠ [])
    (whole : ∀ field ∈ fields, '/' ∉ field) :
    Text.trimEnd (· == '/') (squeeze ('/' :: Text.joinFields '/' fields)) =
      rooted (fields.filter (!·.isEmpty)) := by
  induction fields with
  | nil => exact absurd rfl nonempty
  | cons field others induction =>
      have later : others ≠ [] → _ := fun notLast =>
        induction notLast fun field member => whole field (by simp [member])
      cases field with
      | nil =>
          by_cases last : others = []
          · subst last
            rfl
          · rw [Text.joinFields_cons last, List.nil_append, squeeze, later last]
            rfl
      | cons character rest =>
          have fieldWhole := whole (character :: rest) (by simp)
          have different : character ≠ '/' := fun slash => fieldWhole (by simp [slash])
          rcases List.eq_nil_or_concat (character :: rest) with empty | ⟨before, final, ends⟩
          · cases empty
          · have kept : (final == '/') = false := by
              rw [beq_eq_false_iff_ne]
              exact fun slash => fieldWhole (by simp [ends, slash])
            have trimmed : ∀ after, Text.trimEnd (· == '/') ('/' :: (character :: rest) ++ after) =
                '/' :: (character :: rest) ++ Text.trimEnd (· == '/') after := by
              intro after
              have here := @Text.trimEnd_append (· == '/') ('/' :: before) final kept after
              rw [ends]
              simpa using here
            by_cases last : others = []
            · subst last
              have alone := trimmed []
              rw [Text.joinFields, squeeze_slash_cons different,
                ← List.append_nil (character :: rest), squeeze_append fieldWhole]
              simpa [rooted, squeeze, Text.trimEnd] using alone
            · rw [Text.joinFields_cons last, List.cons_append, squeeze_slash_cons different,
                ← List.cons_append, squeeze_append fieldWhole, ← List.cons_append, trimmed,
                later last]
              rfl

theorem trimEnd_squeeze_slash (text : List Char) :
    Text.trimEnd (· == '/') (squeeze ('/' :: text)) = rooted (pieceTexts text) := by
  have here := trimEnd_squeeze_joinFields (Text.fields_ne_nil '/' text)
    fun field member => Text.separator_notMem_of_mem_fields member
  rwa [Text.joinFields_fields] at here

theorem toList_collapse_of_slash {path : String} {rest : List Char}
    (text : path.toList = '/' :: rest) :
    (collapse path).toList = '/' :: Text.joinFields '/' (pieceTexts path.toList) := by
  rw [collapse, text, trimEnd_squeeze_slash, pieceTexts_cons_slash]
  by_cases none : pieceTexts rest = []
  · rw [none]
    rfl
  · rw [rooted_eq_joinFields none]
    simp

theorem toList_collapse_of_ne {path : String} {character : Char} {rest : List Char}
    (text : path.toList = character :: rest) (different : character ≠ '/') :
    (collapse path).toList = Text.joinFields '/' (pieceTexts path.toList) := by
  have kept : (character == '/') = false := beq_eq_false_iff_ne.mpr different
  have withSlash := trimEnd_squeeze_slash (character :: rest)
  have first := @Text.trimEnd_append (· == '/') ['/'] character kept (squeeze rest)
  have alone := @Text.trimEnd_append (· == '/') [] character kept (squeeze rest)
  rw [List.nil_append] at alone
  rw [squeeze_slash_cons different, squeeze_cons_of_ne different] at withSlash
  rw [collapse, text, squeeze_cons_of_ne different, alone]
  rw [List.singleton_append, withSlash] at first
  by_cases none : pieceTexts (character :: rest) = []
  · rw [none] at first
    cases first
  · rw [rooted_eq_joinFields none] at first
    rw [(List.cons.inj first).2]
    simp

/-- A tidy path consists of the pieces with a slash between them, and at most one in front. -/
theorem exists_toList_collapse (path : String) :
    ∃ lead, (lead = [] ∨ lead = ['/']) ∧
      (collapse path).toList = lead ++ Text.joinFields '/' (pieceTexts path.toList) := by
  cases text : path.toList with
  | nil =>
      refine ⟨['/'], .inr rfl, ?_⟩
      rw [collapse, text]
      rfl
  | cons character rest =>
      rw [← text]
      by_cases slash : character = '/'
      · subst slash
        exact ⟨['/'], .inr rfl, toList_collapse_of_slash text⟩
      · exact ⟨[], .inl rfl, toList_collapse_of_ne text slash⟩

theorem pieceTexts_joinFields {parts : List (List Char)}
    (each : ∀ part ∈ parts, part ≠ [] ∧ '/' ∉ part) :
    pieceTexts (Text.joinFields '/' parts) = parts := by
  by_cases none : parts = []
  · subst none
    rfl
  · have whole := pieceTexts_rooted each
    rwa [rooted_eq_joinFields none, pieceTexts_cons_slash] at whole

theorem pieceTexts_lead_joinFields {lead : List Char} (short : lead = [] ∨ lead = ['/'])
    {parts : List (List Char)} (each : ∀ part ∈ parts, part ≠ [] ∧ '/' ∉ part) :
    pieceTexts (lead ++ Text.joinFields '/' parts) = parts := by
  rcases short with rfl | rfl
  · exact pieceTexts_joinFields each
  · exact (pieceTexts_cons_slash _).trans (pieceTexts_joinFields each)

theorem texts_collapse (path : String) : texts (collapse path) = texts path := by
  rcases exists_toList_collapse path with ⟨lead, short, tidy⟩
  rw [texts, tidy, pieceTexts_lead_joinFields short, texts]
  intro part member
  exact ⟨ne_nil_of_mem_pieceTexts member, slash_notMem_of_mem_pieceTexts member⟩

/-! ### Pieces by their bytes -/

theorem utf8Len_slash_cons (rest : List Char) : utf8Len ('/' :: rest) = utf8Len rest + 1 := rfl

theorem piecesFrom_cons {field : List Char} (nonempty : field ≠ []) (offset : Nat)
    (others : List (List Char)) :
    piecesFrom offset (field :: others) =
      ⟨offset, String.ofList field⟩ :: piecesFrom (offset + utf8Len field + 1) others := by
  cases field with
  | nil => exact absurd rfl nonempty
  | cons character rest => rw [piecesFrom, Piece.stop, String.utf8ByteSize_ofList]; simp

theorem slice_of_toList {path : String} {before text after : List Char}
    (whole : path.toList = before ++ (text ++ after)) :
    slice path (utf8Len before) (utf8Len before + utf8Len text) = String.ofList text := by
  rw [slice, ← String.ofList_toList (s := path), whole, ← List.append_assoc,
    String.extract_of_valid]

end Path

end UrlRouting
