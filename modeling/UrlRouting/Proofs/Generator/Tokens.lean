import UrlRouting.Proofs.Generator.Written
import UrlRouting.Proofs.Pattern.Template

/-!
Templates and generated paths from the same tokens. Cut into pieces they correspond token by token:
a variable has a piece of its own in the template, so the pieces of its value are pieces of the
path.
-/

namespace UrlRouting

namespace Generator

open Pattern (Variable Token Variant CaptureFree Separated)
open Template

def takenBy (arguments : Arguments) (tokens : List Token) : List (Variable × String) :=
  (tokens.filterMap Token.parameter?).map fun parameter =>
    (parameter, (arguments.get? parameter.name).getD "")

/-- Whether tokens with some arguments can be written so that they are read back: literal text is
written as it is, and each variable takes its value. -/
structure Suits (encoding : Encoding) (literal : List Char → Prop) (arguments : Arguments)
    (tokens : List Token) : Prop where
  separated : Separated tokens
  named : ∀ parameter, .placeholder parameter ∈ tokens → parameter.Named
  plain : ∀ text, .literal text ∈ tokens → encoding.IsPlain text.toList
  literal : ∀ text, .literal text ∈ tokens → ∀ piece ∈ Path.pieceTexts text.toList, literal piece
  takes : ∀ parameter, .placeholder parameter ∈ tokens →
    ∃ value, arguments.get? parameter.name = some value ∧ parameter.Takes value

variable {encoding : Encoding} {literal : List Char → Prop} {arguments : Arguments}
  {tokens : List Token} {pattern : String} {begins : Bool} {template path : String}

theorem Suits.tail {token : Token} (suits : Suits encoding literal arguments (token :: tokens)) :
    Suits encoding literal arguments tokens where
  separated := suits.separated.tail
  named := fun parameter member => suits.named parameter (List.mem_cons_of_mem _ member)
  plain := fun text member => suits.plain text (List.mem_cons_of_mem _ member)
  literal := fun text member => suits.literal text (List.mem_cons_of_mem _ member)
  takes := fun parameter member => suits.takes parameter (List.mem_cons_of_mem _ member)

theorem Suits.literal_pieces {text : String} (suits : Suits encoding literal arguments tokens)
    (member : .literal text ∈ tokens) :
    ∀ piece ∈ Path.pieceTexts text.toList,
      encoding.IsPlain piece ∧ literal piece ∧ piece ≠ [] ∧ '/' ∉ piece := by
  intro piece inPieces
  refine ⟨?_, suits.literal text member piece inPieces, Path.ne_nil_of_mem_pieceTexts inPieces,
    Path.slash_notMem_of_mem_pieceTexts inPieces⟩
  apply (suits.plain text member).of_subset
  exact fun character inPiece =>
    (Path.isInfix_of_mem_pieceTexts inPieces).subset inPiece

/-! ### Paths from tokens -/

theorem pathText_cons {token : Token}
    (wrote : pathText encoding pattern arguments (token :: tokens) = .ok path) :
    ∃ text rest, tokenText encoding pattern arguments token = .ok text ∧
      pathText encoding pattern arguments tokens = .ok rest ∧ path = text ++ rest := by
  rw [pathText] at wrote
  cases first : tokenText encoding pattern arguments token with
  | error error =>
      rw [first] at wrote
      cases wrote
  | ok text =>
      cases later : pathText encoding pattern arguments tokens with
      | error error =>
          rw [first, later] at wrote
          cases wrote
      | ok rest =>
          rw [first, later] at wrote
          cases wrote
          exact ⟨text, rest, rfl, rfl, rfl⟩

theorem tokenText_placeholder {parameter : Variable} {value text : String}
    (known : arguments.get? parameter.name = some value) (nonempty : value ≠ "")
    (wrote : tokenText encoding pattern arguments (.placeholder parameter) = .ok text) :
    text = encodeValue encoding parameter value := by
  rw [tokenText, known, Option.filter_some, if_pos (by simpa using nonempty)] at wrote
  cases checked : checkValue pattern parameter value with
  | error error =>
      simp only [checked] at wrote
      cases wrote
  | ok _ =>
      simp only [checked] at wrote
      cases wrote
      rfl

theorem endsPiece_of_pathText (ends : Variant.beginsPiece tokens = true)
    (wrote : pathText encoding pattern arguments tokens = .ok path) :
    Path.EndsPiece path.toList := by
  cases tokens with
  | nil =>
      cases wrote
      exact .inl rfl
  | cons token rest =>
      cases token with
      | placeholder parameter => cases ends
      | literal text =>
          rcases pathText_cons wrote with ⟨_, written, same, -, rfl⟩
          cases same
          rw [Variant.beginsPiece, beq_iff_eq] at ends
          rcases List.head?_eq_some_iff.mp ends with ⟨after, begun⟩
          exact .inr ⟨after ++ written.toList, by rw [String.toList_append, begun]; rfl⟩

theorem pieceTexts_encodeValue {parameter : Variable} {value : String}
    (takes : parameter.Takes value) (encoding : Encoding) :
    Path.pieceTexts (encodeValue encoding parameter value).toList =
      (Text.fields '/' value.toList).map encoding.encodeChars := by
  rw [toList_encodeValue takes]
  apply Path.pieceTexts_joinFields
  intro part member
  rcases List.mem_map.mp member with ⟨field, inFields, rfl⟩
  exact ⟨encoding.encodeChars_ne_nil (takes.isPiece field inFields).1,
    encoding.slash_notMem_encodeChars field⟩

theorem written_of_tokens (suits : Suits encoding literal arguments tokens)
    (read : Variant.templateFrom begins tokens = .ok template)
    (wrote : pathText encoding pattern arguments tokens = .ok path) :
    ∃ plain, Written encoding literal (Path.pieceTexts template.toList)
      (Path.pieceTexts path.toList) plain (takenBy arguments tokens) := by
  -- What a token gives stands in pieces of its own, so those of the rest are found by induction.
  induction tokens generalizing begins template path with
  | nil =>
      cases read
      cases wrote
      exact ⟨[], .nil⟩
  | cons token rest induction =>
      cases token with
      | literal text =>
          rcases Pattern.templateFrom_literal read with ⟨others, readRest, rfl⟩
          rcases pathText_cons wrote with ⟨_, written, same, wroteRest, rfl⟩
          cases same
          rcases induction suits.tail readRest wroteRest with ⟨plain, given⟩
          have apart := Pattern.pieceTexts_append_of_templateFrom suits.separated readRest
          have templateApart := apart others.toList (by
            rintro rfl
            cases readRest
            rfl)
          have pathApart := apart written.toList (by
            rintro rfl
            cases wroteRest
            rfl)
          rw [String.toList_append, String.toList_append, templateApart, pathApart]
          exact ⟨_, given.append_literals (suits.literal_pieces (by simp))⟩
      | placeholder parameter =>
          rcases Pattern.templateFrom_placeholder read with ⟨-, ends, others, readRest, rfl⟩
          rcases pathText_cons wrote with ⟨_, written, here, wroteRest, rfl⟩
          rcases suits.takes parameter (by simp) with ⟨value, known, takes⟩
          have named := suits.named parameter (by simp)
          rcases induction suits.tail readRest wroteRest with ⟨plain, given⟩
          have endsTemplate := Pattern.endsPiece_of_templateFrom ends readRest
          have endsPath := endsPiece_of_pathText ends wroteRest
          have variableText : (":" ++ parameter.name ++ parameter.quantifier.mark).toList =
              ':' :: (parameter.name.toList ++ parameter.quantifier.mark.toList) := by
            simp
          rw [tokenText_placeholder known takes.nonempty here, @String.toList_append _ others,
            @String.toList_append _ written, Path.pieceTexts_append_of_endsPiece endsTemplate,
            Path.pieceTexts_append_of_endsPiece endsPath, variableText,
            Pattern.pieceTexts_of_variable named, pieceTexts_encodeValue takes]
          have taken : takenBy arguments (.placeholder parameter :: rest) =
              (parameter, value) :: takenBy arguments rest := by
            simp [takenBy, Token.parameter?, known]
          rw [taken]
          exact ⟨_, .value named takes given⟩

end Generator

end UrlRouting
