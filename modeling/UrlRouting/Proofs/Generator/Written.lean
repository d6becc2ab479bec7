import Mathlib.Data.List.Forall2
import UrlRouting.Generator
import UrlRouting.Proofs.Encoding
import UrlRouting.Proofs.Path.Slices
import UrlRouting.Proofs.Pattern.Compile
import UrlRouting.Proofs.Template
import UrlRouting.Proofs.Tree.Lookup

/-!
What a generated path has to do with the template it is to match. Both come from the same tokens, so
their pieces correspond: a piece of literal text stands in both, and where the template has a
variable the path has the pieces of a written value. `Written` says so for pieces alone, with what
the path is read as and what the variables stand for.
-/

namespace UrlRouting

/-- Whether a variable takes a value as it is: not empty, and in one piece or in pieces none of
which is empty. -/
structure Pattern.Variable.Takes (parameter : Pattern.Variable) (value : String) : Prop where
  nonempty : value ≠ ""
  whole : parameter.quantifier.isWildcard = false → '/' ∉ value.toList
  filled : parameter.quantifier.isWildcard = true →
    ∀ field ∈ Text.fields '/' value.toList, field ≠ []

namespace Pattern.Variable

variable {parameter : Variable} {value : String}

theorem Takes.fields_eq (takes : parameter.Takes value)
    (single : parameter.quantifier.isWildcard = false) :
    Text.fields '/' value.toList = [value.toList] :=
  Text.fields_of_notMem (takes.whole single)

theorem Takes.isPiece (takes : parameter.Takes value) :
    ∀ field ∈ Text.fields '/' value.toList, field ≠ [] ∧ '/' ∉ field := by
  intro field member
  refine ⟨?_, Text.separator_notMem_of_mem_fields member⟩
  cases wildcard : parameter.quantifier.isWildcard with
  | true => exact takes.filled wildcard field member
  | false =>
      rw [takes.fields_eq wildcard, List.mem_singleton] at member
      rw [member]
      exact fun empty => takes.nonempty (String.toList_eq_nil_iff.mp empty)

theorem isWildcard_segment (parameter : Variable) :
    parameter.segment.isWildcard = parameter.quantifier.isWildcard := by
  rw [segment]
  cases parameter.quantifier <;> rfl

theorem segment_ne_static (parameter : Variable) (text : String) :
    parameter.segment ≠ .static text := by
  rw [segment]
  cases parameter.quantifier <;> simp

theorem segment_of_single (parameter : Variable)
    (single : parameter.quantifier.isWildcard = false) :
    parameter.segment = .capture parameter.name := by
  rw [segment]
  cases quantifier : parameter.quantifier with
  | one => rfl
  | optional => rfl
  | zeroOrMore =>
      rw [quantifier] at single
      cases single
  | oneOrMore =>
      rw [quantifier] at single
      cases single

theorem step_of_wildcard (parameter : Variable)
    (wildcard : parameter.quantifier.isWildcard = true) :
    parameter.segment.step = .wildcard parameter.name := by
  rw [segment]
  cases quantifier : parameter.quantifier with
  | zeroOrMore => rfl
  | oneOrMore => rfl
  | one =>
      rw [quantifier] at wildcard
      cases wildcard
  | optional =>
      rw [quantifier] at wildcard
      cases wildcard

end Pattern.Variable

namespace Generator

open Pattern (Variable CaptureFree)
open Template

theorem toList_encodeValue {parameter : Variable} {value : String}
    (takes : parameter.Takes value) (encoding : Encoding) :
    (encodeValue encoding parameter value).toList =
      Text.joinFields '/' ((Text.fields '/' value.toList).map encoding.encodeChars) := by
  cases wildcard : parameter.quantifier.isWildcard with
  | true => rw [encodeValue, if_pos wildcard, Encoding.encodeSegments, String.toList_ofList]
  | false =>
      rw [encodeValue, if_neg (by simp [wildcard]), Encoding.encode, String.toList_ofList,
        takes.fields_eq wildcard]
      rfl

/-- Pieces of a template and those of a path written for it, with the pieces that the path is read
as and the values of the variables. What literal pieces are like besides is left open. -/
inductive Written (encoding : Encoding) (literal : List Char → Prop) :
    List (List Char) → List (List Char) → List (List Char) → List (Variable × String) → Prop
  | nil : Written encoding literal [] [] [] []
  | literal {piece : List Char} {template written plain : List (List Char)}
      {taken : List (Variable × String)} :
      encoding.IsPlain piece → literal piece → piece ≠ [] → '/' ∉ piece →
      Written encoding literal template written plain taken →
      Written encoding literal (piece :: template) (piece :: written) (piece :: plain) taken
  | value {parameter : Variable} {value : String} {template written plain : List (List Char)}
      {taken : List (Variable × String)} :
      parameter.Named → parameter.Takes value →
      Written encoding literal template written plain taken →
      Written encoding literal
        ((':' :: (parameter.name.toList ++ parameter.quantifier.mark.toList)) :: template)
        ((Text.fields '/' value.toList).map encoding.encodeChars ++ written)
        (Text.fields '/' value.toList ++ plain) ((parameter, value) :: taken)

namespace Written

variable {encoding : Encoding} {literal : List Char → Prop}
  {template written plain : List (List Char)} {taken : List (Variable × String)}

theorem isPiece_plain (given : Written encoding literal template written plain taken) :
    ∀ piece ∈ plain, piece ≠ [] ∧ '/' ∉ piece := by
  induction given with
  | nil => simp
  | literal _ _ nonempty whole _ induction =>
      exact List.forall_mem_cons.mpr ⟨⟨nonempty, whole⟩, induction⟩
  | value _ takes _ induction =>
      exact List.forall_mem_append.mpr ⟨takes.isPiece, induction⟩

theorem append_literals {pieces : List (List Char)}
    (each : ∀ piece ∈ pieces, encoding.IsPlain piece ∧ literal piece ∧ piece ≠ [] ∧ '/' ∉ piece)
    (given : Written encoding literal template written plain taken) :
    Written encoding literal (pieces ++ template) (pieces ++ written) (pieces ++ plain) taken := by
  induction pieces with
  | nil => exact given
  | cons piece others induction =>
      rcases each piece (by simp) with ⟨isPlain, isLiteral, nonempty, whole⟩
      exact .literal isPlain isLiteral nonempty whole
        (induction fun piece member => each piece (by simp [member]))

/-! ### Reading -/

theorem forall₂_spells (given : Written encoding literal template written plain taken) :
    List.Forall₂ encoding.Spells written plain := by
  induction given with
  | nil => exact .nil
  | literal isPlain _ _ _ _ induction => exact .cons (Encoding.spells_of_isPlain isPlain) induction
  | value _ _ _ induction =>
      exact List.rel_append (Encoding.forall₂_spells_encodeChars encoding _) induction

theorem spells (given : Written encoding literal template written plain taken) {lead : List Char}
    (short : lead = [] ∨ lead = ['/']) :
    encoding.Spells (lead ++ Text.joinFields '/' written) (lead ++ Text.joinFields '/' plain) := by
  have joined := Encoding.spells_joinFields given.forall₂_spells
  rcases short with rfl | rfl
  · exact joined
  · exact (Encoding.spells_slash encoding).append joined

/-! ### Matching -/

theorem fits (given : Written encoding literal template written plain taken) {text : String}
    {afterOptional : Bool}
    (ordered : checkOrder text afterOptional (template.map Segment.ofPiece) = .ok ()) :
    Fits (template.map Segment.ofPiece) (plain.map String.ofList) := by
  induction given generalizing afterOptional with
  | nil => exact .absent (by simp)
  | @literal piece template written plain taken _ _ _ _ given induction =>
      rw [List.map_cons] at ordered ⊢
      rw [List.map_cons]
      cases wildcard : (Segment.ofPiece piece).isWildcard with
      | true =>
          rw [eq_nil_of_checkOrder wildcard ordered]
          exact fits_of_isWildcard wildcard _ _
      | false =>
          rcases checkOrder_tail ordered with ⟨_, later⟩
          exact fits_cons wildcard (fun text read => eq_of_ofPiece_eq_static read)
            (induction later)
  | @value parameter value template written plain taken named takes given induction =>
      rw [List.map_cons, named.ofPiece_eq] at ordered ⊢
      cases wildcard : parameter.quantifier.isWildcard with
      | true =>
          have takesRest := parameter.isWildcard_segment.trans wildcard
          rw [eq_nil_of_checkOrder takesRest ordered]
          cases cut : Text.fields '/' value.toList with
          | nil => exact absurd cut (Text.fields_ne_nil '/' value.toList)
          | cons first others => exact fits_of_isWildcard takesRest _ _
      | false =>
          rcases checkOrder_tail ordered with ⟨_, later⟩
          rw [takes.fields_eq wildcard]
          apply fits_cons (parameter.isWildcard_segment.trans wildcard) _ (induction later)
          intro text static
          exact absurd static (parameter.segment_ne_static text)

theorem captured_of_wildcard {parameter : Variable} {value path : String}
    (wildcard : parameter.quantifier.isWildcard = true) {pieces : List Path.Piece}
    (texts : pieces.map Path.Piece.text = (Text.fields '/' value.toList).map String.ofList)
    (joined : Path.Joined path pieces) :
    Tree.captured path [parameter.segment.step] pieces = [value] := by
  rw [parameter.step_of_wildcard wildcard]
  cases pieces with
  | nil => exact absurd (List.map_eq_nil_iff.mp texts.symm) (Text.fields_ne_nil '/' value.toList)
  | cons first rest =>
      have slice := joined [] first rest rfl
      rw [show (fun piece : Path.Piece => piece.text.toList) =
        String.toList ∘ Path.Piece.text from rfl, ← List.map_map, texts] at slice
      rw [Tree.captured, List.singleton_inj]
      apply String.toList_injective
      simpa [Function.comp_def, Text.joinFields_fields] using slice

theorem captured_eq (given : Written encoding CaptureFree template written plain taken)
    {text path : String} {afterOptional : Bool}
    (ordered : checkOrder text afterOptional (template.map Segment.ofPiece) = .ok ())
    {steps : List Step} (expanded : steps ∈ expand (template.map Segment.ofPiece))
    (fits : StepsFit steps (plain.map String.ofList)) {pieces : List Path.Piece}
    (texts : pieces.map Path.Piece.text = plain.map String.ofList)
    (joined : Path.Joined path pieces) :
    names steps = taken.map (fun pair => pair.1.name) ∧
      Tree.captured path steps pieces = taken.map Prod.snd := by
  induction given generalizing afterOptional steps pieces with
  | nil =>
      rw [List.map_nil, expand, List.mem_singleton] at expanded
      subst expanded
      exact ⟨rfl, by rw [Tree.captured.eq_def, List.map_nil]⟩
  | @literal piece template written plain taken _ free _ _ given induction =>
      rw [List.map_cons, free.ofPiece_eq] at ordered expanded
      rw [List.map_cons] at fits texts
      rcases checkOrder_tail ordered with ⟨_, later⟩
      rcases mem_expand_cons_iff.mp expanded with ⟨optional, -⟩ | ⟨others, inRest, rfl⟩
      · cases optional
      · rcases stepsFit_static_iff.mp fits with ⟨_, equal, fitsRest⟩
        cases equal
        cases pieces with
        | nil => cases texts
        | cons first rest =>
            rcases List.cons.inj texts with ⟨-, textsRest⟩
            exact induction later inRest fitsRest textsRest joined.tail
  | @value parameter value template written plain taken named takes given induction =>
      rw [List.map_cons, named.ofPiece_eq] at ordered expanded
      rcases mem_expand_cons_iff.mp expanded with ⟨-, rfl⟩ | ⟨others, inRest, rfl⟩
      · have none := stepsFit_nil_iff.mp fits
        rw [List.map_eq_nil_iff, List.append_eq_nil_iff] at none
        exact absurd none.1 (Text.fields_ne_nil '/' value.toList)
      cases wildcard : parameter.quantifier.isWildcard with
      | false =>
          rcases checkOrder_tail ordered with ⟨_, later⟩
          rw [parameter.segment_of_single wildcard, Segment.step] at fits ⊢
          rw [takes.fields_eq wildcard, List.singleton_append, List.map_cons,
            String.ofList_toList] at fits texts
          rcases stepsFit_capture_iff.mp fits with ⟨_, _, equal, fitsRest⟩
          cases equal
          cases pieces with
          | nil => cases texts
          | cons first rest =>
              rcases List.cons.inj texts with ⟨firstText, textsRest⟩
              rcases induction later inRest fitsRest textsRest joined.tail with ⟨same, values⟩
              constructor
              · rw [List.map_cons, ← same]
                rfl
              · rw [Tree.captured, firstText, values, List.map_cons]
      | true =>
          have takesRest := parameter.isWildcard_segment.trans wildcard
          have last := List.map_eq_nil_iff.mp (eq_nil_of_checkOrder takesRest ordered)
          subst last
          cases given
          rw [List.append_nil] at fits texts
          have alone := parameter.step_of_wildcard wildcard
          rw [alone] at fits
          rcases stepsFit_wildcard_iff.mp fits with ⟨rfl, -⟩
          refine ⟨?_, captured_of_wildcard wildcard texts joined⟩
          rw [alone]
          rfl

end Written

end Generator

end UrlRouting
