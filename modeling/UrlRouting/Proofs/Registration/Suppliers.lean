import UrlRouting.Proofs.Pattern.Template
import UrlRouting.Proofs.Registration.Sources
import UrlRouting.Proofs.Tree.Captures

/-!
What the arguments of an answer are due to. A template has captures for the variables of its variant
and for those of the host that stands before it, besides such as literal text happens to write; any
other argument is a default of the route.
-/

namespace UrlRouting

open Template
open Pattern (Token Variant)

/-! ### Names that templates capture under -/

theorem Pattern.mem_captureNames_iff {pattern : String} {variants : List Variant}
    (compiled : compile pattern = .ok variants) {variant : Variant} (member : variant ∈ variants)
    {template : String} (written : variant.template = .ok template) {name : String} :
    name ∈ captureNames template ↔ name ∈ variant.names ∨
      ∃ text, .literal text ∈ variant.tokens ∧ ∃ piece ∈ Path.pieceTexts text.toList,
        (Segment.ofPiece piece).step.name? = some name := by
  have captured : ∀ token : Token, name ∈ names (token.readSegments.map Segment.step) ↔
      (∃ parameter, token = .placeholder parameter ∧ parameter.name = name) ∨
        ∃ text, token = .literal text ∧ ∃ piece ∈ Path.pieceTexts text.toList,
          (Segment.ofPiece piece).step.name? = some name := by
    intro token
    cases token with
    | literal text => simp [Token.readSegments, names]
    | placeholder parameter =>
        have same : parameter.segment.step.name? = some parameter.name := by
          rw [Variable.segment]
          cases parameter.quantifier <;> rfl
        simp [Token.readSegments, names, same, eq_comm]
  have inTokens : name ∈ captureNames template ↔
      ∃ token ∈ variant.tokens, name ∈ names (token.readSegments.map Segment.step) := by
    rw [captureNames, segments_eq_readSegments compiled member written, names, List.map_flatMap,
      List.filterMap_flatMap, List.mem_flatMap]
    rfl
  rw [inTokens, Variant.names, List.mem_map]
  simp only [captured, Variant.parameters, List.mem_filterMap, Token.parameter?]
  constructor
  · rintro ⟨token, inVariant, ⟨parameter, rfl, same⟩ | ⟨text, rfl, captures⟩⟩
    · exact .inl ⟨parameter, ⟨_, inVariant, rfl⟩, same⟩
    · exact .inr ⟨text, inVariant, captures⟩
  · rintro (⟨parameter, ⟨token, inVariant, isVariable⟩, same⟩ | ⟨text, inVariant, captures⟩)
    · cases token with
      | literal text => cases isVariable
      | placeholder other =>
          cases isVariable
          exact ⟨_, inVariant, .inl ⟨_, rfl, same⟩⟩
    · exact ⟨_, inVariant, .inr ⟨text, rfl, captures⟩⟩

/-! ### Arguments of answers -/

/-- Whether a variant of a route fits a request: the route admits the host, and the template of the
variant fits the path, behind what stands for the host there. -/
def Route.Matches (route : Route) (variant : Variant) (host path : String) : Prop :=
  ∃ beginning request, route.Admits host path beginning request ∧
    ∃ text, variant.template = .ok text ∧ Fits (segments (beginning ++ text)) (Path.texts request)

/-- What supplies an argument of an answer that a route gives for a path that fits one of its
variants: a variable of the variant, a variable of the host, a default of the route, or a piece of
literal text that reads as a capture. -/
inductive Route.Supplies (route : Route) (variant : Variant) (argument : String) : Prop
  | variable (named : argument ∈ variant.names)
  | host {template : String} (declared : route.hosts = [template])
      (parameterized : Pattern.hasVariables template = true)
      (captures : argument ∈ captureNames (Host.pathTemplate template))
  | default (known : route.defaults.contains argument = true)
  | literal {text : String} {piece : List Char} (written : .literal text ∈ variant.tokens)
      (inPieces : piece ∈ Path.pieceTexts text.toList)
      (captures : (Segment.ofPiece piece).step.name? = some argument)

namespace Registration

theorem exists_supplies_of_lookup {earlier : List String} {routes : List Route}
    {set : DispatchSet} {memo : Pattern.Memo}
    (registered : register (.after earlier) routes = (.ok set, memo))
    (distinct : (routes.map Route.name).Nodup) {host method path name : String}
    {arguments : Table String}
    (answered : set.lookup host method path = .success name arguments) :
    ∃ route ∈ routes, route.name = name ∧
      ∃ variants, Pattern.compile route.pattern = .ok variants ∧ ∃ variant ∈ variants,
        route.Matches variant host path ∧
        ∀ argument, arguments.contains argument = true → route.Supplies variant argument := by
  rcases exists_binding_of_lookup registered distinct answered with
    ⟨route, member, sameName, binding, asked, -, ordered, request, endpoint, handled, asks, steps,
      expanded, fits, given⟩
  rcases mem_bindings_iff.mp asked with
    ⟨dispatchable, variants, compiled, hostBinding, read, _, inTiers, variant, inVariants, text,
      written, _, -, rfl⟩
  have admits := admits_of_asks distinct registered member dispatchable read inTiers handled asks
  refine ⟨route, member, sameName, variants, compiled, variant, inVariants,
    ⟨_, request, admits, text, written, fits_of_mem_expand ordered expanded fits⟩, ?_⟩
  intro argument known
  rw [Table.contains_eq_isSome_get?, given, Option.isSome_or, Bool.or_eq_true] at known
  rcases known with captured | default
  · have inNames : argument ∈ names steps := by
      by_contra absent
      rw [Table.get?_ofList_of_notMem (Table.notMem_map_fst_zip absent)] at captured
      cases captured
    have inTemplate := ((prefix_of_mem_expand expanded).filterMap Step.name?).subset inNames
    rw [segments_append _ (Pattern.Variant.head?_of_template written), List.map_append,
      List.filterMap_append, List.mem_append, ← names, ← names, ← captureNames, ← captureNames,
      Pattern.mem_captureNames_iff compiled inVariants written] at inTemplate
    rcases inTemplate with inHost | named | ⟨literal, inTokens, piece, inPieces, captures⟩
    · cases hostBinding with
      | any => cases inHost
      | exact hosts => cases inHost
      | parameterized template =>
          rcases HostBinding.hosts_of_parameterized read with ⟨declared, parameterized, -⟩
          exact .host declared parameterized inHost
    · exact .variable named
    · exact .literal inTokens inPieces captures
  · exact .default (by rwa [Table.contains_eq_isSome_get?])

end Registration

end UrlRouting
