import UrlRouting.Proofs.Arguments
import UrlRouting.Proofs.Generator.Choice
import UrlRouting.Proofs.Generator.Tokens
import UrlRouting.Proofs.Query

/-!
Where the arguments of a generated URL go. Each is written into the path, if the variant that was
chosen has a variable for it, and stands in the query otherwise, once and behind what was asked for
there.
-/

namespace UrlRouting

namespace Generator

open Pattern (Token Variant)

variable {generator : Generator} {shared : Shared} {route : String} {parts : UrlParts}
  {url : String}

/-! ### The path -/

/-- A token with the encoded value of its variable in place, segment by segment if the variable
takes several. -/
def writtenToken (encoding : Encoding) (arguments : Arguments) : Token → String
  | .literal text => text
  | .placeholder parameter =>
      match arguments.get? parameter.name with
      | none => ""
      | some value =>
          if parameter.quantifier.isWildcard then encoding.encodeSegments value
          else encoding.encode value

theorem encodeValue_empty (encoding : Encoding) (parameter : Pattern.Variable) :
    encodeValue encoding parameter "" = "" := by
  rw [encodeValue]
  cases encoding <;> split <;> rfl

theorem eq_writtenToken {encoding : Encoding} {pattern : String} {arguments : Arguments}
    {token : Token} {text : String}
    (wrote : tokenText encoding pattern arguments token = .ok text) :
    text = writtenToken encoding arguments token := by
  cases token with
  | literal plain =>
      cases wrote
      rfl
  | placeholder parameter =>
      rw [writtenToken]
      cases known : arguments.get? parameter.name with
      | none =>
          rw [tokenText, known] at wrote
          cases wrote
          rfl
      | some value =>
          by_cases empty : value = ""
          · rw [tokenText, known, empty] at wrote
            cases wrote
            rw [empty]
            exact (encodeValue_empty encoding parameter).symm
          · exact tokenText_placeholder known empty wrote

theorem eq_join_of_pathText {encoding : Encoding} {pattern : String} {arguments : Arguments}
    {tokens : List Token} {path : String}
    (wrote : pathText encoding pattern arguments tokens = .ok path) :
    path = String.join (tokens.map (writtenToken encoding arguments)) := by
  induction tokens generalizing path with
  | nil =>
      cases wrote
      rfl
  | cons token rest induction =>
      rcases pathText_cons wrote with ⟨text, later, here, wroteRest, rfl⟩
      rw [List.map_cons, String.join_cons, ← eq_writtenToken here, ← induction wroteRest]

/-! ### The query -/

theorem queryPairs_eq (variant : Variant) (arguments query : Arguments) :
    queryPairs variant arguments query =
      query.pairs ++ arguments.pairs.filter fun pair =>
        pair.1 ∉ variant.names ∧ query.get? pair.1 = none := by
  have leftover := arguments.pairs_eraseAll variant.names
  have distinct : ((variant.names.foldl Arguments.erase arguments).pairs.map Prod.fst).Nodup :=
    Arguments.nodup_names_pairs _
  rw [queryPairs, Arguments.pairs_foldl_set _ distinct, leftover, Arguments.pairs_withoutNulls,
    List.filter_filter]
  congr 1
  apply List.filter_congr
  intro pair _
  rw [Arguments.contains_withoutNulls]
  cases query.get? pair.1 <;> simp

theorem nodup_names_queryPairs (variant : Variant) (arguments query : Arguments) :
    ((queryPairs variant arguments query).map Prod.fst).Nodup :=
  Arguments.nodup_names_pairs _

theorem mem_queryPairs_iff {variant : Variant} {arguments query : Arguments}
    {name value : String} :
    (name, value) ∈ queryPairs variant arguments query ↔
      query.get? name = some value ∨
        query.get? name = none ∧ name ∉ variant.names ∧ arguments.get? name = some value := by
  rw [queryPairs_eq, List.mem_append, List.mem_filter, Arguments.mem_pairs_iff,
    Arguments.mem_pairs_iff, decide_eq_true_iff]
  tauto

/-! ### The whole URL -/

/-- What it takes for a URL to be generated, and what it consists of. -/
theorem exists_of_generate (faithful : shared.memo.Faithful)
    (generated : (generator.generate shared route parts).1 = .ok url) :
    let merged := generator.mergedArguments parts.arguments
    ∃ declared variants variant path,
      generator.registry.route route = .ok declared ∧
      Pattern.compile declared.pattern = .ok variants ∧
      variants.find? (isSatisfied merged) = some variant ∧
      pathText generator.encoding declared.pattern merged variant.tokens = .ok path ∧
      url = Path.collapse (generator.pathPrefix ++ path) ++
        (if (queryPairs variant merged parts.query).isEmpty then ""
          else "?" ++ Query.build (queryPairs variant merged parts.query)) ++
        fragmentText parts.fragment := by
  intro merged
  cases known : generator.registry.route route with
  | error error =>
      rw [generate, known] at generated
      cases generated
  | ok declared =>
      cases compiled : Pattern.compile declared.pattern with
      | error error =>
          rw [generate, known] at generated
          simp only [faithful.variants_eq, compiled] at generated
          cases generated
      | ok variants =>
          rw [generate_eq_write faithful known compiled, write] at generated
          split at generated
          case h_1 => cases generated
          case h_2 variant chosen =>
            cases wrote : pathText generator.encoding declared.pattern merged variant.tokens with
            | error error =>
                rw [wrote] at generated
                cases generated
            | ok path =>
                rw [wrote] at generated
                cases generated
                exact ⟨declared, variants, variant, path, rfl, compiled, chosen, wrote, rfl⟩

end Generator

end UrlRouting
