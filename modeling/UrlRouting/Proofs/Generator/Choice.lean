import UrlRouting.Generator
import UrlRouting.Proofs.Arguments
import UrlRouting.Proofs.Pattern.Variants

/-!
The variant that a URL is written from. It takes just the groups whose variables, and those of the
groups around them, all have arguments: every other variant that could be written takes fewer. None
can be written just if a variable outside of all groups has no argument.
-/

namespace UrlRouting

namespace Pattern

variable {pattern : String} {variants : List Variant} {variant : Variant}
  {selection : Finset Nat}

/-! ### Variables of variants -/

theorem filterMap_getRight?_symbols (token : Token) :
    token.symbols.filterMap Sum.getRight? = token.parameter?.toList := by
  cases token with
  | literal text =>
      rw [Token.symbols, List.filterMap_map]
      exact List.filterMap_eq_nil_iff.mpr fun _ _ => rfl
  | placeholder parameter => rfl

theorem filterMap_parameter?_eq (tokens : List Token) :
    tokens.filterMap Token.parameter? =
      (tokens.flatMap Token.symbols).filterMap Sum.getRight? := by
  rw [List.filterMap_flatMap, List.filterMap_eq_flatMap_toList]
  simp only [filterMap_getRight?_symbols]

theorem Variant.Shows.parameters_eq (shown : variant.Shows pattern selection) :
    variant.parameters = (selected selection (sitesOf pattern)).filterMap Token.parameter? := by
  rw [Variant.parameters, filterMap_parameter?_eq, shown.symbols, ← filterMap_parameter?_eq]

theorem Variant.Shows.mem_parameters_iff (shown : variant.Shows pattern selection)
    {parameter : Variable} :
    parameter ∈ variant.parameters ↔
      ∃ around, .token (.placeholder parameter) around ∈ sitesOf pattern ∧
        ∀ group ∈ around, group ∈ selection := by
  rw [shown.parameters_eq, selected, List.filterMap_filterMap, List.mem_filterMap]
  constructor
  · rintro ⟨site, member, taken⟩
    cases site with
    | group number around => cases taken
    | token content around =>
        rw [Site.taken?] at taken
        split at taken
        case isTrue all =>
          cases content with
          | literal text => cases taken
          | placeholder other =>
              cases taken
              exact ⟨around, member, all⟩
        case isFalse => cases taken
  · rintro ⟨around, member, all⟩
    exact ⟨_, member, by rw [Site.taken?, if_pos all]; rfl⟩

theorem Variant.Shows.parameters_of_groupsOf (compiled : compile pattern = .ok variants)
    (shown : variant.Shows pattern (groupsOf pattern)) :
    variant.parameters = variablesOf pattern := by
  rw [shown.parameters_eq, selected, variablesOf, List.filterMap_filterMap]
  apply List.filterMap_congr
  intro site member
  cases site with
  | group number around => rfl
  | token content around =>
      have all : ∀ group ∈ around, group ∈ groupsOf pattern := by
        intro group inAround
        rcases List.append_of_mem inAround with ⟨before, outer, split⟩
        exact mem_groupsOf_iff.mpr
          ⟨outer, group_mem_of_chain compiled member ⟨before, split.symm⟩⟩
      rw [Site.taken?, if_pos all]
      rfl

end Pattern

namespace Generator

open Pattern (Variable Variant Site sitesOf groupsOf variablesOf IsSelection Enumerates)

variable {arguments : Arguments} {pattern : String} {variants : List Variant} {variant : Variant}
  {selection : Finset Nat}

/-! ### Groups that can be filled -/

def isFilled (arguments : Arguments) (pattern : String) (group : Nat) : Bool :=
  (sitesOf pattern).all fun site =>
    match site with
    | .token (.placeholder parameter) (innermost :: _) =>
        innermost != group || arguments.contains parameter.name
    | _ => true

/-- The groups that can be taken with some arguments: their variables and those of the groups around
them all have one. -/
def fillable (arguments : Arguments) (pattern : String) : Finset Nat :=
  ((sitesOf pattern).filterMap fun site =>
    site.number?.filter fun _ => site.chain.all (isFilled arguments pattern)).toFinset

theorem isFilled_iff {group : Nat} :
    isFilled arguments pattern group = true ↔
      ∀ parameter outer, .token (.placeholder parameter) (group :: outer) ∈ sitesOf pattern →
        arguments.contains parameter.name = true := by
  rw [isFilled, List.all_eq_true]
  constructor
  · intro all parameter outer member
    simpa using all _ member
  · intro each site member
    split
    case h_1 parameter innermost outer =>
      rw [Bool.or_eq_true, bne_iff_ne]
      by_cases same : innermost = group
      · exact .inr (each parameter outer (same ▸ member))
      · exact .inl same
    case h_2 => rfl

theorem mem_fillable_iff {number : Nat} :
    number ∈ fillable arguments pattern ↔ ∃ around, .group number around ∈ sitesOf pattern ∧
      ∀ group ∈ number :: around, isFilled arguments pattern group = true := by
  rw [fillable, List.mem_toFinset, List.mem_filterMap]
  constructor
  · rintro ⟨site, member, isNumber⟩
    cases site with
    | token content around => cases isNumber
    | group other around =>
        rcases Option.filter_eq_some_iff.mp isNumber with ⟨same, all⟩
        cases same
        exact ⟨around, member, List.all_eq_true.mp all⟩
  · rintro ⟨around, member, each⟩
    exact ⟨_, member, Option.filter_eq_some_iff.mpr ⟨rfl, List.all_eq_true.mpr each⟩⟩

theorem isSelection_fillable (compiled : Pattern.compile pattern = .ok variants) :
    IsSelection pattern (fillable arguments pattern) := by
  intro number member
  rcases mem_fillable_iff.mp member with ⟨around, inSites, each⟩
  refine ⟨around, inSites, fun group inAround => ?_⟩
  rcases List.append_of_mem inAround with ⟨before, outer, rfl⟩
  refine mem_fillable_iff.mpr ⟨outer, Pattern.group_mem_of_chain compiled inSites
    ⟨number :: before, rfl⟩, fun other inChain => each other ?_⟩
  exact List.mem_cons_of_mem _ (List.mem_append_right before inChain)

/-- A variant can be written just if the variables outside of all groups have arguments and its
groups can be filled. -/
theorem isSatisfied_iff (compiled : Pattern.compile pattern = .ok variants)
    (selects : IsSelection pattern selection) (shown : variant.Shows pattern selection) :
    isSatisfied arguments variant = true ↔
      (∀ parameter, .token (.placeholder parameter) [] ∈ sitesOf pattern →
        arguments.contains parameter.name = true) ∧ selection ⊆ fillable arguments pattern := by
  have known : isSatisfied arguments variant = true ↔ ∀ parameter around,
      .token (.placeholder parameter) around ∈ sitesOf pattern →
        (∀ group ∈ around, group ∈ selection) → arguments.contains parameter.name = true := by
    rw [isSatisfied, Variant.names, List.all_map, List.all_eq_true]
    simp only [shown.mem_parameters_iff, Function.comp_apply]
    exact ⟨fun all parameter around member taken => all parameter ⟨around, member, taken⟩,
      fun each parameter ⟨around, member, taken⟩ => each parameter around member taken⟩
  rw [known]
  constructor
  · intro each
    refine ⟨fun parameter member => each parameter [] member (by simp), fun number taken => ?_⟩
    rcases selects number taken with ⟨around, inSites, aroundTaken⟩
    refine mem_fillable_iff.mpr ⟨around, inSites, fun group inChain => isFilled_iff.mpr ?_⟩
    intro parameter outer member
    have groupTaken : group ∈ selection := by
      rcases List.mem_cons.mp inChain with rfl | inAround
      · exact taken
      · exact aroundTaken group inAround
    rcases selects group groupTaken with ⟨others, groupInSites, othersTaken⟩
    have same : others = outer := Pattern.eq_of_group_mem_sitesOf compiled groupInSites
      (Pattern.group_mem_of_chain compiled member List.suffix_rfl)
    apply each parameter _ member
    intro other inOuter
    rcases List.mem_cons.mp inOuter with rfl | later
    · exact groupTaken
    · exact othersTaken other (same ▸ later)
  · rintro ⟨mandatory, contained⟩ parameter around member taken
    cases around with
    | nil => exact mandatory parameter member
    | cons group outer =>
        have inFillable := contained (taken group (List.mem_cons_self ..))
        rcases mem_fillable_iff.mp inFillable with ⟨_, -, each⟩
        exact isFilled_iff.mp (each group (List.mem_cons_self ..)) parameter outer member

/-! ### The variant that is written -/

/-- Whether the variables outside of all groups have arguments. -/
def Sufficient (arguments : Arguments) (pattern : String) : Prop :=
  ∀ parameter, .token (.placeholder parameter) [] ∈ sitesOf pattern →
    arguments.contains parameter.name = true

theorem find?_of_forall₂ {α β : Type*} {relation : α → β → Prop} {order : β → β → Prop}
    {values : List α} {keys : List β} (related : List.Forall₂ relation values keys)
    (ordered : keys.Pairwise order) {test : α → Bool} {best : β} (member : best ∈ keys)
    (passes : ∀ value, relation value best → test value = true)
    (first : ∀ value, ∀ key ∈ keys, relation value key → test value = true → order key best →
      key = best) :
    ∃ value, values.find? test = some value ∧ relation value best := by
  induction related with
  | nil => cases member
  | @cons value key values keys here _ induction =>
      rcases List.pairwise_cons.mp ordered with ⟨before, later⟩
      by_cases passed : test value = true
      · refine ⟨value, List.find?_cons_of_pos passed, ?_⟩
        rcases List.mem_cons.mp member with rfl | inKeys
        · exact here
        · rwa [← first value key (List.mem_cons_self ..) here passed (before best inKeys)]
      · rw [List.find?_cons_of_neg passed]
        rcases List.mem_cons.mp member with rfl | inKeys
        · exact absurd (passes value here) passed
        · exact induction later inKeys fun other key inKeys =>
            first other key (List.mem_cons_of_mem _ inKeys)

/-- The first variant that can be written takes all groups that can be filled. -/
theorem exists_find?_isSatisfied (compiled : Pattern.compile pattern = .ok variants)
    (sufficient : Sufficient arguments pattern) :
    ∃ variant, variants.find? (isSatisfied arguments) = some variant ∧
      variant.Shows pattern (fillable arguments pattern) := by
  rcases Pattern.exists_enumerates compiled with ⟨selections, enumerates⟩
  have selects := @isSelection_fillable arguments _ _ compiled
  apply find?_of_forall₂ enumerates.shown enumerates.ordered ((enumerates.complete _).mpr selects)
  · exact fun variant shown =>
      (isSatisfied_iff compiled selects shown).mpr ⟨sufficient, subset_rfl⟩
  · intro variant selection inSelections shown satisfied notContained
    have contained := ((isSatisfied_iff compiled ((enumerates.complete _).mp inSelections)
      shown).mp satisfied).2
    by_contra different
    exact notContained (contained.ssubset_of_ne different)

theorem find?_isSatisfied_eq_none (compiled : Pattern.compile pattern = .ok variants)
    (lacking : ¬ Sufficient arguments pattern) :
    variants.find? (isSatisfied arguments) = none := by
  rcases Pattern.exists_enumerates compiled with ⟨selections, enumerates⟩
  apply List.find?_eq_none.mpr
  intro variant member satisfied
  rcases enumerates.exists_selection member with ⟨selection, selects, shown⟩
  exact lacking ((isSatisfied_iff compiled selects shown).mp satisfied).1

theorem names_subset_of_isSatisfied (compiled : Pattern.compile pattern = .ok variants)
    (chosen : variants.find? (isSatisfied arguments) = some variant) {other : Variant}
    (member : other ∈ variants) (satisfied : isSatisfied arguments other = true) :
    other.names ⊆ variant.names := by
  rcases Pattern.exists_enumerates compiled with ⟨selections, enumerates⟩
  rcases enumerates.exists_selection member with ⟨selection, selects, shown⟩
  rcases (isSatisfied_iff compiled selects shown).mp satisfied with ⟨sufficient, contained⟩
  rcases exists_find?_isSatisfied compiled sufficient with ⟨fullest, found, fullestShown⟩
  cases chosen.symm.trans found
  intro name inOther
  rcases List.mem_map.mp inOther with ⟨parameter, inParameters, rfl⟩
  rcases shown.mem_parameters_iff.mp inParameters with ⟨around, inSites, taken⟩
  have inVariant : parameter ∈ variant.parameters :=
    fullestShown.mem_parameters_iff.mpr
      ⟨around, inSites, fun group inAround => contained (taken group inAround)⟩
  exact List.mem_map_of_mem inVariant

theorem exists_head?_of_compile (compiled : Pattern.compile pattern = .ok variants) :
    ∃ variant, variants.head? = some variant ∧
      variant.parameters = Pattern.variablesOf pattern := by
  rcases Pattern.exists_enumerates compiled with ⟨selections, enumerates⟩
  have first := enumerates.head?_eq compiled
  cases shown : enumerates.shown with
  | nil => cases first
  | @cons variant selection _ _ here _ =>
      cases first
      exact ⟨variant, rfl, here.parameters_of_groupsOf compiled⟩

def writeVariant (generator : Generator) (pattern : String) (variant : Variant)
    (arguments query : Arguments) (fragment : Option String) : Except RoutingError String := do
  let path ← pathText generator.encoding pattern arguments variant.tokens
  let pairs := queryPairs variant arguments query
  let queryText := if pairs.isEmpty then "" else "?" ++ Query.build pairs
  return Path.collapse (generator.pathPrefix ++ path) ++ queryText ++ fragmentText fragment

def IsMissing (error : RoutingError) : Prop :=
  ∃ route missing received, error = .missingArguments route missing received

theorem not_isMissing_of_checkValue {parameter : Variable} {value : String} {error : RoutingError}
    (failed : checkValue pattern parameter value = .error error) : ¬ IsMissing error := by
  rintro ⟨route, missing, received, rfl⟩
  rw [checkValue] at failed
  split at failed
  · cases failed
  · split at failed <;> cases failed

theorem not_isMissing_of_pathText {encoding : Encoding} {tokens : List Pattern.Token}
    {error : RoutingError} (failed : pathText encoding pattern arguments tokens = .error error) :
    ¬ IsMissing error := by
  induction tokens generalizing error with
  | nil => cases failed
  | cons token rest induction =>
      rw [pathText] at failed
      cases wrote : tokenText encoding pattern arguments token with
      | error other =>
          rw [wrote] at failed
          cases failed
          rw [tokenText.eq_def] at wrote
          split at wrote
          · cases wrote
          · split at wrote
            · cases wrote
            · cases checked : checkValue pattern _ _ with
              | error other =>
                  rw [checked] at wrote
                  cases wrote
                  exact not_isMissing_of_checkValue checked
              | ok _ =>
                  rw [checked] at wrote
                  cases wrote
      | ok text =>
          cases later : pathText encoding pattern arguments rest with
          | error other =>
              rw [wrote, later] at failed
              cases failed
              exact induction later
          | ok path =>
              rw [wrote, later] at failed
              cases failed

theorem not_isMissing_of_writeVariant {generator : Generator} {query : Arguments}
    {fragment : Option String} {error : RoutingError}
    (failed : generator.writeVariant pattern variant arguments query fragment = .error error) :
    ¬ IsMissing error := by
  rw [writeVariant] at failed
  cases wrote : pathText generator.encoding pattern arguments variant.tokens with
  | error other =>
      rw [wrote] at failed
      cases failed
      exact not_isMissing_of_pathText wrote
  | ok path =>
      rw [wrote] at failed
      cases failed

theorem generate_eq_write {generator : Generator} {shared : Shared} {route : String}
    {declared : Route} (faithful : shared.memo.Faithful)
    (known : generator.registry.route route = .ok declared)
    (compiled : Pattern.compile declared.pattern = .ok variants) (parts : UrlParts) :
    (generator.generate shared route parts).1 =
      generator.write route declared.pattern variants
        (generator.mergedArguments parts.arguments) parts.query parts.fragment := by
  have asked := faithful.variants_eq declared.pattern
  rw [generate, known]
  simp only [asked, compiled]

/-- Arguments are missing just if a variable outside of all groups has none; the error then names
those variables of the pattern that have none. Otherwise the variant is written that takes all groups
that can be filled, and no other variant that could be written takes another group. -/
theorem generate_takes_fillable {generator : Generator} {route : String} {declared : Route}
    (known : generator.registry.route route = .ok declared)
    (compiled : Pattern.compile declared.pattern = .ok variants) (earlier : List String)
    (current : Option CurrentRoute) (parts : UrlParts) :
    let merged := generator.mergedArguments parts.arguments
    let url := (generator.generate ⟨.after earlier, current⟩ route parts).1
    (∀ name,
      merged.get? name = (parts.arguments.get? name).or (generator.defaults.get? name) ∧
      merged.contains name =
        ((parts.arguments.get? name).isSome || generator.defaults.contains name)) ∧
    ((∃ error, url = .error error ∧ IsMissing error) ↔ ¬ Sufficient merged declared.pattern) ∧
    (¬ Sufficient merged declared.pattern →
      url = .error (.missingArguments route
        (((variablesOf declared.pattern).map Variable.name).filter (!merged.contains ·))
        merged.names)) ∧
    (Sufficient merged declared.pattern →
      IsSelection declared.pattern (fillable merged declared.pattern) ∧
      (∃ variant ∈ variants, variant.Shows declared.pattern (fillable merged declared.pattern) ∧
        url = generator.writeVariant declared.pattern variant merged parts.query parts.fragment) ∧
      ∀ other ∈ variants, isSatisfied merged other = true →
        ∀ selection, IsSelection declared.pattern selection →
          other.Shows declared.pattern selection →
            selection ⊆ fillable merged declared.pattern) := by
  intro merged url
  have written : url = generator.write route declared.pattern variants merged parts.query
      parts.fragment :=
    generate_eq_write (Pattern.Memo.faithful_after earlier) known compiled parts
  have refused : ¬ Sufficient merged declared.pattern →
      url = .error (.missingArguments route
        (((variablesOf declared.pattern).map Variable.name).filter (!merged.contains ·))
        merged.names) := by
    intro lacking
    rcases exists_head?_of_compile compiled with ⟨first, isFirst, parameters⟩
    rw [written, write, find?_isSatisfied_eq_none compiled lacking, missingArguments, isFirst,
      Option.map_some, Option.getD_some, Variant.names, parameters]
  have chosen : Sufficient merged declared.pattern →
      ∃ variant ∈ variants, variant.Shows declared.pattern (fillable merged declared.pattern) ∧
        url = generator.writeVariant declared.pattern variant merged parts.query
          parts.fragment := by
    intro sufficient
    rcases exists_find?_isSatisfied compiled sufficient with ⟨variant, found, shown⟩
    refine ⟨variant, List.mem_of_find?_eq_some found, shown, ?_⟩
    rw [written, write, found]
    rfl
  refine ⟨fun name => ⟨Arguments.get?_merge _ _ _, Arguments.contains_merge _ _ _⟩, ⟨?_, ?_⟩,
    refused, fun sufficient => ⟨isSelection_fillable compiled, chosen sufficient, ?_⟩⟩
  · rintro ⟨error, failed, missing⟩ sufficient
    rcases chosen sufficient with ⟨variant, -, -, equal⟩
    exact not_isMissing_of_writeVariant (equal.symm.trans failed) missing
  · exact fun lacking => ⟨_, refused lacking, _, _, _, rfl⟩
  · intro other _ satisfied selection selects shown
    exact ((isSatisfied_iff compiled selects shown).mp satisfied).2

theorem generate_takes_fillable_site :
    Sufficient (.ofPairs [("name", "a"), ("rest", "b")]) "/site[/{name}[/{id}]][/{rest+}]" ∧
    ∃ variant : Variant,
      variant.Shows "/site[/{name}[/{id}]][/{rest+}]" {0, 2} ∧
      (generate
          { registry :=
              { routes := [(Route.new [.get] "/site[/{name}[/{id}]][/{rest+}]").withName "site"]
                index := Table.empty.set "site" 0 }
            scheme := none, host := none, defaults := .ofPairs [("name", "a")], encoding := .raw
            pathPrefix := "" }
          ⟨.after [], none⟩ "site" { arguments := .ofPairs [("rest", "b")] }).1 =
        writeVariant
          { registry :=
              { routes := [(Route.new [.get] "/site[/{name}[/{id}]][/{rest+}]").withName "site"]
                index := Table.empty.set "site" 0 }
            scheme := none, host := none, defaults := .ofPairs [("name", "a")], encoding := .raw
            pathPrefix := "" }
          "/site[/{name}[/{id}]][/{rest+}]" variant (.ofPairs [("name", "a"), ("rest", "b")])
          .empty none := by
  let route := (Route.new [.get] "/site[/{name}[/{id}]][/{rest+}]").withName "site"
  let generator : Generator :=
    { registry := { routes := [route], index := Table.empty.set "site" 0 }, scheme := none,
      host := none, defaults := .ofPairs [("name", "a")], encoding := .raw, pathPrefix := "" }
  have known : generator.registry.route "site" = .ok route := by cbv
  have cut : Pattern.lexemes true route.pattern.toList =
      [.literal "/site".toList, .opening, .literal "/".toList,
        .placeholder ⟨"name", "[^/]+", .one⟩, .opening, .literal "/".toList,
        .placeholder ⟨"id", "[^/]+", .one⟩, .closing, .closing, .opening, .literal "/".toList,
        .placeholder ⟨"rest", ".+", .oneOrMore⟩, .closing] := by cbv
  have merged : generator.mergedArguments (.ofPairs [("rest", "b")]) =
      .ofPairs [("name", "a"), ("rest", "b")] := by decide
  have fills : fillable (.ofPairs [("name", "a"), ("rest", "b")]) route.pattern = {0, 2} := by
    have listed : ((sitesOf route.pattern).filterMap fun site => site.number?.filter fun _ =>
        site.chain.all (isFilled (.ofPairs [("name", "a"), ("rest", "b")]) route.pattern)) =
          [0, 2] := by cbv
    rw [fillable, listed]
    rfl
  have sufficient : Sufficient (.ofPairs [("name", "a"), ("rest", "b")]) route.pattern := by
    simp [Sufficient, sitesOf, cut, Pattern.sites]
  cases compiled : Pattern.compile route.pattern with
  | error error =>
      have accepted : (Pattern.compile route.pattern).isOk = true := by cbv
      rw [compiled] at accepted
      cases accepted
  | ok variants =>
      have chosen := (generate_takes_fillable known compiled [] none
        { arguments := .ofPairs [("rest", "b")] }).2.2.2
      simp only [merged, fills] at chosen
      rcases (chosen sufficient).2.1 with ⟨variant, -, shown, equal⟩
      exact ⟨sufficient, variant, shown, equal⟩

end Generator

end UrlRouting
