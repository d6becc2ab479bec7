import UrlRouting.Proofs.Generator.Current

/-!
Explicit query parameters of URLs that are generated from the current request. Those of the current
route are laid over the query of the request, and none is lost. Where another route is taken for
want of a current one, they are not passed on.
-/

namespace UrlRouting

namespace Generator

open Pattern (Variant)

variable {generator : Generator} {shared : Shared} {matched : CurrentRoute} {route url : String}
  {parts : UrlParts} {replaced query : Arguments} {fragment fallback : Option String}

/-! ### The route that is taken -/

theorem generateFromCurrent_of_unnamed (unnamed : shared.current.bind CurrentRoute.name = none) :
    generator.generateFromCurrent shared replaced query fragment (some route) =
      generator.generate shared route { arguments := replaced, fragment } := by
  have none : shared.current.bind (fun current => current.name.map fun name => (current, name)) =
      none := by
    cases isCurrent : shared.current with
    | none => rfl
    | some matched =>
        rw [isCurrent, Option.bind_some] at unnamed
        rw [Option.bind_some, unnamed, Option.map_none]
  rw [generateFromCurrent.eq_def, none]

/-! ### The query -/

/-- Whether a URL consists of the path of a route's first variant that some arguments satisfy, of a
query that can be told apart in it, and of a fragment. -/
structure Consists (generator : Generator) (url route : String) (arguments : Arguments)
    (variant : Variant) (text : String) (fragment : Option String) : Prop where
  chosen : ∃ declared variants, generator.registry.route route = .ok declared ∧
    Pattern.compile declared.pattern = .ok variants ∧
    variants.find? (isSatisfied arguments) = some variant
  whole : url = Path.collapse (generator.pathPrefix ++
      String.join (variant.tokens.map (writtenToken generator.encoding arguments))) ++
    (if Query.parse text = [] then "" else "?" ++ text) ++ fragmentText fragment
  unmarked : ∀ mark ∈ ['/', '?', '#'], mark ∉ text.toList
  once : ((Query.parse text).map Prod.fst).Nodup

theorem exists_consists_of_generate (faithful : shared.memo.Faithful)
    (generated : (generator.generate shared route parts).1 = .ok url) :
    let merged := generator.mergedArguments parts.arguments
    ∃ variant text, generator.Consists url route merged variant text parts.fragment ∧
      ∀ name value, (name, value) ∈ Query.parse text ↔
        parts.query.get? name = some value ∨
          parts.query.get? name = none ∧ name ∉ variant.names ∧ merged.get? name = some value := by
  intro merged
  rcases exists_of_generate faithful generated with
    ⟨declared, variants, variant, path, known, compiled, chosen, wrote, whole⟩
  have read := Query.parse_build (queryPairs variant merged parts.query)
  refine ⟨variant, Query.build (queryPairs variant merged parts.query), ⟨⟨declared, variants, known,
    compiled, chosen⟩, ?_, fun mark marks => Query.mark_notMem_build marks _, ?_⟩, ?_⟩
  · rw [whole, read, ← eq_join_of_pathText wrote]
    simp only [List.isEmpty_iff]
    rfl
  · rw [read]
    exact nodup_names_queryPairs variant merged parts.query
  · intro name value
    rw [read, mem_queryPairs_iff]

/-- A parameter of the query is what the explicit query says of its name; if that says nothing, it
is what the request had; and failing both, an argument that no variable takes. -/
theorem asked_iff {requested : Arguments} {name value : String} {leftover : Prop} :
    (requested.merge query).get? name = some value ∨
        (requested.merge query).get? name = none ∧ leftover ↔
      query.get? name = some value ∨
        query.contains name = false ∧ requested.get? name = some value ∨
        query.get? name = none ∧ (query.contains name = true ∨ requested.get? name = none) ∧
          leftover := by
  rw [Arguments.get?_merge_eq_ite]
  cases said : query.contains name with
  | true => simp
  | false => simp [query.get?_eq_none_of_contains_eq_false said]

/-- Explicit query parameters are kept for the current route. The URL then has each of them that is
not null, and beneath them the query of the request, of which an explicit null takes a parameter
away; an argument that the path does not use stands where neither has a value. If another route is
taken for want of a current one, the query has such arguments only. So all explicit parameters that
are not null are kept just if there is a current route or each of them is such an argument. -/
theorem generateFromCurrent_keeps_explicit {earlier : List String} {current : Option CurrentRoute}
    (takes : (current.bind CurrentRoute.name <|> fallback) = some route)
    (generated : (generator.generateFromCurrent ⟨.after earlier, current⟩ replaced query fragment
      fallback).1 = .ok url) :
    ∃ arguments variant text, generator.Consists url route arguments variant text fragment ∧
      (∀ matched, current = some matched → matched.name ≠ none →
        arguments =
          generator.mergedArguments ((Arguments.ofTable matched.arguments).merge replaced) ∧
        ∀ name value, (name, value) ∈ Query.parse text ↔
          query.get? name = some value ∨
            query.contains name = false ∧ matched.queryArguments.get? name = some value ∨
            query.get? name = none ∧
              (query.contains name = true ∨ matched.queryArguments.get? name = none) ∧
              name ∉ variant.names ∧ arguments.get? name = some value) ∧
      (current.bind CurrentRoute.name = none → arguments = generator.mergedArguments replaced ∧
        ∀ name value, (name, value) ∈ Query.parse text ↔
          name ∉ variant.names ∧ arguments.get? name = some value) ∧
      ((∀ name value, query.get? name = some value → (name, value) ∈ Query.parse text) ↔
        current.bind CurrentRoute.name ≠ none ∨
          ∀ name value, query.get? name = some value →
            name ∉ variant.names ∧ arguments.get? name = some value) := by
  have faithful := Pattern.Memo.faithful_after earlier
  cases named : current.bind CurrentRoute.name with
  | some name =>
      rw [named] at takes
      cases takes
      rcases Option.bind_eq_some_iff.mp named with ⟨matched, isCurrent, hasName⟩
      rw [generateFromCurrent_of_named isCurrent hasName] at generated
      rcases exists_consists_of_generate faithful generated with
        ⟨variant, text, consists, mem_iff⟩
      simp only [asked_iff] at mem_iff
      refine ⟨_, variant, text, consists, ?_, ?_, ?_⟩
      · rintro other isCurrentToo -
        cases isCurrent.symm.trans isCurrentToo
        exact ⟨rfl, mem_iff⟩
      · intro unnamed
        cases unnamed
      · simp only [ne_eq, reduceCtorEq, not_false_eq_true, true_or, iff_true]
        exact fun name value asked => (mem_iff name value).mpr (.inl asked)
  | none =>
      rw [named] at takes
      cases takes
      rw [generateFromCurrent_of_unnamed named] at generated
      rcases exists_consists_of_generate faithful generated with
        ⟨variant, text, consists, mem_iff⟩
      have leftover : ∀ name value, (name, value) ∈ Query.parse text ↔ name ∉ variant.names ∧
          (generator.mergedArguments replaced).get? name = some value := by
        intro name value
        have notAsked : Arguments.empty.get? name = none := rfl
        simp only [mem_iff, notAsked, reduceCtorEq, true_and, false_or]
      refine ⟨_, variant, text, consists, ?_, fun _ => ⟨rfl, leftover⟩, ?_⟩
      · intro matched isCurrent hasName
        rw [isCurrent] at named
        exact absurd named hasName
      · simp only [leftover, ne_eq, not_true_eq_false, false_or]

theorem generateFromCurrent_keeps_explicit_page :
    let generator : Generator :=
      { registry := { routes := [(Route.new [.get] "/page/{id}").withName "page"]
                      index := Table.empty.set "page" 0 }
        scheme := none, host := none, defaults := .empty, encoding := .raw, pathPrefix := "" }
    let current : CurrentRoute :=
      { name := some "page", arguments := .ofList [("id", "7")]
        uri := some
          { scheme := none, authority := none, path := "/page/7", query := some "x=1&y=2&z=0" } }
    let query := (Arguments.ofPairs [("y", "3")]).set "x" none
    ∃ url arguments variant text,
      (generator.generateFromCurrent ⟨.after [], some current⟩ .empty query none none).1 = .ok url ∧
      generator.Consists url "page" arguments variant text none ∧
      ("y", "3") ∈ Query.parse text ∧ ("z", "0") ∈ Query.parse text ∧
      ∀ value, ("x", value) ∉ Query.parse text := by
  intro generator current query
  have generated : (generator.generateFromCurrent ⟨.after [], some current⟩ .empty query none
      none).1 = .ok "/page/7?y=3&z=0" := by
    cbv
  rcases generateFromCurrent_keeps_explicit rfl generated with
    ⟨arguments, variant, text, consists, named, -, -⟩
  rcases named current rfl (Option.some_ne_none _) with ⟨rfl, mem_iff⟩
  have requested : current.queryArguments.get? "z" = some "0" := by decide +kernel
  refine ⟨_, _, variant, text, generated, consists, (mem_iff "y" "3").mpr (.inl (by decide)),
    (mem_iff "z" "0").mpr (.inr (.inl ⟨by decide, requested⟩)), ?_⟩
  intro value inside
  rcases (mem_iff "x" value).mp inside with asked | ⟨absent, -⟩ | ⟨-, -, -, argument⟩
  · exact absurd asked (by simp [show query.get? "x" = none by decide])
  · exact absurd absent (by decide)
  · have unnamed : (generator.mergedArguments ((Arguments.ofTable current.arguments).merge
        .empty)).get? "x" = none := by cbv
    rw [unnamed] at argument
    cases argument

/-- A fallback route is generated without the explicit query. -/
theorem generateFromCurrent_drops_explicit :
    let generator : Generator :=
      { registry := { routes := [(Route.new [.get] "/").withName "home"]
                      index := Table.empty.set "home" 0 }
        scheme := none, host := none, defaults := .empty, encoding := .raw, pathPrefix := "" }
    let query := Arguments.ofPairs [("page", "2")]
    ∃ url,
      (generator.generateFromCurrent ⟨.after [], none⟩ .empty query none (some "home")).1 =
        .ok url ∧
      '?' ∉ url.toList ∧ query.get? "page" = some "2" := by
  intro generator query
  have generated : (generator.generateFromCurrent ⟨.after [], none⟩ .empty query none
      (some "home")).1 = .ok "/" := by
    cbv
  exact ⟨"/", generated, by decide, by decide⟩

end Generator

end UrlRouting
