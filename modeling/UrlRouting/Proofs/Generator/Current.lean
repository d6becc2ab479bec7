import UrlRouting.Proofs.Generator.Queries
import UrlRouting.Proofs.Matcher
import UrlRouting.Proofs.Registration.Suppliers
import UrlRouting.Proofs.Registry

/-!
The URL of the current request generated again. A match leaves the route that answers, its arguments
and the URI behind, and what is generated from them has the query of the URI. Behind that stand the
arguments that the path has no variable for.
-/

namespace UrlRouting

def Uri.queryPairs (uri : Uri) : List (String × String) :=
  (uri.query.map Query.parse).getD []

/-- The query of the current request, the last value of a name counting. -/
def CurrentRoute.queryArguments (current : CurrentRoute) : Arguments :=
  .ofPairs ((current.uri.map Uri.queryPairs).getD [])

/-! ### What a match leaves behind -/

namespace Matcher

variable {σ : Type} {matcher : Matcher (StateM σ)} {shared : Shared} {host method : String}
  {uri : Uri} {state : σ}

theorem faithful_dispatch (faithful : shared.memo.Faithful) :
    ((matcher.dispatch shared).run state).1.shared.memo.Faithful ∧
      ((matcher.dispatch shared).run state).1.shared.current = shared.current := by
  rcases matcher with ⟨routes, store, encoding, built⟩
  cases built with
  | some set => exact ⟨faithful, rfl⟩
  | none =>
      have stillFaithful := Registration.faithful_registerAll faithful .empty routes
      cases registered : Registration.register shared.memo routes with
      | mk made memo =>
          rw [← Registration.register, registered] at stillFaithful
          rw [dispatch, registered]
          cases made with
          | error error => exact ⟨stillFaithful, rfl⟩
          | ok set => exact ⟨stillFaithful, rfl⟩

theorem of_matchAt (faithful : shared.memo.Faithful) {outcome : Outcome (StateM σ) MatchResult}
    (matched : ((matcher.matchAt shared host method uri).run state).1 = outcome) {name : String}
    {arguments : Table String} (answered : outcome.result = .ok (.success name arguments)) :
    ((matcher.matchRequest shared host method uri.path).run state).1.result =
        .ok (.success name arguments) ∧
      outcome.shared.memo.Faithful ∧
      outcome.shared.current =
        shared.current.map fun _ => { name := some name, arguments, uri := some uri } := by
  have kept := @faithful_dispatch σ matcher shared state faithful
  have same : ((matcher.matchRequest shared host method uri.path).run state).1.shared =
      ((matcher.dispatch shared).run state).1.shared := rfl
  rw [← same] at kept
  rcases ran : (matcher.matchRequest shared host method uri.path).run state with
    ⟨⟨result, other, left⟩, after⟩
  rw [matchAt, run_bind_of_run ran] at matched
  rw [ran] at kept
  cases result with
  | error error =>
      subst matched
      cases answered
  | ok answer =>
      subst matched
      cases answered
      refine ⟨rfl, kept.1, ?_⟩
      rw [← kept.2]
      rfl

theorem result_matchAt (unbuilt : matcher.dispatchSet = none) {set : DispatchSet}
    (registers : (Registration.register shared.memo matcher.routes).1 = .ok set) :
    ((matcher.matchAt shared host method uri).run state).1.result =
      .ok (set.lookup host method (matcher.encoding.decode uri.path)) := by
  rw [matchAt, matchRequest, dispatch, unbuilt, Registration.register_eq_of_fst registers]
  rfl

theorem Ready.exists_supplies {set : DispatchSet} {earlier : List String}
    (ready : matcher.Ready set shared)
    (registers : (Registration.register (.after earlier) matcher.routes).1 = .ok set)
    (distinct : (matcher.routes.map Route.name).Nodup) {path name : String}
    {arguments : Table String}
    (answered : ((matcher.matchRequest shared host method path).run state).1.result =
      .ok (.success name arguments)) :
    ∃ route ∈ matcher.routes, route.name = name ∧
      ∃ variants, Pattern.compile route.pattern = .ok variants ∧ ∃ variant ∈ variants,
        route.Matches variant host (matcher.encoding.decode path) ∧
        ∀ argument, arguments.contains argument = true → route.Supplies variant argument := by
  rcases ready.matchRequest ⟨host, method, path⟩ state with ⟨_, rfl, ⟨_, same, alike⟩, -, -⟩
  cases answered.symm.trans same
  generalize looked : set.lookup host method (matcher.encoding.decode path) = found at alike
  cases alike with
  | success agree =>
      rcases Registration.exists_supplies_of_lookup (Registration.register_eq_of_fst registers)
        distinct looked with ⟨route, member, sameName, variants, compiled, variant, inVariants,
          fits, supplies⟩
      refine ⟨route, member, sameName, variants, compiled, variant, inVariants, fits, ?_⟩
      intro argument known
      apply supplies
      rwa [Table.contains_eq_isSome_get?, agree.get?_eq, ← Table.contains_eq_isSome_get?]

end Matcher

namespace Generator

open Pattern (Variant)

/-! ### What is generated again -/

variable {generator : Generator} {arguments : Table String} {uri : Uri} {name url : String}

theorem generateFromCurrent_of_named {shared : Shared} {matched : CurrentRoute}
    (isCurrent : shared.current = some matched) (named : matched.name = some name)
    (replaced query : Arguments) (fragment fallback : Option String) :
    generator.generateFromCurrent shared replaced query fragment fallback =
      generator.generate shared name
        { arguments := (Arguments.ofTable matched.arguments).merge replaced
          query := matched.queryArguments.merge query
          fragment } := by
  have asked : ((matched.uri.bind Uri.query).map Query.parse).getD [] =
      (matched.uri.map Uri.queryPairs).getD [] := by
    cases matched.uri <;> rfl
  rw [generateFromCurrent.eq_def, isCurrent, Option.bind_some, named, Option.map_some]
  simp only [asked]
  rfl

theorem generateFromCurrent_eq {shared : Shared}
    (left : shared.current = some { name := some name, arguments, uri := some uri })
    (replaced query : Arguments) (fragment fallback : Option String) :
    generator.generateFromCurrent shared replaced query fragment fallback =
      generator.generate shared name
        { arguments := (Arguments.ofTable arguments).merge replaced
          query := (Arguments.ofPairs uri.queryPairs).merge query
          fragment } :=
  generateFromCurrent_of_named left rfl replaced query fragment fallback

/-- What is generated after the first request to a matcher that is not built yet. -/
theorem exists_write_of_registers {σ : Type} {matcher : Matcher (StateM σ)} {set : DispatchSet}
    {earlier : List String} {method : String} (unbuilt : matcher.dispatchSet = none)
    (registers : (Registration.register (.after earlier) matcher.routes).1 = .ok set)
    (looked : set.lookup (uri.host?.getD "") method (matcher.encoding.decode uri.path) =
      .success name arguments) {declared : Route}
    (known : generator.registry.route name = .ok declared) {variants : List Variant}
    (compiled : Pattern.compile declared.pattern = .ok variants) (current : CurrentRoute)
    (state : σ) :
    ∃ outcome,
      ((matcher.matchUri ⟨.after earlier, some current⟩ method uri).run state).1 = outcome ∧
      outcome.result = .ok (.success name arguments) ∧
      (generator.generateFromCurrent outcome.shared .empty .empty none none).1 =
        generator.write name declared.pattern variants
          (generator.mergedArguments (.ofTable arguments)) (.ofPairs uri.queryPairs) none := by
  generalize isOutcome :
    ((matcher.matchUri ⟨.after earlier, some current⟩ method uri).run state).1 = outcome
  have answered : outcome.result = .ok (.success name arguments) := by
    rw [← isOutcome, Matcher.matchUri, Matcher.result_matchAt unbuilt registers, looked]
  rcases Matcher.of_matchAt (Pattern.Memo.faithful_after earlier) isOutcome answered with
    ⟨-, faithful, left⟩
  refine ⟨outcome, rfl, answered, ?_⟩
  rw [generateFromCurrent_eq left, generate_eq_write faithful known compiled]
  rfl

theorem mergedArguments_ofTable (noDefaults : generator.defaults = .empty)
    (arguments : Table String) :
    generator.mergedArguments (.ofTable arguments) = .ofTable arguments := by
  rw [mergedArguments, noDefaults, Arguments.empty_merge, Arguments.withoutNulls_ofTable]

theorem isSatisfied_ofTable_iff {variant : Variant} :
    isSatisfied (.ofTable arguments) variant = true ↔
      ∀ argument ∈ variant.names, arguments.contains argument = true := by
  rw [isSatisfied, List.all_eq_true]
  simp only [Arguments.contains_ofTable]

/-- Whether some pairs are left over of the arguments in a table: they are those that neither a
variant nor a query names, in the order of their names. -/
structure IsLeftover (arguments : Table String) (variant : Variant)
    (query leftover : List (String × String)) : Prop where
  sorted : leftover.Pairwise fun left right => left.1 < right.1
  mem_iff : ∀ argument value, (argument, value) ∈ leftover ↔
    arguments.get? argument = some value ∧ argument ∉ variant.names ∧
      argument ∉ query.map Prod.fst

theorem exists_isLeftover (variant : Variant) (arguments : Table String)
    {query : List (String × String)} (once : (query.map Prod.fst).Nodup) :
    ∃ leftover, IsLeftover arguments variant query leftover ∧
      queryPairs variant (.ofTable arguments) (.ofPairs query) = query ++ leftover := by
  rw [queryPairs_eq, Arguments.pairs_ofPairs once]
  refine ⟨_, ⟨(Arguments.pairwise_pairs_ofTable arguments).filter _, ?_⟩, rfl⟩
  intro argument value
  rw [List.mem_filter, Arguments.mem_pairs_iff, Arguments.get?_ofTable, decide_eq_true_iff,
    Arguments.get?_eq_none_iff, Arguments.pairs_ofPairs once]

theorem IsLeftover.eq_nil_iff {variant : Variant} {query leftover : List (String × String)}
    (isLeftover : IsLeftover arguments variant query leftover) :
    leftover = [] ↔ ∀ argument, arguments.contains argument = true →
      argument ∈ variant.names ∨ argument ∈ query.map Prod.fst := by
  simp only [Table.contains_eq_isSome_get?]
  constructor
  · intro none argument present
    rcases Option.isSome_iff_exists.mp present with ⟨value, known⟩
    by_contra unnamed
    have member := (isLeftover.mem_iff argument value).mpr ⟨known, not_or.mp unnamed⟩
    rw [none] at member
    cases member
  · intro each
    apply List.eq_nil_iff_forall_not_mem.mpr
    rintro ⟨argument, value⟩ member
    rcases (isLeftover.mem_iff argument value).mp member with ⟨known, unnamed⟩
    exact not_or.mpr unnamed (each argument (by rw [known]; rfl))

/-- The URL of the current request, generated again, keeps the query of its URI. Behind that stand
the arguments of the match that neither the variant written has a variable for nor the query names
already; so the query is that of the URI just if there are none. Where the matcher answers as its
routes do, each argument is supplied by a variant that fits the request, by the host or by the
defaults, unless literal text writes a capture; and if that variant got an argument for each of its
variables, none of these is left over. -/
theorem generateFromCurrent_keeps_query {σ : Type} {matcher : Matcher (StateM σ)}
    {earlier : List String} {current : CurrentRoute} {method : String} {state : σ}
    {outcome : Matcher.Outcome (StateM σ) MatchResult}
    (shares : Registry.ofRoutes matcher.routes = .ok generator.registry)
    (noDefaults : generator.defaults = .empty) (noPrefix : generator.pathPrefix = "")
    (once : (uri.queryPairs.map Prod.fst).Nodup)
    (matched : ((matcher.matchUri ⟨.after earlier, some current⟩ method uri).run state).1 =
      outcome)
    (answered : outcome.result = .ok (.success name arguments))
    (generated : (generator.generateFromCurrent outcome.shared .empty .empty none none).1 =
      .ok url) :
    ∃ declared ∈ matcher.routes, declared.name = name ∧
    ∃ variants variant query leftover,
      Pattern.compile declared.pattern = .ok variants ∧
      variants.find? (isSatisfied (.ofTable arguments)) = some variant ∧
      url = Path.collapse (String.join
          (variant.tokens.map (writtenToken generator.encoding (.ofTable arguments)))) ++
        (if Query.parse query = [] then "" else "?" ++ query) ∧
      (∀ mark ∈ ['/', '?', '#'], mark ∉ query.toList) ∧
      Query.parse query = uri.queryPairs ++ leftover ∧
      IsLeftover arguments variant uri.queryPairs leftover ∧
      (Query.parse query = uri.queryPairs ↔ ∀ argument, arguments.contains argument = true →
        argument ∈ variant.names ∨ argument ∈ uri.queryPairs.map Prod.fst) ∧
      ∀ others set, (Registration.register (.after others) matcher.routes).1 = .ok set →
        matcher.Ready set ⟨.after earlier, some current⟩ →
        ∃ fitting ∈ variants,
          declared.Matches fitting (uri.host?.getD "") (matcher.encoding.decode uri.path) ∧
          (∀ argument, arguments.contains argument = true →
            declared.Supplies fitting argument) ∧
          ((∀ argument ∈ fitting.names, arguments.contains argument = true) →
            fitting.names ⊆ variant.names) := by
  rcases Matcher.of_matchAt (Pattern.Memo.faithful_after earlier) matched answered with
    ⟨requested, faithful, left⟩
  rw [generateFromCurrent_eq left, Arguments.merge_empty, Arguments.merge_empty] at generated
  rcases exists_of_generate faithful generated with
    ⟨declared, variants, variant, path, known, compiled, chosen, wrote, whole⟩
  rcases exists_isLeftover variant arguments once with ⟨leftover, isLeftover, pairs⟩
  rw [mergedArguments_ofTable noDefaults] at chosen wrote whole
  rw [pairs] at whole
  have holds := Registry.holds_of_ofRoutes shares
  rcases holds.route_eq_ok_iff.mp known with ⟨member, sameName⟩
  refine ⟨declared, member, sameName, variants, variant, Query.build (uri.queryPairs ++ leftover),
    leftover, compiled, chosen, ?_, fun mark marks => Query.mark_notMem_build marks _,
    Query.parse_build _, isLeftover, ?_, ?_⟩
  · rw [whole, noPrefix, String.empty_append, ← eq_join_of_pathText wrote, Query.parse_build]
    simp only [List.isEmpty_iff]
    exact String.append_empty
  · rw [Query.parse_build, List.append_right_eq_self]
    exact isLeftover.eq_nil_iff
  · intro others set registers ready
    rcases ready.exists_supplies registers holds.distinct requested with
      ⟨other, inRoutes, otherName, otherVariants, otherCompiled, fitting, inVariants, fits,
        supplies⟩
    cases List.inj_on_of_nodup_map holds.distinct inRoutes member (otherName.trans sameName.symm)
    cases compiled.symm.trans otherCompiled
    refine ⟨fitting, inVariants, fits, supplies, fun filled => ?_⟩
    exact names_subset_of_isSatisfied compiled chosen inVariants
      (isSatisfied_ofTable_iff.mpr filled)

theorem generateFromCurrent_keeps_query_page :
    let route := ((Route.new [.get] "/page/{id}").withName "page").withDefaults
      (.ofList [("layout", "main")])
    let matcher : Matcher (StateM Unit) :=
      { routes := [route], store := none, encoding := .raw, dispatchSet := none }
    let generator : Generator :=
      { registry := { routes := [route], index := Table.empty.set "page" 0 }
        scheme := none, host := none, defaults := .empty, encoding := .raw, pathPrefix := "" }
    ∃ uri outcome query leftover fitting,
      Uri.ofString? "/page/7?x=1" = some uri ∧
      Registry.ofRoutes matcher.routes = .ok generator.registry ∧
      ((matcher.matchUri ⟨.after [], some .empty⟩ "GET" uri).run ()).1 = outcome ∧
      outcome.result = .ok (.success "page" (.ofList [("layout", "main"), ("id", "7")])) ∧
      (generator.generateFromCurrent outcome.shared .empty .empty none none).1 =
        .ok ("/page/7" ++ ("?" ++ query)) ∧
      Query.parse query = uri.queryPairs ++ leftover ∧ uri.queryPairs = [("x", "1")] ∧
      ("layout", "main") ∈ leftover ∧ (∀ value, ("id", value) ∉ leftover) ∧
      route.Supplies fitting "layout" := by
  have made : (Registration.register (.after []) [((Route.new [.get] "/page/{id}").withName
      "page").withDefaults (.ofList [("layout", "main")])]).1 = .ok
        { DispatchSet.empty with
          anyHost := some (Tree.empty.add [.get, .head] "/page/:id" "page").1
          defaults := { entries := [("page", .ofList [("layout", "main")])] } } := by
    cbv
  have looked : DispatchSet.lookup
      { DispatchSet.empty with
        anyHost := some (Tree.empty.add [.get, .head] "/page/:id" "page").1
        defaults := { entries := [("page", .ofList [("layout", "main")])] } } "" "GET" "/page/7" =
      .success "page" (.ofList [("layout", "main"), ("id", "7")]) := by
    decide +kernel
  intro route matcher generator
  let uri : Uri := { scheme := none, authority := none, path := "/page/7", query := some "x=1" }
  let arguments : Table String := .ofList [("layout", "main"), ("id", "7")]
  let variant : Variant := { tokens := [.literal "/page/", .placeholder ⟨"id", "[^/]+", .one⟩] }
  have known : generator.registry.route "page" = .ok route := by cbv
  have compiled : Pattern.compile route.pattern = .ok [variant] := by cbv
  have bag : Arguments.ofTable arguments = .ofPairs [("id", "7"), ("layout", "main")] := by
    rw [Arguments.ofTable]
    congr 1
    cbv
  have chosen : [variant].find? (isSatisfied (.ofTable arguments)) = some variant := by
    rw [bag]
    decide +kernel
  have wrote : pathText .raw route.pattern (.ofTable arguments) variant.tokens = .ok "/page/7" := by
    cbv
  have written : generator.write "page" route.pattern [variant]
      (generator.mergedArguments (.ofTable arguments)) (.ofPairs uri.queryPairs) none =
        .ok "/page/7?x=1&layout=main" := by
    rw [mergedArguments_ofTable rfl, write, chosen]
    dsimp only
    rw [wrote, bag]
    decide +kernel
  have place : matcher.encoding.decode uri.path = "/page/7" := by decide +kernel
  have host : uri.host?.getD "" = "" := by decide +kernel
  rcases exists_write_of_registers rfl made (host ▸ place ▸ looked) known compiled .empty () with
    ⟨outcome, isOutcome, answered, given⟩
  have shares : Registry.ofRoutes matcher.routes = .ok generator.registry := by cbv
  have generated := given.trans written
  rcases generateFromCurrent_keeps_query shares rfl rfl (by decide +kernel) isOutcome answered
    generated with ⟨declared, member, -, variants, found, query, leftover, compiledToo, chosenToo,
      whole, -, read, isLeftover, -, supplied⟩
  cases List.mem_singleton.mp member
  cases compiled.symm.trans compiledToo
  cases chosen.symm.trans chosenToo
  have path : Path.collapse (String.join
      (variant.tokens.map (writtenToken generator.encoding (.ofTable arguments)))) = "/page/7" := by
    rw [bag]
    decide +kernel
  have pairs : uri.queryPairs = [("x", "1")] := by decide +kernel
  rw [path, if_neg (by simp [read, pairs])] at whole
  rcases supplied [] _ made made with ⟨fitting, -, -, supplies, -⟩
  exact ⟨uri, outcome, query, leftover, fitting, by decide +kernel, shares, isOutcome, answered,
    generated.trans (congrArg Except.ok whole), read, pairs,
    (isLeftover.mem_iff "layout" "main").mpr ⟨by decide +kernel, by decide, by rw [pairs]; decide⟩,
    fun value inside => ((isLeftover.mem_iff "id" value).mp inside).2.1 (by decide),
    supplies "layout" (by decide +kernel)⟩

/-- What the host gives is no part of the path, so it comes to stand in the query. -/
theorem generateFromCurrent_adds_host :
    let routes := [((Route.new [.get] "/").withName "page").withHosts ["{sub}"]]
    let matcher : Matcher (StateM Unit) :=
      { routes, store := none, encoding := .raw, dispatchSet := none }
    let generator : Generator :=
      { registry := { routes, index := Table.empty.set "page" 0 }
        scheme := none, host := none, defaults := .empty, encoding := .raw, pathPrefix := "" }
    ∃ uri outcome url again,
      Uri.ofString? "http://blog/?x=1" = some uri ∧
      Registry.ofRoutes matcher.routes = .ok generator.registry ∧
      ((matcher.matchUri ⟨.after [], some .empty⟩ "GET" uri).run ()).1 = outcome ∧
      outcome.result = .ok (.success "page" (.ofList [("sub", "blog")])) ∧
      (generator.generateFromCurrent outcome.shared .empty .empty none none).1 = .ok url ∧
      Uri.ofString? url = some again ∧
      uri.queryPairs = [("x", "1")] ∧ again.queryPairs = [("x", "1"), ("sub", "blog")] := by
  have made : (Registration.register (.after [])
      [((Route.new [.get] "/").withName "page").withHosts ["{sub}"]]).1 = .ok
        { DispatchSet.empty with
          parameterized := some (Tree.empty.add [.get, .head] "/:sub/" "page").1
          hostPatterns := { entries := [("page", "{sub}")] } } := by
    cbv
  have accepted : Host.accepts "{sub}" "blog" = true := by cbv
  have found : DispatchSet.lookupTree
      (some (Tree.empty.add [.get, .head] "/:sub/" "page").1) "GET" (Host.foldedPath "blog" "/") =
      .found ⟨.get, "page", ["sub"], "/:sub"⟩ (.ofList [("sub", "blog")]) := by
    decide +kernel
  have looked : DispatchSet.lookup
      { DispatchSet.empty with
        parameterized := some (Tree.empty.add [.get, .head] "/:sub/" "page").1
        hostPatterns := { entries := [("page", "{sub}")] } } "blog" "GET" "/" =
      .success "page" (.ofList [("sub", "blog")]) := by
    rw [DispatchSet.lookup_of_unknown rfl, found]
    exact (if_pos accepted).trans (by decide +kernel)
  intro routes matcher generator
  let uri : Uri :=
    { scheme := some "http", authority := some "blog", path := "/", query := some "x=1" }
  let variant : Variant := { tokens := [.literal "/"] }
  have known : generator.registry.route "page" =
      .ok (((Route.new [.get] "/").withName "page").withHosts ["{sub}"]) := by cbv
  have compiled : Pattern.compile "/" = .ok [variant] := by cbv
  have place : matcher.encoding.decode uri.path = "/" := by decide +kernel
  have host : uri.host?.getD "" = "blog" := by decide +kernel
  rcases exists_write_of_registers rfl made (host ▸ place ▸ looked) known compiled .empty () with
    ⟨outcome, isOutcome, answered, given⟩
  have generated := given.trans (show _ = .ok "/?x=1&sub=blog" by decide +kernel)
  exact ⟨uri, outcome, _, ⟨none, none, "/", some "x=1&sub=blog"⟩, by decide +kernel, by cbv,
    isOutcome, answered, generated, by decide +kernel, by decide +kernel, by decide +kernel⟩

end Generator

end UrlRouting
