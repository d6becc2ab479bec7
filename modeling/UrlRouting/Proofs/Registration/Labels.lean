import UrlRouting.Proofs.Pattern.Template
import UrlRouting.Proofs.Registration.Sources
import UrlRouting.Proofs.Tree.Folding

/-!
Hosts and paths of answers told apart. A request to a host with variables is looked up with the host
put before the path, where a dot and a slash are the same. The labels of the host and the pieces of
the path are confused just if the host has not as many labels as the template of the route that
answers; the check of the host excludes this if no variable can take a dot.
-/

namespace UrlRouting

open Template

theorem Template.checkOrder_of_append {template : String} {afterOptional : Bool}
    {first rest : List Segment}
    (ordered : checkOrder template afterOptional (first ++ rest) = .ok ()) :
    ∃ afterFirst, checkOrder template afterFirst rest = .ok () := by
  induction first generalizing afterOptional with
  | nil => exact ⟨afterOptional, ordered⟩
  | cons segment others induction =>
      rcases checkOrder_tail ordered with ⟨_, later⟩
      exact induction later

/-- Whether the host and the path of an answer are told apart: the labels of the host are meant by
those of the template one by one, a variant of the route fits the path alone, and the arguments are
the defaults of the route under what the variables mean in the host and what the variant captures
from the path. -/
structure Route.Separates (route : Route) (template host path : String)
    (arguments : Table String) : Prop where
  meant : List.Forall₂ Host.Means (Host.labels template) (Host.labelTexts host)
  fits : ∃ variants, Pattern.compile route.pattern = .ok variants ∧
    ∃ variant ∈ variants, ∃ text, variant.template = .ok text ∧
      Fits (segments text) (Path.texts path) ∧
      ∃ steps ∈ expand (segments text), StepsFit steps (Path.texts path) ∧
        ∀ name, arguments.get? name =
          ((Table.ofList (Host.bindings (Host.labels template) (Host.labelTexts host) ++
            (names steps).zip (Tree.captured path steps (Path.pieces path)))).get? name).or
              (route.defaults.get? name)

namespace Registration

variable {earlier : List String} {routes : List Route} {set : DispatchSet} {memo : Pattern.Memo}
  {route : Route} {template : String}

theorem variant_of_found (registered : register (.after earlier) routes = (.ok set, memo))
    (distinct : (routes.map Route.name).Nodup) (member : route ∈ routes)
    (declared : route.hostTemplate? = some template) {method path : String} {endpoint : Endpoint}
    {captured : Table String}
    (found : DispatchSet.lookupTree set.parameterized method path = .found endpoint captured)
    (handled : endpoint.handler = route.name) :
    route.dispatchable = true ∧ ∃ variants, Pattern.compile route.pattern = .ok variants ∧
      ∃ variant ∈ variants, ∃ text, variant.template = .ok text ∧
        checkOrder (Host.pathTemplate template ++ text) false
          (segments (Host.pathTemplate template ++ text)) = .ok () ∧
        ∃ steps ∈ expand (segments (Host.pathTemplate template ++ text)),
          StepsFit steps (Path.texts path) ∧
            captured =
              .ofList ((names steps).zip (Tree.captured path steps (Path.pieces path))) := by
  have stems := Forest.stemsFrom_empty.run (run_register registered)
  rw [List.nil_append] at stems
  rcases @DispatchSet.source_of_found _ _ .parameterized _ _ _ _ stems found with
    ⟨binding, inBindings, -, sameRoute, -, ordered, steps, expanded, fits, captures⟩
  rcases mem_bindings.mp inBindings with ⟨other, inRoutes, asked⟩
  have sameName : other.name = route.name :=
    (route_of_mem_bindings asked).symm.trans (sameRoute.trans handled)
  cases List.inj_on_of_nodup_map distinct inRoutes member sameName
  rcases mem_bindings_iff.mp asked with
    ⟨dispatchable, variants, compiled, hostBinding, read, tier, -, variant, inVariants, text,
      written, _, -, rfl⟩
  rw [Route.hostTemplate?_eq_some_iff.mp declared, Except.ok.injEq] at read
  subst read
  exact ⟨dispatchable, variants, compiled, variant, inVariants, text, written, ordered, steps,
    expanded, fits, captures⟩

theorem separates_of_means (registered : register (.after earlier) routes = (.ok set, memo))
    (distinct : (routes.map Route.name).Nodup) (member : route ∈ routes)
    (declared : route.hostTemplate? = some template)
    (whole : Host.Whole template) {host path method : String} (slashless : '/' ∉ host.toList)
    (slashlessTemplate : .literal '/' ∉ Host.symbols template)
    (rooted : path.toList.head? = some '/') {endpoint : Endpoint} {captured : Table String}
    (found : DispatchSet.lookupTree set.parameterized method (Host.foldedPath host path) =
      .found endpoint captured) (handled : endpoint.handler = route.name)
    (meant : List.Forall₂ Host.Means (Host.labels template) (Host.labelTexts host))
    {arguments : Table String}
    (answered : set.success endpoint.handler captured = .success route.name arguments) :
    route.Separates template host path arguments := by
  rcases variant_of_found registered distinct member declared found handled with
    ⟨dispatchable, variants, compiled, variant, inVariants, text, written, ordered, all, expanded,
      fits, captures⟩
  have rootedText := Pattern.Variant.head?_of_template written
  rcases Host.split_of_means whole slashlessTemplate meant slashless rootedText rooted expanded
    fits with ⟨rest, inExpand, fitsRest, split⟩
  rw [Host.segments_append whole slashlessTemplate rootedText] at ordered
  rcases checkOrder_of_append ordered with ⟨_, orderedRest⟩
  refine ⟨meant, variants, compiled, variant, inVariants, text, written,
    fits_of_mem_expand orderedRest inExpand fitsRest, rest, inExpand, fitsRest, ?_⟩
  have defaults := (registers_of_registerAll registered).defaults distinct (fun _ _ => rfl)
    route member dispatchable
  rw [DispatchSet.success, MatchResult.success.injEq, handled, defaults, captures, split]
    at answered
  intro name
  rw [← answered.2, Table.get?_setAll_entries]

/-- An answer of a route of hosts with variables that are whole labels keeps the host and the path
apart just if the host has as many labels as the template, and the template only labels that a host
in a path can have. That is so if no variable of the template can take a dot. -/
theorem register_separates (registered : register (.after earlier) routes = (.ok set, memo))
    (distinct : (routes.map Route.name).Nodup) (member : route ∈ routes)
    (declared : route.hostTemplate? = some template) (whole : Host.Whole template)
    {host path method : String} (slashless : '/' ∉ host.toList)
    (labelled : [] ∉ Host.labelTexts host) (rooted : path.toList.head? = some '/')
    (unknown : set.lookupExact host method path = .notFound)
    (folded : set.AnswersFolded host method path) {arguments : Table String}
    (answered : set.lookup host method path = .success route.name arguments) :
    (route.Separates template host path arguments ↔
      (Host.labels template).length = (Host.labelTexts host).length ∧ Host.Proper template) ∧
    ((∀ parameter ∈ Host.parameters template, Host.Confined parameter) →
      route.Separates template host path arguments) := by
  rcases folded with ⟨endpoint, captured, found, accepted⟩
  rw [DispatchSet.lookup_of_unknown unknown, found] at answered
  simp only [accepted, if_true] at answered
  have handled : endpoint.handler = route.name := by
    rw [DispatchSet.success, MatchResult.success.injEq] at answered
    exact answered.1
  rcases variant_of_found registered distinct member declared found handled with
    ⟨dispatchable, _, -, variant, -, text, written, -, all, expanded, fits, -⟩
  have separates : Host.Proper template →
      List.Forall₂ Host.Means (Host.labels template) (Host.labelTexts host) →
        route.Separates template host path arguments := fun proper meant =>
    separates_of_means registered distinct member declared whole slashless proper.2 rooted found
      handled meant answered
  constructor
  · constructor
    · intro apart
      exact ⟨apart.meant.length_eq, Host.proper_of_means slashless labelled apart.meant⟩
    · intro given
      rcases given with ⟨sameLength, proper⟩
      apply separates proper
      rw [Host.segments_append whole proper.2 (Pattern.Variant.head?_of_template written),
        Host.expand_append] at expanded
      rcases List.mem_map.mp expanded with ⟨rest, -, rfl⟩
      have kept : (Host.labelTexts host).filter (!·.isEmpty) = Host.labelTexts host := by
        apply List.filter_eq_self.mpr
        intro label inHost
        rw [Bool.not_eq_true', ← Bool.not_eq_true, List.isEmpty_iff]
        rintro rfl
        exact labelled inHost
      rw [Host.texts_foldedPath slashless rooted, kept] at fits
      exact Host.means_of_stepsFit whole proper.1 labelled
        (fun label inLabels => (Text.isInfix_of_mem_splitOnP inLabels).2) sameLength fits
  · intro confined
    rw [handled, hostAccepted_eq distinct registered member dispatchable declared] at accepted
    rcases Host.exists_spelling_of_accepts confined accepted with ⟨texts, spelled, equal⟩
    have meant := Host.means_of_spelling whole spelled equal (.inr labelled)
    exact separates (Host.proper_of_means slashless labelled meant) meant

theorem register_separates_page :
    ∃ set memo arguments,
      register (.after []) [((Route.new [.get] "/page/{id}").withName "page").withHosts
        ["\x7bl:en|fr\x7d"]] = (.ok set, memo) ∧
      set.lookup "fr" "GET" "/page/7" = .success "page" arguments ∧
      (((Route.new [.get] "/page/{id}").withName "page").withHosts
        ["\x7bl:en|fr\x7d"]).Separates "\x7bl:en|fr\x7d" "fr" "/page/7" arguments := by
  have made : (register (.after []) [((Route.new [.get] "/page/{id}").withName "page").withHosts
      ["\x7bl:en|fr\x7d"]]).1 = .ok
        { DispatchSet.empty with
          parameterized := some (Tree.empty.add [.get, .head] "/:l/page/:id" "page").1
          hostPatterns := { entries := [("page", "\x7bl:en|fr\x7d")] } } := by
    cbv
  have accepted : Host.accepts "\x7bl:en|fr\x7d" "fr" = true := by cbv
  have declared : (((Route.new [.get] "/page/{id}").withName "page").withHosts
      ["\x7bl:en|fr\x7d"]).hostTemplate? = some "\x7bl:en|fr\x7d" := by
    cbv
  have parameters : Host.parameters "\x7bl:en|fr\x7d" = [⟨"l", "en|fr", .one⟩] := by cbv
  have labels : Host.labels "\x7bl:en|fr\x7d" = [[.placeholder ⟨"l", "en|fr", .one⟩]] := by cbv
  have confined : ∀ parameter ∈ Host.parameters "\x7bl:en|fr\x7d", Host.Confined parameter := by
    rw [parameters, List.forall_mem_singleton]
    have ordinary : ∀ character ∈ "en|fr".toList,
        character = '|' ∨ Regex.isSpecial character = false := by
      simp [Regex.isSpecial]
    exact Regex.readsAs_words ordinary (by decide)
  have found : DispatchSet.lookupTree
      (some (Tree.empty.add [.get, .head] "/:l/page/:id" "page").1) "GET"
        (Host.foldedPath "fr" "/page/7") =
      .found ⟨.get, "page", ["l", "id"], "/:l/page/:id"⟩
        (.ofList [("l", "fr"), ("id", "7")]) := by
    decide +kernel
  have answered : DispatchSet.lookup
      { DispatchSet.empty with
        parameterized := some (Tree.empty.add [.get, .head] "/:l/page/:id" "page").1
        hostPatterns := { entries := [("page", "\x7bl:en|fr\x7d")] } }
      "fr" "GET" "/page/7" = .success "page" (.ofList [("l", "fr"), ("id", "7")]) := by
    rw [DispatchSet.lookup_of_unknown rfl, found]
    exact (if_pos accepted).trans (by decide +kernel)
  have registered := register_eq_of_fst made
  exact ⟨_, _, _, registered, answered,
    (register_separates registered (by decide) (List.mem_singleton_self _) declared
      (by simp [Host.Whole, labels]) (show '/' ∉ "fr".toList by decide) (by decide) rfl rfl
      ⟨_, _, found, accepted⟩ answered).2 confined⟩

/-- A host whose variable takes a dot is answered for a path that no variant of the route fits: the
variable of the path holds text of the host. -/
theorem register_confuses_host_with_path :
    ∃ set memo,
      register (.after []) [((Route.new [.get] "/{p}").withName "page").withHosts
        ["\x7bs:.+\x7d"]] = (.ok set, memo) ∧
      (((Route.new [.get] "/{p}").withName "page").withHosts ["\x7bs:.+\x7d"]).hostTemplate? =
        some "\x7bs:.+\x7d" ∧
      Host.Whole "\x7bs:.+\x7d" ∧
      set.lookup "a.b" "GET" "/" = .success "page" (.ofList [("s", "a"), ("p", "b")]) ∧
      (Host.labels "\x7bs:.+\x7d").length ≠ (Host.labelTexts "a.b").length ∧
      ∀ arguments, ¬ (((Route.new [.get] "/{p}").withName "page").withHosts
        ["\x7bs:.+\x7d"]).Separates "\x7bs:.+\x7d" "a.b" "/" arguments := by
  have made : (register (.after []) [((Route.new [.get] "/{p}").withName "page").withHosts
      ["\x7bs:.+\x7d"]]).1 = .ok
        { DispatchSet.empty with
          parameterized := some (Tree.empty.add [.get, .head] "/:s/:p" "page").1
          hostPatterns := { entries := [("page", "\x7bs:.+\x7d")] } } := by
    cbv
  have accepted : Host.accepts "\x7bs:.+\x7d" "a.b" = true := by cbv
  have declared : (((Route.new [.get] "/{p}").withName "page").withHosts
      ["\x7bs:.+\x7d"]).hostTemplate? = some "\x7bs:.+\x7d" := by
    cbv
  have labels : Host.labels "\x7bs:.+\x7d" = [[.placeholder ⟨"s", ".+", .one⟩]] := by cbv
  have found : DispatchSet.lookupTree (some (Tree.empty.add [.get, .head] "/:s/:p" "page").1)
      "GET" (Host.foldedPath "a.b" "/") =
      .found ⟨.get, "page", ["s", "p"], "/:s/:p"⟩ (.ofList [("s", "a"), ("p", "b")]) := by
    decide +kernel
  have different : (Host.labels "\x7bs:.+\x7d").length ≠ (Host.labelTexts "a.b").length := by
    rw [labels]
    decide
  refine ⟨_, _, register_eq_of_fst made, declared, by simp [Host.Whole, labels], ?_, different,
    fun arguments apart => different apart.meant.length_eq⟩
  rw [DispatchSet.lookup_of_unknown rfl, found]
  exact (if_pos accepted).trans (by decide +kernel)

end Registration

end UrlRouting
