import UrlRouting.Proofs.Registration.Bindings
import UrlRouting.Proofs.Registration.Hosts
import UrlRouting.Proofs.Tree.Additions

/-!
Where the answers of registered routes stem from. Whatever is bound in the trees of a dispatch set
was asked for by a binding of a route: each step of a registration keeps this, so a whole
registration does. A request is therefore answered only by a route that declares what is asked for,
and the arguments of the answer are those of the route and those that its template captures.
-/

namespace UrlRouting

open Template

/-! ### Endpoints -/

structure Binding.Explains (binding : Binding) (position : Position) (endpoint : Endpoint) :
    Prop where
  tier : binding.tier = position.tier
  route : binding.route = endpoint.handler
  method : binding.method = position.method
  ordered : checkOrder binding.template false (segments binding.template) = .ok ()
  expanded : ∃ steps ∈ expand (segments binding.template),
    nameless steps = position.steps ∧ endpoint.captures = names steps

namespace Forest

structure StemsFrom (forest : Forest) (bindings : List Binding) : Prop where
  divided : ∀ tier, (forest tier).Divided
  explained : ∀ position : Position, position.Proper → ∀ endpoint,
    (forest position.tier).bound? position.steps position.method = some endpoint →
      ∃ binding ∈ bindings, binding.Explains position endpoint

theorem stemsFrom_empty : StemsFrom (fun _ => .empty) [] where
  divided := fun _ => Tree.divided_empty
  explained := by simp

theorem StemsFrom.step {forest next : Forest} {bindings : List Binding} {binding : Binding}
    (stems : forest.StemsFrom bindings) (step : Step forest binding next) :
    next.StemsFrom (bindings ++ [binding]) := by
  rcases step.eq_bindAll with ⟨ordered, rfl⟩
  constructor
  · intro tier
    rw [Function.update_apply]
    split
    case isTrue => exact Tree.divided_bindAll (stems.divided binding.tier) _ _
    case isFalse => exact stems.divided tier
  · intro position proper endpoint bound
    have kept : ∀ endpoint,
        (forest position.tier).bound? position.steps position.method = some endpoint →
          ∃ other ∈ bindings ++ [binding], other.Explains position endpoint := by
      intro endpoint known
      rcases stems.explained position proper endpoint known with ⟨other, member, explains⟩
      exact ⟨other, List.mem_append_left _ member, explains⟩
    rw [Function.update_apply] at bound
    split at bound
    case isFalse => exact kept endpoint bound
    case isTrue sameTier =>
      rw [Tree.bound?_bindAll (Tree.proper_of_mem_places _ _) proper.2, ← sameTier,
        Option.or_eq_some_iff] at bound
      rcases bound with before | ⟨-, new⟩
      · exact kept endpoint before
      · rcases Option.map_eq_some_iff.mp new with ⟨place, found, rfl⟩
        have inPlaces := (List.takeWhile_prefix _).subset (List.mem_of_find?_eq_some found)
        rcases List.mem_flatMap.mp inPlaces with ⟨steps, expanded, isPlace⟩
        rw [List.map_singleton, List.mem_singleton] at isPlace
        subst isPlace
        rcases Tree.isAt_iff.mp (List.find?_some found) with ⟨samePlace, sameMethod⟩
        rw [proper.1] at samePlace
        exact ⟨binding, by simp, sameTier.symm, rfl, sameMethod, ordered, steps, expanded,
          samePlace.symm, rfl⟩

theorem StemsFrom.run {forest final : Forest} {earlier bindings : List Binding}
    (stems : forest.StemsFrom earlier) (run : Run forest bindings final) :
    final.StemsFrom (earlier ++ bindings) := by
  induction run generalizing earlier with
  | nil => rwa [List.append_nil]
  | cons step _ induction =>
      have later := induction (stems.step step)
      rwa [List.append_assoc] at later

end Forest

/-! ### Requests to a tree -/

namespace DispatchSet

def tree? (set : DispatchSet) : Tier → Option Tree
  | .exact host => set.hosts.get? host
  | .parameterized => set.parameterized
  | .anyHost => set.anyHost

theorem forest_eq_getD_tree? (set : DispatchSet) (tier : Tier) :
    set.forest tier = (set.tree? tier).getD .empty := by
  cases tier <;> rfl

variable {set : DispatchSet} {bindings : List Binding} {tier : Tier} {method path : String}
  {endpoint : Endpoint} {captured : Table String}

/-- What the tree of a tier finds is at the preferred one of the places that fit the path. -/
theorem preferred_of_found (stems : set.forest.StemsFrom bindings)
    (found : lookupTree (set.tree? tier) method path = .found endpoint captured) :
    ∃ asked, ∃ steps ∈ fitting (Path.texts path), asked.name = method ∧
      (set.forest tier).bound? steps asked = some endpoint ∧
      captured = .ofList (endpoint.captures.zip
        (Tree.captured path steps (Path.pieces path))) ∧
      ∀ other ∈ fitting (Path.texts path),
        ((set.forest tier).bound? other asked).isSome = true →
          other = steps ∨ Precedes steps other := by
  have divided := stems.divided tier
  rw [forest_eq_getD_tree?] at divided ⊢
  cases known : set.tree? tier with
  | none =>
      rw [known] at found
      cases found
  | some tree =>
      rw [known] at found divided
      rcases Tree.lookup_eq_found divided found with
        ⟨asked, steps, named, fits, bound, captures, preferred⟩
      exact ⟨asked, steps, fits, named, bound, captures, preferred⟩

theorem source_of_found (stems : set.forest.StemsFrom bindings)
    (found : lookupTree (set.tree? tier) method path = .found endpoint captured) :
    ∃ binding ∈ bindings, binding.tier = tier ∧ binding.route = endpoint.handler ∧
      binding.method.name = method ∧
      checkOrder binding.template false (segments binding.template) = .ok () ∧
      ∃ steps ∈ expand (segments binding.template), StepsFit steps (Path.texts path) ∧
        captured = .ofList ((names steps).zip (Tree.captured path steps (Path.pieces path))) := by
  rcases preferred_of_found stems found with ⟨asked, steps, fits, named, bound, rfl, -⟩
  have known := nameless_of_mem_fitting fits
  rcases stems.explained ⟨tier, steps, asked⟩ ⟨known, Tree.proper_fitting fits⟩ endpoint bound with
    ⟨binding, member, sameTier, route, sameMethod, ordered, written, expanded, same, captures⟩
  refine ⟨binding, member, sameTier, route, sameMethod ▸ named, ordered, written, expanded, ?_, ?_⟩
  · apply stepsFit_iff_mem_fitting.mpr
    rw [same]
    exact fits
  · rw [captures, Tree.captured_congr path (same.trans known.symm)]

/-! ### Requests to a set -/

/-- How a tier comes to be asked, and for which path: that of the exact host and that of any host
for the path as it is, that of hosts with variables for the folded one. -/
inductive Asks (set : DispatchSet) (host path : String) (endpoint : Endpoint) :
    Tier → String → Prop
  | exact : Asks set host path endpoint (.exact host) path
  | parameterized (accepted : set.hostAccepted endpoint.handler host = true) :
      Asks set host path endpoint .parameterized (Host.foldedPath host path)
  | anyHost : Asks set host path endpoint .anyHost path

theorem found_of_anyHostAnswer {host name : String} {arguments : Table String}
    {earlier : List Method}
    (answered : set.anyHostAnswer method path earlier = .success name arguments) :
    ∃ tier request endpoint captured, Asks set host path endpoint tier request ∧
      lookupTree (set.tree? tier) method request = .found endpoint captured ∧
      set.success endpoint.handler captured = .success name arguments := by
  rw [anyHostAnswer] at answered
  split at answered
  case h_1 endpoint captured found => exact ⟨_, _, endpoint, captured, .anyHost, found, answered⟩
  case h_2 => cases answered
  case h_3 => split at answered <;> cases answered

theorem found_of_lookup {host name : String} {arguments : Table String}
    (answered : set.lookup host method path = .success name arguments) :
    ∃ tier request endpoint captured, Asks set host path endpoint tier request ∧
      lookupTree (set.tree? tier) method request = .found endpoint captured ∧
      set.success endpoint.handler captured = .success name arguments := by
  cases exact : set.lookupExact host method path with
  | found endpoint captured =>
      rw [lookup, exact] at answered
      exact ⟨_, _, endpoint, captured, .exact, exact, answered⟩
  | methodNotAllowed allowed =>
      rw [lookup, exact] at answered
      cases answered
  | notFound =>
      rw [lookup_of_unknown exact] at answered
      split at answered
      case h_1 endpoint captured found =>
        split at answered
        case isTrue accepted =>
          exact ⟨_, _, endpoint, captured, .parameterized accepted, found, answered⟩
        case isFalse => exact found_of_anyHostAnswer answered
      case h_2 => exact found_of_anyHostAnswer answered
      case h_3 => exact found_of_anyHostAnswer answered

end DispatchSet

namespace Registration

/-! ### Default arguments -/

theorem defaults_bindRoute {route : Route} {variants : List Pattern.Variant}
    {set next : DispatchSet} (bound : bindRoute route variants set = .ok next) :
    next.defaults = set.defaults := by
  cases binds_of_bindRoute bound with
  | anyHost _ _ => rfl
  | exact _ made => rw [eq_of_bindHosts made]
  | parameterized _ _ _ => rfl

theorem defaults_recordDefaults (route : Route) (set : DispatchSet) (name : String) :
    ((recordDefaults route set).defaults.get? name).getD .empty =
      if name = route.name ∧ route.defaults.isEmpty = false then route.defaults
      else (set.defaults.get? name).getD .empty := by
  rw [recordDefaults]
  split
  case isTrue empty => simp [empty]
  case isFalse nonempty =>
    rw [Table.get?_set]
    by_cases same : name = route.name <;> simp [same, nonempty]

theorem Registers.defaults_of_notMem {routes : List Route} {set next : DispatchSet}
    {memo : Pattern.Memo} (registers : Registers set memo routes next) {name : String}
    (other : name ∉ routes.map Route.name) :
    (next.defaults.get? name).getD .empty = (set.defaults.get? name).getD .empty := by
  induction registers with
  | nil => rfl
  | hidden _ _ induction =>
      rw [List.map_cons, List.mem_cons, not_or] at other
      exact induction other.2
  | bound _ _ made _ induction =>
      rw [List.map_cons, List.mem_cons, not_or] at other
      rw [induction other.2, defaults_recordDefaults, if_neg (by simp [other.1]),
        defaults_bindRoute made]

theorem Registers.defaults {routes : List Route} {set next : DispatchSet} {memo : Pattern.Memo}
    (registers : Registers set memo routes next) (distinct : (routes.map Route.name).Nodup)
    (fresh : ∀ route ∈ routes, set.defaults.get? route.name = none) :
    ∀ route ∈ routes, route.dispatchable = true →
      (next.defaults.get? route.name).getD .empty = route.defaults := by
  induction registers with
  | nil => simp
  | hidden hidden _ induction =>
      rw [List.map_cons, List.nodup_cons] at distinct
      rw [List.forall_mem_cons] at fresh ⊢
      exact ⟨fun dispatchable => absurd dispatchable hidden, induction distinct.2 fresh.2⟩
  | @bound set middle final memo asked route rest variants _ known made later induction =>
      rw [List.map_cons, List.nodup_cons] at distinct
      rw [List.forall_mem_cons] at fresh ⊢
      constructor
      · intro _
        rw [later.defaults_of_notMem distinct.1, defaults_recordDefaults, defaults_bindRoute made,
          fresh.1]
        cases empty : route.defaults.isEmpty with
        | true => simp [Table.eq_empty_of_isEmpty empty]
        | false => simp
      · apply induction distinct.2
        intro other member
        have different : other.name ≠ route.name := by
          intro equal
          exact distinct.1 (equal ▸ List.mem_map_of_mem member)
        have unset : middle.defaults.get? other.name = none := by
          rw [defaults_bindRoute made]
          exact fresh.2 other member
        rw [recordDefaults]
        split
        · exact unset
        · rw [Table.get?_set_of_ne _ _ different]
          exact unset

/-! ### Answers -/

theorem register_eq_of_fst {memo : Pattern.Memo} {routes : List Route}
    {outcome : Except RoutingError DispatchSet} (made : (register memo routes).1 = outcome) :
    register memo routes = (outcome, (register memo routes).2) := by
  rw [← made]

theorem mem_bindings {routes : List Route} {binding : Binding} :
    binding ∈ bindings routes ↔ ∃ route ∈ routes, binding ∈ route.bindings :=
  List.mem_flatMap

end Registration

namespace Route

/-- How a route admits a host, with the text that stands before its templates and the path that they
are to fit: it declares no host, or the host itself and no variables, or a template of hosts with
variables that means the host. -/
inductive Admits (route : Route) (host path : String) : String → String → Prop
  | anyHost (undeclared : route.hosts = []) : Admits route host path "" path
  | exact (declared : host ∈ route.hosts)
      (plain : ∀ other ∈ route.hosts, Pattern.hasVariables other = false) :
      Admits route host path "" path
  | parameterized {template : String} (declared : route.hosts = [template])
      (parameterized : Pattern.hasVariables template = true)
      (accepted : Host.accepts template host = true) :
      Admits route host path (Host.pathTemplate template) (Host.foldedPath host path)

/-- Whether a request with its answer is one that a route declares: the route is dispatchable, it
declares the method, GET standing for HEAD as well, it admits the host, the template of one of its
variants fits the path, and the arguments are its defaults under what the template captures. -/
structure Declares (route : Route) (host method path : String) (arguments : Table String) :
    Prop where
  dispatchable : route.dispatchable = true
  answers : ∃ asked : Method, asked.name = method ∧
    (asked ∈ route.methods ∨ asked = .head ∧ Method.get ∈ route.methods)
  fits : ∃ beginning request, route.Admits host path beginning request ∧
    ∃ variants, Pattern.compile route.pattern = .ok variants ∧
    ∃ variant ∈ variants, ∃ text, variant.template = .ok text ∧
      Fits (segments (beginning ++ text)) (Path.texts request) ∧
      ∃ steps ∈ expand (segments (beginning ++ text)), StepsFit steps (Path.texts request) ∧
        ∀ name, arguments.get? name =
          ((Table.ofList ((names steps).zip
            (Tree.captured request steps (Path.pieces request)))).get? name).or
            (route.defaults.get? name)

end Route

namespace Registration

theorem admits_of_asks {routes : List Route} {set : DispatchSet} {memo after : Pattern.Memo}
    (distinct : (routes.map Route.name).Nodup)
    (registered : register memo routes = (.ok set, after)) {route : Route}
    (member : route ∈ routes) (dispatchable : route.dispatchable = true)
    {hostBinding : HostBinding} (read : HostBinding.ofHosts route.hosts = .ok hostBinding)
    {tier : Tier} (inTiers : tier ∈ hostBinding.tiers) {host path request : String}
    {endpoint : Endpoint} (handled : endpoint.handler = route.name)
    (asks : set.Asks host path endpoint tier request) :
    route.Admits host path hostBinding.beginning request := by
  cases hostBinding with
  | any =>
      rw [HostBinding.tiers, List.mem_singleton] at inTiers
      subst inTiers
      cases asks
      exact .anyHost (HostBinding.hosts_of_any read)
  | exact hosts =>
      rcases List.mem_map.mp inTiers with ⟨declared, inHosts, rfl⟩
      rcases HostBinding.hosts_of_exact read with ⟨rfl, plain⟩
      cases asks
      exact .exact inHosts plain
  | parameterized template =>
      rw [HostBinding.tiers, List.mem_singleton] at inTiers
      subst inTiers
      rcases HostBinding.hosts_of_parameterized read with ⟨declared, parameterized, -⟩
      cases asks with
      | parameterized accepted =>
          refine .parameterized declared parameterized ?_
          rwa [handled, hostAccepted_eq distinct registered member dispatchable
            (Route.hostTemplate?_eq_some_iff.mpr read)] at accepted

/-- An answer stems from a binding of a route of its name: a template of the binding fits the path
that was asked for, and the arguments are the defaults of the route under what is captured. -/
theorem exists_binding_of_lookup {earlier : List String} {routes : List Route}
    {set : DispatchSet} {memo : Pattern.Memo}
    (registered : register (.after earlier) routes = (.ok set, memo))
    (distinct : (routes.map Route.name).Nodup) {host method path name : String}
    {arguments : Table String}
    (answered : set.lookup host method path = .success name arguments) :
    ∃ route ∈ routes, route.name = name ∧ ∃ binding ∈ route.bindings,
      binding.method.name = method ∧
      checkOrder binding.template false (segments binding.template) = .ok () ∧
      ∃ request endpoint, endpoint.handler = route.name ∧
        set.Asks host path endpoint binding.tier request ∧
        ∃ steps ∈ expand (segments binding.template), StepsFit steps (Path.texts request) ∧
          ∀ argument, arguments.get? argument =
            ((Table.ofList ((names steps).zip
              (Tree.captured request steps (Path.pieces request)))).get? argument).or
              (route.defaults.get? argument) := by
  rcases DispatchSet.found_of_lookup answered with
    ⟨tier, request, endpoint, captured, asks, found, answer⟩
  have stems := Forest.stemsFrom_empty.run (run_register registered)
  rw [List.nil_append] at stems
  rcases DispatchSet.source_of_found stems found with
    ⟨binding, inBindings, rfl, handled, named, ordered, steps, expanded, fits, captures⟩
  rcases mem_bindings.mp inBindings with ⟨route, member, asked⟩
  have sameRoute : route.name = endpoint.handler := (route_of_mem_bindings asked).symm.trans handled
  rw [DispatchSet.success, MatchResult.success.injEq] at answer
  rcases answer with ⟨rfl, rfl⟩
  refine ⟨route, member, sameRoute, binding, asked, named, ordered, request, endpoint,
    sameRoute.symm, asks, steps, expanded, fits, ?_⟩
  have defaults := (registers_of_registerAll registered).defaults distinct (fun _ _ => rfl)
    route member (mem_bindings_iff.mp asked).1
  intro argument
  rw [Table.get?_setAll_entries, captures, ← sameRoute, defaults]

/-- Registered routes answer only what one of them declares, under its name. -/
theorem register_answers_declared {earlier : List String} {routes : List Route}
    {set : DispatchSet} {memo : Pattern.Memo}
    (registered : register (.after earlier) routes = (.ok set, memo))
    (distinct : (routes.map Route.name).Nodup) {host method path name : String}
    {arguments : Table String}
    (answered : set.lookup host method path = .success name arguments) :
    ∃ route ∈ routes, route.name = name ∧ route.Declares host method path arguments := by
  rcases exists_binding_of_lookup registered distinct answered with
    ⟨route, member, sameName, binding, asked, named, ordered, request, endpoint, handled, asks,
      steps, expanded, fits, given⟩
  rcases mem_bindings_iff.mp asked with
    ⟨dispatchable, variants, compiled, hostBinding, read, _, inTiers, variant, inVariants, text,
      template, known, answers, rfl⟩
  exact ⟨route, member, sameName, dispatchable,
    ⟨known, named, mem_answeredMethods_iff.mp answers⟩, hostBinding.beginning, request,
    admits_of_asks distinct registered member dispatchable read inTiers handled asks,
    variants, compiled, variant, inVariants, text, template,
    fits_of_mem_expand ordered expanded fits, steps, expanded, fits, given⟩

theorem register_answers_declared_page :
    ∃ set memo arguments,
      register (.after []) [(((Route.new [.get] "/page/{id}").withName "page").withHosts
        ["{lang}"]).withDefaults (.ofList [("id", "1"), ("layout", "main")])] = (.ok set, memo) ∧
      set.lookup "en" "HEAD" "/page/7" = .success "page" arguments ∧
      ∃ route ∈ [(((Route.new [.get] "/page/{id}").withName "page").withHosts
          ["{lang}"]).withDefaults (.ofList [("id", "1"), ("layout", "main")])],
        route.name = "page" ∧ route.Declares "en" "HEAD" "/page/7" arguments := by
  have made : (register (.after []) [(((Route.new [.get] "/page/{id}").withName "page").withHosts
      ["{lang}"]).withDefaults (.ofList [("id", "1"), ("layout", "main")])]).1 = .ok
        { DispatchSet.empty with
          parameterized := some (Tree.empty.add [.get, .head] "/:lang/page/:id" "page").1
          hostPatterns := { entries := [("page", "{lang}")] }
          defaults := { entries := [("page", .ofList [("id", "1"), ("layout", "main")])] } } := by
    cbv
  have accepted : Host.accepts "{lang}" "en" = true := by cbv
  have found : DispatchSet.lookupTree
      (some (Tree.empty.add [.get, .head] "/:lang/page/:id" "page").1) "HEAD"
        (Host.foldedPath "en" "/page/7") =
      .found ⟨.head, "page", ["lang", "id"], "/:lang/page/:id"⟩
        (.ofList [("lang", "en"), ("id", "7")]) := by
    decide +kernel
  have answered : DispatchSet.lookup
      { DispatchSet.empty with
        parameterized := some (Tree.empty.add [.get, .head] "/:lang/page/:id" "page").1
        hostPatterns := { entries := [("page", "{lang}")] }
        defaults := { entries := [("page", .ofList [("id", "1"), ("layout", "main")])] } }
      "en" "HEAD" "/page/7" =
        .success "page" (.ofList [("id", "7"), ("layout", "main"), ("lang", "en")]) := by
    rw [DispatchSet.lookup_of_unknown rfl, found]
    exact (if_pos accepted).trans (by decide +kernel)
  have registered := register_eq_of_fst made
  exact ⟨_, _, _, registered, answered,
    register_answers_declared registered (by decide) answered⟩

end Registration

end UrlRouting
