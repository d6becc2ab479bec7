import UrlRouting.Proofs.Registration.Sources

/-!
Routes that hide each other. All hosts with variables share one tree, which finds the route of the
preferred place alone; only then is that route's host checked, and no other place is tried. So a
route answers unless the preferred place is that of a route for other hosts.
-/

namespace UrlRouting

open Template

/-- Whether a route owns the preferred one of the places that are owned for a method and fit a
path. -/
def Owners.Prefers (owners : Owners) (tier : Tier) (asked : Method) (path : String)
    (route : String) : Prop :=
  ∃ steps ∈ fitting (Path.texts path), owners ⟨tier, steps, asked⟩ = some route ∧
    ∀ other ∈ fitting (Path.texts path), (owners ⟨tier, other, asked⟩).isSome = true →
      other = steps ∨ Precedes steps other

theorem Owners.Prefers.unique {owners : Owners} {tier : Tier} {asked : Method}
    {path first second : String} (firstPreferred : owners.Prefers tier asked path first)
    (secondPreferred : owners.Prefers tier asked path second) : first = second := by
  rcases firstPreferred with ⟨firstSteps, firstFits, firstOwned, firstLeast⟩
  rcases secondPreferred with ⟨secondSteps, secondFits, secondOwned, secondLeast⟩
  have same : firstSteps = secondSteps := by
    rcases firstLeast secondSteps secondFits (by rw [secondOwned, Option.isSome_some]) with
      equal | before
    · exact equal.symm
    · rcases secondLeast firstSteps firstFits (by rw [firstOwned, Option.isSome_some]) with
        equal | after
      · exact equal
      · exact absurd after before.asymm
  rw [same] at firstOwned
  exact Option.some.inj (firstOwned.symm.trans secondOwned)

theorem Method.name_injective : Function.Injective Method.name := by
  intro first second same
  rw [← Option.some_inj, ← ofName?_name first, same, ofName?_name]

namespace DispatchSet

variable {set : DispatchSet} {bindings : List Binding} {tier : Tier} {asked : Method}
  {path : String}

theorem prefers_of_found (stems : set.forest.StemsFrom bindings) {endpoint : Endpoint}
    {captured : Table String}
    (found : lookupTree (set.tree? tier) asked.name path = .found endpoint captured) :
    set.owners.Prefers tier asked path endpoint.handler := by
  rcases preferred_of_found stems found with ⟨method, steps, fits, named, bound, -, least⟩
  cases Method.name_injective named
  refine ⟨steps, fits, by rw [owners, Forest.owners, bound, Option.map_some], ?_⟩
  intro other otherFits owned
  rw [owners, Forest.owners, Option.isSome_map] at owned
  exact least other otherFits owned

theorem found_of_owned (stems : set.forest.StemsFrom bindings) {steps : List Step}
    (fits : steps ∈ fitting (Path.texts path)) {route : String}
    (owned : set.owners ⟨tier, steps, asked⟩ = some route) :
    ∃ endpoint captured,
      lookupTree (set.tree? tier) asked.name path = .found endpoint captured := by
  have divided := stems.divided tier
  rw [owners, Forest.owners, Option.map_eq_some_iff] at owned
  rcases owned with ⟨endpoint, bound, -⟩
  rw [forest_eq_getD_tree?] at bound divided
  cases known : set.tree? tier with
  | none =>
      rw [known] at bound
      simp [Tree.bound?, Endpoint.find?] at bound
  | some tree =>
      rw [known] at bound divided
      exact Tree.lookup_isFound_iff.mpr ⟨asked, (Tree.mem_methodsAt_iff divided).mpr
        ⟨steps, fits, Option.isSome_iff_exists.mpr ⟨endpoint, bound⟩⟩, rfl⟩

end DispatchSet

namespace Registration

variable {earlier : List String} {routes : List Route} {set : DispatchSet} {memo : Pattern.Memo}

theorem exists_owner_register (registered : register (.after earlier) routes = (.ok set, memo))
    {binding : Binding} (member : binding ∈ bindings routes) {position : Position}
    (reaches : binding.Reaches set.owners position) :
    ∃ route, set.owners position = some route := by
  have same : ∀ other ∈ binding.positions,
      set.owners other = Owners.none.takeAll (bindings routes) other :=
    fun _ claimed => owners_register registered (Binding.proper_of_mem_positions claimed)
  rw [same position reaches.mem]
  exact Owners.exists_owner_of_reaches member ((Binding.reaches_congr same position).mp reaches)

theorem eq_of_mem_positions {route : Route} {template : String}
    (declared : route.hostTemplate? = some template) {binding : Binding}
    (asked : binding ∈ route.bindings) {position : Position}
    (claimed : position ∈ binding.positions) :
    position = ⟨.parameterized, position.steps, binding.method⟩ := by
  rcases List.mem_map.mp claimed with ⟨steps, -, rfl⟩
  rcases mem_bindings_iff.mp asked with
    ⟨-, -, -, hostBinding, read, tier, inTiers, -, -, -, -, _, -, rfl⟩
  rw [Route.hostTemplate?_eq_some_iff.mp declared, Except.ok.injEq] at read
  rw [← read, HostBinding.tiers, List.mem_singleton] at inTiers
  rw [inTiers]

/-- The route that a tree finds does not mean the host just if the preferred place is that of a
route that does not, which is another one than any for which the host is accepted. -/
theorem rejected_iff_preferred (registered : register (.after earlier) routes = (.ok set, memo))
    (distinct : (routes.map Route.name).Nodup) {host path name : String}
    (accepted : set.hostAccepted name host = true) {asked : Method} {endpoint : Endpoint}
    (preferred : set.owners.Prefers .parameterized asked path endpoint.handler) :
    set.hostAccepted endpoint.handler host = false ↔
      ∃ hider ∈ routes, hider.dispatchable = true ∧ hider.name ≠ name ∧
        hider.Rejects host ∧ set.owners.Prefers .parameterized asked path hider.name := by
  rw [hostAccepted_register distinct registered]
  constructor
  · intro rejected
    rcases rejected with ⟨hider, inRoutes, dispatchable, named, rejects⟩
    refine ⟨hider, inRoutes, dispatchable, ?_, rejects, named ▸ preferred⟩
    intro sameName
    have refused := (hostAccepted_register distinct registered).mpr
      ⟨hider, inRoutes, dispatchable, sameName, rejects⟩
    rw [accepted] at refused
    cases refused
  · intro given
    rcases given with ⟨hider, inRoutes, dispatchable, -, rejects, prefers⟩
    exact ⟨hider, inRoutes, dispatchable, prefers.unique preferred, rejects⟩

theorem rejected_iff_hidden (registered : register (.after earlier) routes = (.ok set, memo))
    (distinct : (routes.map Route.name).Nodup) {host path : String} {route : Route}
    (member : route ∈ routes) {template : String} (declared : route.hostTemplate? = some template)
    (accepted : Host.accepts template host = true) {asked : Method} {endpoint : Endpoint}
    (preferred : set.owners.Prefers .parameterized asked path endpoint.handler) :
    set.hostAccepted endpoint.handler host = false ↔
      ∃ hider ∈ routes, hider.dispatchable = true ∧ hider.name ≠ route.name ∧
        hider.Rejects host ∧ set.owners.Prefers .parameterized asked path hider.name := by
  have meant : set.hostAccepted route.name host = true := by
    rw [← Bool.not_eq_false, hostAccepted_register distinct registered]
    intro rejected
    rcases rejected with ⟨other, inRoutes, -, sameName, declaredToo, known, refused⟩
    cases List.inj_on_of_nodup_map distinct inRoutes member sameName
    cases declared.symm.trans known
    rw [accepted] at refused
    cases refused
  exact rejected_iff_preferred registered distinct meant preferred

/-- A route that means the host, and has got as far as a place that fits, sees the request answered
unless it is hidden: no route of any host answers, and the preferred place is that of another route,
which does not mean the host. -/
theorem register_answers_unless_hidden
    (registered : register (.after earlier) routes = (.ok set, memo))
    (distinct : (routes.map Route.name).Nodup) {host path : String}
    (unlisted : set.hosts.get? host = none) {route : Route} (member : route ∈ routes)
    {template : String} (declared : route.hostTemplate? = some template)
    (accepted : Host.accepts template host = true) {binding : Binding}
    (asked : binding ∈ route.bindings) {position : Position}
    (reaches : binding.Reaches set.owners position)
    (fits : position.steps ∈ fitting (Path.texts (Host.foldedPath host path))) :
    (set.lookup host binding.method.name path).isSuccess = true ↔
      ¬ (¬ set.AnswersAny binding.method.name path ∧
        ∃ hider ∈ routes, hider.dispatchable = true ∧ hider.name ≠ route.name ∧
          hider.Rejects host ∧
          set.owners.Prefers .parameterized binding.method (Host.foldedPath host path)
            hider.name) := by
  have stems := Forest.stemsFrom_empty.run (run_register registered)
  rw [List.nil_append] at stems
  rcases exists_owner_register registered (mem_bindings.mpr ⟨route, member, asked⟩) reaches with
    ⟨owner, owned⟩
  rw [eq_of_mem_positions declared asked reaches.mem] at owned
  rcases DispatchSet.found_of_owned stems fits owned with ⟨endpoint, captured, found⟩
  have unknown : set.lookupExact host binding.method.name path = .notFound := by
    rw [DispatchSet.lookupExact, unlisted]
  have answered : set.AnswersFolded host binding.method.name path ↔
      set.hostAccepted endpoint.handler host = true := by
    constructor
    · intro answers
      rcases answers with ⟨other, others, foundToo, accepts⟩
      cases found.symm.trans foundToo
      exact accepts
    · intro accepts
      exact ⟨endpoint, captured, found, accepts⟩
  rw [DispatchSet.lookup_isSuccess_iff, unknown, answered,
    ← rejected_iff_hidden registered distinct member declared accepted
      (DispatchSet.prefers_of_found stems found), ← Bool.not_eq_true]
  simp only [reduceCtorEq, exists_false, true_and, false_or]
  rw [not_and_not_right, or_iff_not_imp_right]

theorem register_answers_unless_hidden_pages :
    ∃ set memo,
      register (.after []) [((Route.new [.get] "/a").withName "first").withHosts ["{l:en}"],
        ((Route.new [.get] "/b").withName "second").withHosts ["{l:fr}"]] = (.ok set, memo) ∧
      (set.lookup "fr" "GET" "/b").isSuccess = true ∧
      ¬ (¬ set.AnswersAny "GET" "/b" ∧
        ∃ hider ∈ [((Route.new [.get] "/a").withName "first").withHosts ["{l:en}"],
            ((Route.new [.get] "/b").withName "second").withHosts ["{l:fr}"]],
          hider.dispatchable = true ∧ hider.name ≠ "second" ∧ hider.Rejects "fr" ∧
          set.owners.Prefers .parameterized .get "/fr/b" hider.name) := by
  have made : (register (.after [])
      [((Route.new [.get] "/a").withName "first").withHosts ["{l:en}"],
        ((Route.new [.get] "/b").withName "second").withHosts ["{l:fr}"]]).1 = .ok
          { DispatchSet.empty with
            parameterized := some (((Tree.empty.add [.get, .head] "/:l/a" "first").1.add
              [.get, .head] "/:l/b" "second").1)
            hostPatterns := { entries := [("first", "{l:en}"), ("second", "{l:fr}")] } } := by
    cbv
  have accepted : Host.accepts "{l:fr}" "fr" = true := by cbv
  have declared : (((Route.new [.get] "/b").withName "second").withHosts
      ["{l:fr}"]).hostTemplate? = some "{l:fr}" := by
    cbv
  have asked : (((Route.new [.get] "/b").withName "second").withHosts ["{l:fr}"]).bindings =
      [⟨.parameterized, "second", "/:l/b", .get⟩, ⟨.parameterized, "second", "/:l/b", .head⟩] := by
    cbv
  have found : DispatchSet.lookupTree
      (some (((Tree.empty.add [.get, .head] "/:l/a" "first").1.add
        [.get, .head] "/:l/b" "second").1)) "GET" (Host.foldedPath "fr" "/b") =
      .found ⟨.get, "second", ["l"], "/:l/b"⟩ (.ofList [("l", "fr")]) := by
    decide +kernel
  have reaches : ∀ owners : Owners,
      (⟨.parameterized, "second", "/:l/b", .get⟩ : Binding).Reaches owners
        ⟨.parameterized, [.capture "", .static "b"], .get⟩ :=
    fun _ => ⟨[], [], rfl, by simp⟩
  have registered := register_eq_of_fst made
  refine ⟨_, _, registered, (and_iff_left_of_imp ?_).mpr ?_⟩
  · exact (register_answers_unless_hidden registered (by decide) rfl
      (List.mem_cons_of_mem _ (List.mem_singleton_self _)) declared accepted
      (by rw [asked]; exact List.mem_cons_self) (reaches _) (by decide)).mp
  · rw [DispatchSet.lookup_isSuccess_iff]
    exact .inr ⟨rfl, .inl ⟨_, _, found, accepted⟩⟩

/-- Of two routes for different hosts whose templates have the same shape the later one is hidden
from the hosts that it means. -/
theorem register_hides_accepted_host :
    ∃ set memo,
      register (.after []) [((Route.new [.get] "/").withName "first").withHosts ["{l:en}"],
        ((Route.new [.get] "/").withName "second").withHosts ["{l:fr}"]] = (.ok set, memo) ∧
      set.hosts.get? "fr" = none ∧
      (((Route.new [.get] "/").withName "second").withHosts ["{l:fr}"]).hostTemplate? =
        some "{l:fr}" ∧
      Host.accepts "{l:fr}" "fr" = true ∧
      ⟨.parameterized, "second", "/:l/", .get⟩ ∈
        (((Route.new [.get] "/").withName "second").withHosts ["{l:fr}"]).bindings ∧
      Fits (segments "/:l/") (Path.texts (Host.foldedPath "fr" "/")) ∧
      set.lookup "fr" "GET" "/" = .notFound := by
  have made : (register (.after []) [((Route.new [.get] "/").withName "first").withHosts
      ["{l:en}"], ((Route.new [.get] "/").withName "second").withHosts ["{l:fr}"]]).1 = .ok
        { DispatchSet.empty with
          parameterized := some (Tree.empty.add [.get, .head] "/:l" "first").1
          hostPatterns := { entries := [("first", "{l:en}"), ("second", "{l:fr}")] } } := by
    cbv
  have accepted : Host.accepts "{l:fr}" "fr" = true := by cbv
  have rejected : Host.accepts "{l:en}" "fr" = false := by cbv
  have declared : (((Route.new [.get] "/").withName "second").withHosts
      ["{l:fr}"]).hostTemplate? = some "{l:fr}" := by
    cbv
  have asked : (((Route.new [.get] "/").withName "second").withHosts ["{l:fr}"]).bindings =
      [⟨.parameterized, "second", "/:l/", .get⟩, ⟨.parameterized, "second", "/:l/", .head⟩] := by
    cbv
  have found : DispatchSet.lookupTree (some (Tree.empty.add [.get, .head] "/:l" "first").1) "GET"
      (Host.foldedPath "fr" "/") =
      .found ⟨.get, "first", ["l"], "/:l"⟩ (.ofList [("l", "fr")]) := by
    decide +kernel
  refine ⟨_, _, register_eq_of_fst made, rfl, declared, accepted,
    by rw [asked]; exact List.mem_cons_self, ?_, ?_⟩
  · rw [show segments "/:l/" = [.capture "l"] from by decide]
    exact .capture (.absent (by simp))
  · rw [DispatchSet.lookup_of_unknown rfl, found]
    exact if_neg (by rw [Bool.not_eq_true]; exact rejected)

end Registration

end UrlRouting
