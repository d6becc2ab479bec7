import UrlRouting.Proofs.Registration.Preference

/-!
HEAD beside GET. A route that answers GET asks for HEAD at the same places, but both methods have
owners of their own there. A path that is answered for GET is answered for HEAD as well, by this
route or by one that took the place for HEAD before it, unless the latter is a route of hosts with
variables that does not mean the host.
-/

namespace UrlRouting

open Template

/-- The path that the tree of a tier is asked for, if a request for a host asks it at all. -/
def Tier.request? (host path : String) : Tier → Option String
  | exact other => if other = host then some path else none
  | parameterized => some (Host.foldedPath host path)
  | anyHost => some path

/-- Whether a position is one that a request for a host and a path fits. -/
def Position.IsAsked (position : Position) (host path : String) : Prop :=
  ∃ request, position.tier.request? host path = some request ∧
    position.steps ∈ fitting (Path.texts request)

/-- Whether a request finds a route at a position. The route owns it, the request fits it, and it
precedes the others of its tree that the request fits and that are owned for the method. -/
def Owners.FindsAt (owners : Owners) (host path route : String) (position : Position) : Prop :=
  owners position = some route ∧ position.IsAsked host path ∧
    ∀ steps, ({ position with steps } : Position).IsAsked host path →
      (owners { position with steps }).isSome = true →
        steps = position.steps ∨ Precedes position.steps steps

namespace DispatchSet

variable {set : DispatchSet} {host method path : String} {tier : Tier} {endpoint : Endpoint}

theorem Asks.request?_eq {request : String} (asks : set.Asks host path endpoint tier request) :
    tier.request? host path = some request := by
  cases asks with
  | exact => exact if_pos rfl
  | parameterized => rfl
  | anyHost => rfl

theorem answersFolded_iff_of_found {captured : Table String}
    (found : lookupTree set.parameterized method (Host.foldedPath host path) =
      .found endpoint captured) :
    set.AnswersFolded host method path ↔ set.hostAccepted endpoint.handler host = true := by
  constructor
  · intro answers
    rcases answers with ⟨other, others, foundToo, accepted⟩
    cases found.symm.trans foundToo
    exact accepted
  · intro accepted
    exact ⟨endpoint, captured, found, accepted⟩

/-- An answer is that of an endpoint that one of the tiers finds, the exact tree of the host being
the one if it knows the path. -/
theorem found_of_lookup_or_unknown {name : String} {arguments : Table String}
    (answered : set.lookup host method path = .success name arguments) :
    ∃ tier request endpoint captured, set.Asks host path endpoint tier request ∧
      lookupTree (set.tree? tier) method request = .found endpoint captured ∧
      endpoint.handler = name ∧
      (set.lookupExact host method path = .notFound ∨ tier = .exact host) := by
  cases exact : set.lookupExact host method path with
  | found endpoint captured =>
      simp only [lookup, exact, success, MatchResult.success.injEq] at answered
      exact ⟨_, _, endpoint, captured, .exact, exact, answered.1, .inr rfl⟩
  | methodNotAllowed allowed =>
      rw [lookup, exact] at answered
      cases answered
  | notFound =>
      rcases found_of_lookup answered with
        ⟨tier, request, endpoint, captured, asks, found, answer⟩
      rw [success, MatchResult.success.injEq] at answer
      exact ⟨tier, request, endpoint, captured, asks, found, answer.1, .inl rfl⟩

end DispatchSet

namespace Registration

variable {earlier : List String} {routes : List Route} {set : DispatchSet} {memo : Pattern.Memo}

theorem head_mem_bindings {binding : Binding} (member : binding ∈ bindings routes)
    (get : binding.method = .get) : { binding with method := .head } ∈ bindings routes := by
  rcases mem_bindings.mp member with ⟨route, inRoutes, asked⟩
  rcases mem_bindings_iff.mp asked with
    ⟨dispatchable, variants, compiled, hostBinding, read, tier, inTiers, variant, inVariants,
      template, written, _, answers, rfl⟩
  have declared : Method.get ∈ route.methods := by
    rcases mem_answeredMethods_iff.mp answers with known | ⟨isHead, -⟩
    · exact get ▸ known
    · cases isHead.symm.trans get
  refine mem_bindings.mpr ⟨route, inRoutes, mem_bindings_iff.mpr ?_⟩
  exact ⟨dispatchable, variants, compiled, hostBinding, read, tier, inTiers, variant, inVariants,
    template, written, .head, mem_answeredMethods_iff.mpr (.inr ⟨rfl, declared⟩), rfl⟩

theorem findsAt_of_found {bindings : List Binding} (stems : set.forest.StemsFrom bindings)
    {host path request : String} {tier : Tier} {asked : Method} {endpoint : Endpoint}
    {captured : Table String} (asks : set.Asks host path endpoint tier request)
    (found : DispatchSet.lookupTree (set.tree? tier) asked.name request =
      .found endpoint captured) :
    ∃ steps ∈ fitting (Path.texts request),
      (set.forest tier).bound? steps asked = some endpoint ∧
        set.owners.FindsAt host path endpoint.handler ⟨tier, steps, asked⟩ := by
  rcases DispatchSet.preferred_of_found stems found with
    ⟨method, steps, fits, named, bound, -, least⟩
  cases Method.name_injective named
  have owned : set.owners ⟨tier, steps, asked⟩ = some endpoint.handler := by
    rw [DispatchSet.owners, Forest.owners, bound, Option.map_some]
  refine ⟨steps, fits, bound, owned, ⟨request, asks.request?_eq, fits⟩, ?_⟩
  intro other isAsked otherOwned
  rcases isAsked with ⟨sameRequest, equal, otherFits⟩
  cases asks.request?_eq.symm.trans equal
  rw [DispatchSet.owners, Forest.owners, Option.isSome_map] at otherOwned
  exact least other otherFits otherOwned

/-- What finds a route for GET finds some route for HEAD, if the place is not left without an owner
for HEAD. -/
theorem found_head_of_found_get (stems : set.forest.StemsFrom (bindings routes))
    {host path request : String} {tier : Tier} {endpoint : Endpoint} {captured : Table String}
    (asks : set.Asks host path endpoint tier request)
    (found : DispatchSet.lookupTree (set.tree? tier) "GET" request = .found endpoint captured)
    (kept : ∀ binding ∈ bindings routes, binding.route = endpoint.handler →
      binding.method = .head → ∀ position ∈ binding.positions,
        set.owners.FindsAt host path endpoint.handler { position with method := .get } →
          ∃ owner, set.owners position = some owner) :
    ∃ other captured,
      DispatchSet.lookupTree (set.tree? tier) "HEAD" request = .found other captured := by
  have get : Method.get.name = "GET" := rfl
  rw [← get] at found
  rcases findsAt_of_found stems asks found with ⟨steps, fits, bound, findsAt⟩
  have nameless := nameless_of_mem_fitting fits
  rcases stems.explained ⟨tier, steps, .get⟩ ⟨nameless, Tree.proper_fitting fits⟩ endpoint bound
    with ⟨binding, member, sameTier, route, isGet, -, written, expanded, same, -⟩
  -- The route asks for HEAD with the same template, and so at the place where it was found.
  have claimed : (⟨tier, steps, .head⟩ : Position) ∈
      ({ binding with method := .head } : Binding).positions := by
    rw [Binding.positions]
    exact List.mem_map.mpr ⟨written, expanded, by rw [same, sameTier]⟩
  rcases kept _ (head_mem_bindings member isGet) route rfl _ claimed findsAt with ⟨owner, owned⟩
  exact DispatchSet.found_of_owned stems fits owned

/-- A request that a route answers for GET is answered for HEAD as well unless the route is hidden:
the exact host does not know the path, no route of any host answers, and the preferred place for
HEAD is that of another route, which does not mean the host. This takes for granted that the place
where the route is found for GET, which it claims for HEAD as well, is not left without an owner for
HEAD. -/
theorem register_answers_head_unless_hidden
    (registered : register (.after earlier) routes = (.ok set, memo))
    (distinct : (routes.map Route.name).Nodup) {host path name : String}
    {arguments : Table String} (answered : set.lookup host "GET" path = .success name arguments)
    (kept : ∀ binding ∈ bindings routes, binding.route = name → binding.method = .head →
      ∀ position ∈ binding.positions,
        set.owners.FindsAt host path name { position with method := .get } →
          ∃ owner, set.owners position = some owner) :
    (set.lookup host "HEAD" path).isSuccess = true ↔
      ¬ (set.lookupExact host "HEAD" path = .notFound ∧ ¬ set.AnswersAny "HEAD" path ∧
        ∃ hider ∈ routes, hider.dispatchable = true ∧ hider.name ≠ name ∧ hider.Rejects host ∧
          set.owners.Prefers .parameterized .head (Host.foldedPath host path) hider.name) := by
  have stems := Forest.stemsFrom_empty.run (run_register registered)
  rw [List.nil_append] at stems
  rcases DispatchSet.found_of_lookup_or_unknown answered with
    ⟨tier, request, endpoint, captured, asks, found, rfl, unknown⟩
  rcases found_head_of_found_get stems asks found kept with ⟨other, others, foundHead⟩
  cases asks with
  | exact =>
      have foundExact : set.lookupExact host "HEAD" path = .found other others := foundHead
      rw [DispatchSet.lookup_isSuccess_iff]
      simp [foundExact]
  | anyHost =>
      have unknownHead := DispatchSet.lookupExact_eq_notFound_congr "HEAD"
        (unknown.resolve_right (by simp))
      have answers : set.AnswersAny "HEAD" path := ⟨other, others, foundHead⟩
      rw [DispatchSet.lookup_isSuccess_iff]
      simp [unknownHead, answers]
  | parameterized accepted =>
      have unknownHead := DispatchSet.lookupExact_eq_notFound_congr "HEAD"
        (unknown.resolve_right (by simp))
      have preferred : set.owners.Prefers .parameterized .head (Host.foldedPath host path)
          other.handler := DispatchSet.prefers_of_found stems foundHead
      rw [DispatchSet.lookup_isSuccess_iff, unknownHead,
        DispatchSet.answersFolded_iff_of_found foundHead,
        ← rejected_iff_preferred registered distinct accepted preferred, ← Bool.not_eq_true]
      simp only [reduceCtorEq, exists_false, true_and, false_or]
      rw [not_and_not_right, or_iff_not_imp_right]

theorem register_answers_head_unless_hidden_page :
    ∃ set memo,
      register (.after []) [(Route.new [.get] "/page/{id}").withName "page"] = (.ok set, memo) ∧
      set.lookup "example.com" "GET" "/page/7" = .success "page" (.ofList [("id", "7")]) ∧
      (set.lookup "example.com" "HEAD" "/page/7").isSuccess = true := by
  have made : (register (.after []) [(Route.new [.get] "/page/{id}").withName "page"]).1 = .ok
      { DispatchSet.empty with
        anyHost := some (Tree.empty.add [.get, .head] "/page/:id" "page").1 } := by
    cbv
  have asked : bindings [(Route.new [.get] "/page/{id}").withName "page"] =
      [⟨.anyHost, "page", "/page/:id", .get⟩, ⟨.anyHost, "page", "/page/:id", .head⟩] := by
    cbv
  have answered : DispatchSet.lookup
      { DispatchSet.empty with
        anyHost := some (Tree.empty.add [.get, .head] "/page/:id" "page").1 }
      "example.com" "GET" "/page/7" = .success "page" (.ofList [("id", "7")]) := by
    decide +kernel
  have registered := register_eq_of_fst made
  refine ⟨_, _, registered, answered,
    (register_answers_head_unless_hidden registered (by decide) answered ?_).mpr ?_⟩
  · intro binding member _ isHead position claimed _
    rw [asked] at member
    simp only [List.mem_cons, List.not_mem_nil, or_false] at member
    rcases member with rfl | rfl
    · cases isHead
    · have isHere : position = ⟨.anyHost, [.static "page", .capture ""], .head⟩ := by
        revert claimed
        rw [show Binding.positions ⟨.anyHost, "page", "/page/:id", .head⟩ =
          [⟨.anyHost, [.static "page", .capture ""], .head⟩] from by decide]
        exact List.mem_singleton.mp
      exact ⟨"page", isHere ▸ by decide⟩
  · intro hidden
    exact hidden.2.1 ⟨⟨.head, "page", ["id"], "/page/:id"⟩, .ofList [("id", "7")], by decide +kernel⟩

/-- Of two routes for different hosts whose templates have the same shape the first one has HEAD, so
that no route answers it for the hosts of the second. And a route that has HEAD at one of the places
of another one leaves no route with HEAD at those that come after it. -/
theorem register_refuses_head_of_answered_get :
    (∃ set memo arguments,
      register (.after []) [((Route.new [.head] "/").withName "first").withHosts ["{l:en}"],
        ((Route.new [.get] "/").withName "second").withHosts ["{l:fr}"]] = (.ok set, memo) ∧
      set.lookup "fr" "GET" "/" = .success "second" arguments ∧
      set.lookup "fr" "HEAD" "/" = .notFound) ∧
    ∃ set memo arguments,
      register (.after []) [(Route.new [.head] "/a").withName "first",
        (Route.new [.get] "/a/{rest*}").withName "second"] = (.ok set, memo) ∧
      set.lookup "example.com" "GET" "/a/b" = .success "second" arguments ∧
      set.lookup "example.com" "HEAD" "/a/b" = .methodNotAllowed [.get] := by
  constructor
  case left =>
    have made : (register (.after []) [((Route.new [.head] "/").withName "first").withHosts
        ["{l:en}"], ((Route.new [.get] "/").withName "second").withHosts ["{l:fr}"]]).1 = .ok
          { DispatchSet.empty with
            parameterized := some
              ((Tree.empty.add [.head] "/:l" "first").1.add [.get] "/:l" "second").1
            hostPatterns := { entries := [("first", "{l:en}"), ("second", "{l:fr}")] } } := by
      cbv
    have accepted : Host.accepts "{l:fr}" "fr" = true := by cbv
    have rejected : Host.accepts "{l:en}" "fr" = false := by cbv
    have foundGet : DispatchSet.lookupTree
        (some ((Tree.empty.add [.head] "/:l" "first").1.add [.get] "/:l" "second").1) "GET"
          (Host.foldedPath "fr" "/") =
        .found ⟨.get, "second", ["l"], "/:l"⟩ (.ofList [("l", "fr")]) := by
      decide +kernel
    have foundHead : DispatchSet.lookupTree
        (some ((Tree.empty.add [.head] "/:l" "first").1.add [.get] "/:l" "second").1) "HEAD"
          (Host.foldedPath "fr" "/") =
        .found ⟨.head, "first", ["l"], "/:l"⟩ (.ofList [("l", "fr")]) := by
      decide +kernel
    refine ⟨_, _, .ofList [("l", "fr")], register_eq_of_fst made, ?_, ?_⟩
    · rw [DispatchSet.lookup_of_unknown rfl, foundGet]
      exact (if_pos accepted).trans (by decide +kernel)
    · rw [DispatchSet.lookup_of_unknown rfl, foundHead]
      exact if_neg (by rw [Bool.not_eq_true]; exact rejected)
  case right =>
    have made : (register (.after []) [(Route.new [.head] "/a").withName "first",
        (Route.new [.get] "/a/{rest*}").withName "second"]).1 = .ok
          { DispatchSet.empty with
            anyHost := some
              ((Tree.empty.add [.head] "/a" "first").1.add [.get] "/a/:rest*" "second").1 } := by
      cbv
    refine ⟨_, _, .ofList [("rest", "b")], register_eq_of_fst made, ?_, ?_⟩
    · decide +kernel
    · decide +kernel

end Registration

end UrlRouting
