import UrlRouting.Proofs.Registration.Faults
import UrlRouting.Proofs.Registration.Sources

/-!
Hosts apart from each other. The tree of a tier is made by the bindings for that tier alone, and
what it finds belongs to a route that asks for one of them. So two registrations that agree in the
routes of a tier give the same answers from it, whatever else is registered; and a request for a
host looks at no exact tree but that of the host.
-/

namespace UrlRouting

open Template

def Binding.extend (tree : Tree) (binding : Binding) : Tree :=
  (tree.bindAll binding.route (Tree.places [binding.method] (segments binding.template))).1

/-- Whether a request for a host may look at the tree of a tier. -/
def Tier.Serves (host : String) : Tier → Prop
  | exact other => other = host
  | parameterized => True
  | anyHost => True

theorem Forest.Run.tree_eq {forest final : Forest} {bindings : List Binding}
    (run : Forest.Run forest bindings final) (tier : Tier) :
    final tier = (bindings.filter (·.tier = tier)).foldl Binding.extend (forest tier) := by
  induction run with
  | nil => rfl
  | cons step _ induction =>
      rw [induction, step.eq_bindAll.2, Function.update_apply, List.filter_cons]
      split
      case isTrue same =>
        subst same
        rw [if_pos (by simp), List.foldl_cons]
        rfl
      case isFalse different => rw [if_neg (by simpa using Ne.symm different)]

namespace DispatchSet

variable {set other : DispatchSet} {tier : Tier} {host method path : String}

theorem lookupTree_tree? (set : DispatchSet) (tier : Tier) (method path : String) :
    lookupTree (set.tree? tier) method path = (set.forest tier).lookup method path := by
  rw [forest_eq_getD_tree?]
  cases set.tree? tier with
  | some tree => rfl
  | none =>
      symm
      apply Tree.lookup_eq_notFound_iff.mpr
      apply List.eq_nil_iff_forall_not_mem.mpr
      simp [Tree.mem_methodsAt_iff Tree.divided_empty]

/-- Whether two sets give the same answers from the trees of a tier, the routes found included. -/
structure AgreeAt (set other : DispatchSet) (tier : Tier) : Prop where
  lookup : ∀ method path,
    lookupTree (set.tree? tier) method path = lookupTree (other.tree? tier) method path
  found : ∀ {method path endpoint captured},
    lookupTree (set.tree? tier) method path = .found endpoint captured →
      set.success endpoint.handler captured = other.success endpoint.handler captured ∧
        ∀ host, set.hostAccepted endpoint.handler host = other.hostAccepted endpoint.handler host

theorem AgreeAt.symm (agree : set.AgreeAt other tier) : other.AgreeAt set tier where
  lookup := fun method path => (agree.lookup method path).symm
  found := by
    intro method path endpoint captured found
    rcases agree.found ((agree.lookup method path).trans found) with ⟨success, accepted⟩
    exact ⟨success.symm, fun host => (accepted host).symm⟩

theorem AgreeAt.trans {third : DispatchSet} (agree : set.AgreeAt other tier)
    (later : other.AgreeAt third tier) : set.AgreeAt third tier where
  lookup := fun method path => (agree.lookup method path).trans (later.lookup method path)
  found := by
    intro method path endpoint captured found
    rcases agree.found found with ⟨success, accepted⟩
    rcases later.found ((agree.lookup method path).symm.trans found) with ⟨successToo, acceptedToo⟩
    exact ⟨success.trans successToo, fun host => (accepted host).trans (acceptedToo host)⟩

theorem AgreeAt.lookup_of_known (agree : set.AgreeAt other (.exact host))
    (known : set.lookupExact host method path ≠ .notFound) :
    set.lookup host method path = other.lookup host method path := by
  have same : set.lookupExact host method path = other.lookupExact host method path :=
    agree.lookup method path
  cases exact : set.lookupExact host method path with
  | found endpoint captured =>
      rw [DispatchSet.lookup, DispatchSet.lookup, ← same, exact]
      exact (agree.found exact).1
  | methodNotAllowed allowed => rw [DispatchSet.lookup, DispatchSet.lookup, ← same, exact]
  | notFound => exact absurd exact known

theorem AgreeAt.anyHostAnswer (agree : set.AgreeAt other .anyHost) (method path : String)
    (earlier : List Method) :
    set.anyHostAnswer method path earlier = other.anyHostAnswer method path earlier := by
  have same : lookupTree set.anyHost method path = lookupTree other.anyHost method path :=
    agree.lookup method path
  rw [DispatchSet.anyHostAnswer, DispatchSet.anyHostAnswer, ← same]
  cases found : lookupTree set.anyHost method path with
  | found endpoint captured => exact (agree.found found).1
  | methodNotAllowed more => rfl
  | notFound => rfl

theorem AgreeAt.lookup_of_unknown (folded : set.AgreeAt other .parameterized)
    (anyHost : set.AgreeAt other .anyHost)
    (unknown : set.lookupExact host method path = .notFound)
    (unknownToo : other.lookupExact host method path = .notFound) :
    set.lookup host method path = other.lookup host method path := by
  have same : lookupTree set.parameterized method (Host.foldedPath host path) =
      lookupTree other.parameterized method (Host.foldedPath host path) :=
    folded.lookup method _
  rw [DispatchSet.lookup_of_unknown unknown, DispatchSet.lookup_of_unknown unknownToo, ← same]
  cases found : lookupTree set.parameterized method (Host.foldedPath host path) with
  | found endpoint captured =>
      rcases folded.found found with ⟨success, accepted⟩
      dsimp only
      rw [← accepted, success, anyHost.anyHostAnswer]
  | methodNotAllowed earlier => exact anyHost.anyHostAnswer method path earlier
  | notFound => exact anyHost.anyHostAnswer method path []

theorem lookup_eq_of_agreeAt (agree : ∀ tier : Tier, tier.Serves host → set.AgreeAt other tier)
    (method path : String) : set.lookup host method path = other.lookup host method path := by
  have exact : set.AgreeAt other (.exact host) := agree (.exact host) rfl
  by_cases known : set.lookupExact host method path = .notFound
  · apply (agree .parameterized trivial).lookup_of_unknown (agree .anyHost trivial) known
    exact (exact.lookup method path).symm.trans known
  · exact exact.lookup_of_known known

end DispatchSet

namespace Route

def isExact (route : Route) : Bool :=
  match HostBinding.ofHosts route.hosts with
  | .ok (.exact _) => true
  | _ => false

def isShared (route : Route) : Bool :=
  match HostBinding.ofHosts route.hosts with
  | .ok .any | .ok (.parameterized _) => true
  | _ => false

/-- Whether a route is bound to exact hosts only, a given host not being one of them. -/
def isElsewhere (host : String) (route : Route) : Bool :=
  match HostBinding.ofHosts route.hosts with
  | .ok (.exact hosts) => !hosts.contains host
  | _ => false

theorem exists_tier_of_mem_bindings {route : Route} {binding : Binding}
    (member : binding ∈ route.bindings) :
    ∃ hostBinding, HostBinding.ofHosts route.hosts = .ok hostBinding ∧
      binding.tier ∈ hostBinding.tiers := by
  rcases Registration.mem_bindings_iff.mp member with
    ⟨-, variants, -, hostBinding, read, tier, inTiers, variant, -, template, -, method, -, rfl⟩
  exact ⟨hostBinding, read, inTiers⟩

theorem of_exact_mem_bindings {route : Route} {binding : Binding} {host : String}
    (member : binding ∈ route.bindings) (exact : binding.tier = .exact host) :
    route.isExact = true ∧ route.isShared = false ∧ route.isElsewhere host = false := by
  rcases exists_tier_of_mem_bindings member with ⟨hostBinding, read, inTiers⟩
  rw [exact] at inTiers
  rw [isExact, isShared, isElsewhere, read]
  cases hostBinding with
  | any => simp [HostBinding.tiers] at inTiers
  | parameterized template => simp [HostBinding.tiers] at inTiers
  | exact hosts => simpa [HostBinding.tiers] using inTiers

theorem of_shared_mem_bindings {route : Route} {binding : Binding}
    (member : binding ∈ route.bindings) (shared : ∀ host, binding.tier ≠ .exact host)
    (host : String) : route.isExact = false ∧ route.isElsewhere host = false := by
  rcases exists_tier_of_mem_bindings member with ⟨hostBinding, read, inTiers⟩
  rw [isExact, isElsewhere, read]
  cases hostBinding with
  | any => exact ⟨rfl, rfl⟩
  | parameterized template => exact ⟨rfl, rfl⟩
  | exact hosts =>
      rcases List.mem_map.mp inTiers with ⟨other, -, same⟩
      exact absurd same.symm (shared other)

theorem not_isElsewhere_of_mem_bindings {route : Route} {binding : Binding} {host : String}
    (member : binding ∈ route.bindings) (serves : binding.tier.Serves host) :
    route.isElsewhere host = false := by
  cases tier : binding.tier with
  | exact other =>
      rw [tier] at serves
      subst serves
      exact (of_exact_mem_bindings member tier).2.2
  | parameterized => exact (of_shared_mem_bindings member (by simp [tier]) host).2
  | anyHost => exact (of_shared_mem_bindings member (by simp [tier]) host).2

end Route

namespace Registration

variable {earlier later : List String} {routes : List Route} {set next : DispatchSet}
  {memo after : Pattern.Memo} {tier : Tier}

theorem filter_bindings_filter {keep : Route → Bool}
    (kept : ∀ route ∈ routes, ∀ binding ∈ route.bindings, binding.tier = tier →
      keep route = true) :
    (bindings (routes.filter keep)).filter (·.tier = tier) =
      (bindings routes).filter (·.tier = tier) := by
  induction routes with
  | nil => rfl
  | cons route rest induction =>
      rw [List.forall_mem_cons] at kept
      have others := induction kept.2
      rw [List.filter_cons]
      split
      case isTrue =>
        rw [bindings, List.flatMap_cons, List.filter_append, bindings, List.flatMap_cons,
          List.filter_append]
        exact congrArg (_ ++ ·) others
      case isFalse dropped =>
        have none : route.bindings.filter (·.tier = tier) = [] := by
          rw [List.filter_eq_nil_iff]
          intro binding member isHere
          exact dropped (kept.1 binding member (by simpa using isHere))
        rw [others]
        conv => rhs; rw [bindings, List.flatMap_cons, List.filter_append, none, List.nil_append]
        rfl

theorem hostPatterns_eq (distinct : (routes.map Route.name).Nodup)
    (registered : register memo routes = (.ok set, after)) {route : Route}
    (member : route ∈ routes) (dispatchable : route.dispatchable = true) :
    set.hostPatterns.get? route.name = route.hostTemplate? := by
  apply Option.ext
  intro template
  rw [hostPatterns_register distinct registered]
  constructor
  · intro given
    rcases given with ⟨other, inRoutes, -, named, declared⟩
    rwa [← List.inj_on_of_nodup_map distinct inRoutes member named]
  · intro declared
    exact ⟨route, member, dispatchable, rfl, declared⟩

/-- Registered routes that are registered without some others give the same answers from a tier if
none of those has bindings there. -/
theorem agreeAt_filter (registered : register (.after earlier) routes = (.ok set, memo))
    (distinct : (routes.map Route.name).Nodup) {keep : Route → Bool}
    (registeredToo : register (.after later) (routes.filter keep) = (.ok next, after))
    (kept : ∀ route ∈ routes, ∀ binding ∈ route.bindings, binding.tier = tier →
      keep route = true) : set.AgreeAt next tier := by
  have distinctToo : ((routes.filter keep).map Route.name).Nodup :=
    distinct.sublist (List.filter_sublist.map _)
  constructor
  · intro method path
    rw [DispatchSet.lookupTree_tree?, DispatchSet.lookupTree_tree?,
      (run_register registered).tree_eq, (run_register registeredToo).tree_eq,
      filter_bindings_filter kept]
  · intro method path endpoint captured found
    have stems := Forest.stemsFrom_empty.run (run_register registered)
    rw [List.nil_append] at stems
    rcases DispatchSet.source_of_found stems found with
      ⟨binding, inBindings, sameTier, handled, -⟩
    rcases mem_bindings.mp inBindings with ⟨route, member, asked⟩
    have inKept := List.mem_filter.mpr ⟨member, kept route member binding asked sameTier⟩
    have dispatchable := (mem_bindings_iff.mp asked).1
    have defaults := (registers_of_registerAll registered).defaults distinct
      (fun _ _ => rfl) route member dispatchable
    have defaultsToo := (registers_of_registerAll registeredToo).defaults distinctToo
      (fun _ _ => rfl) route inKept dispatchable
    have templates := hostPatterns_eq distinct registered member dispatchable
    have templatesToo := hostPatterns_eq distinctToo registeredToo inKept dispatchable
    rw [← handled, route_of_mem_bindings asked]
    constructor
    · rw [DispatchSet.success, DispatchSet.success, defaults, defaultsToo]
    · intro host
      rw [DispatchSet.hostAccepted, DispatchSet.hostAccepted, templates, templatesToo]

theorem lookupExact_of_no_bindings
    (registered : register (.after earlier) routes = (.ok set, memo)) {host : String}
    (none : ∀ route ∈ routes, ∀ binding ∈ route.bindings, binding.tier ≠ .exact host)
    (method path : String) : set.lookupExact host method path = .notFound := by
  have bare : (bindings routes).filter (·.tier = .exact host) = [] := by
    rw [List.filter_eq_nil_iff]
    intro binding member isHere
    rcases mem_bindings.mp member with ⟨route, inRoutes, asked⟩
    exact none route inRoutes binding asked (by simpa using isHere)
  have empty : set.forest (.exact host) = .empty := by
    rw [(run_register registered).tree_eq, bare, List.foldl_nil]
  have asked := DispatchSet.lookupTree_tree? .empty (.exact host) method path
  have here := DispatchSet.lookupTree_tree? set (.exact host) method path
  rw [empty] at here
  rw [DispatchSet.forest_empty] at asked
  exact here.trans asked.symm

/-- Registrations that agree in the routes that are not bound elsewhere only give the same answers
from all trees that serve the host. -/
theorem agreeAt_of_common {first second : List Route} {other : DispatchSet} {host : String}
    (registered : register (.after earlier) first = (.ok set, memo))
    (distinct : (first.map Route.name).Nodup)
    (registeredToo : register (.after later) second = (.ok other, after))
    (distinctToo : (second.map Route.name).Nodup)
    (agree : first.filter (fun route => !route.isElsewhere host) =
      second.filter (fun route => !route.isElsewhere host))
    (serves : tier.Serves host) : set.AgreeAt other tier := by
  -- The routes that both lists have in common, registered on their own.
  rcases exists_register_filter (Pattern.Memo.faithful_after earlier)
    (congrArg Prod.fst registered) (fun route => !route.isElsewhere host) with ⟨common, made⟩
  have registeredCommon := register_eq_of_fst (made _ (Pattern.Memo.faithful_after earlier))
  have kept : ∀ routes : List Route, ∀ route ∈ routes, ∀ binding ∈ route.bindings,
      binding.tier = tier → (!route.isElsewhere host) = true := by
    intro routes route _ binding asked here
    simp [Route.not_isElsewhere_of_mem_bindings asked (here ▸ serves)]
  have left := agreeAt_filter registered distinct registeredCommon (kept first)
  rw [agree] at registeredCommon
  exact left.trans (agreeAt_filter registeredToo distinctToo registeredCommon (kept second)).symm

theorem lookup_eq_of_known {host method path : String}
    (registered : register (.after earlier) routes = (.ok set, memo))
    (distinct : (routes.map Route.name).Nodup)
    (registeredOwn : register (.after later) (routes.filter fun route =>
      !route.isElsewhere host && !route.isShared) = (.ok next, after))
    (known : set.lookupExact host method path ≠ .notFound) :
    set.lookup host method path = next.lookup host method path := by
  have agrees : set.AgreeAt next (.exact host) := by
    apply agreeAt_filter registered distinct registeredOwn
    intro route _ binding asked here
    simp [Route.of_exact_mem_bindings asked here]
  exact agrees.lookup_of_known known

theorem lookup_eq_of_unknown {host method path : String}
    (registered : register (.after earlier) routes = (.ok set, memo))
    (distinct : (routes.map Route.name).Nodup)
    (registeredShared : register (.after later) (routes.filter fun route => !route.isExact) =
      (.ok next, after))
    (unknown : set.lookupExact host method path = .notFound) :
    set.lookup host method path = next.lookup host method path := by
  have agrees : ∀ tier : Tier, (∀ other, tier ≠ .exact other) → set.AgreeAt next tier := by
    intro tier notExact
    apply agreeAt_filter registered distinct registeredShared
    intro route _ binding asked here
    simp [Route.of_shared_mem_bindings asked (by simpa [here] using notExact) host]
  apply (agrees .parameterized (by simp)).lookup_of_unknown (agrees .anyHost (by simp)) unknown
  apply lookupExact_of_no_bindings registeredShared
  intro route member binding asked here
  have isExact := (Route.of_exact_mem_bindings asked here).1
  simp [isExact] at member

/-- Hosts are isolated from each other. Two registrations that agree once the routes bound only to
other exact hosts are left out give the same answers for a host. And a path that the exact tree of
the host knows is answered as if just the routes bound to this host were registered, every other
path as if no routes bound to exact hosts were. -/
theorem register_isolates_hosts {first second : List Route} {other : DispatchSet} {host : String}
    (registered : register (.after earlier) first = (.ok set, memo))
    (distinct : (first.map Route.name).Nodup)
    (registeredToo : register (.after later) second = (.ok other, after))
    (distinctToo : (second.map Route.name).Nodup)
    (agree : first.filter (fun route => !route.isElsewhere host) =
      second.filter (fun route => !route.isElsewhere host)) :
    (∀ method path, set.lookup host method path = other.lookup host method path) ∧
      ∃ own shared : DispatchSet,
        (∀ asked : Pattern.Memo, asked.Faithful →
          (register asked (first.filter fun route =>
            !route.isElsewhere host && !route.isShared)).1 = .ok own ∧
          (register asked (first.filter fun route => !route.isExact)).1 = .ok shared) ∧
        ∀ path,
          ((∃ method, set.lookupExact host method path ≠ .notFound) →
            ∀ method, set.lookup host method path = own.lookup host method path) ∧
          ((∀ method, set.lookupExact host method path = .notFound) →
            ∀ method, set.lookup host method path = shared.lookup host method path) := by
  have faithful := Pattern.Memo.faithful_after earlier
  rcases exists_register_filter faithful (congrArg Prod.fst registered)
    (fun route => !route.isElsewhere host && !route.isShared) with ⟨own, madeOwn⟩
  rcases exists_register_filter faithful (congrArg Prod.fst registered)
    (fun route => !route.isExact) with ⟨shared, madeShared⟩
  refine ⟨?_, own, shared, ?_, ?_⟩
  · exact DispatchSet.lookup_eq_of_agreeAt fun tier serves =>
      agreeAt_of_common registered distinct registeredToo distinctToo agree serves
  · exact fun asked askedFaithful => ⟨madeOwn asked askedFaithful, madeShared asked askedFaithful⟩
  · intro path
    constructor
    · intro known method
      apply lookup_eq_of_known registered distinct (register_eq_of_fst (madeOwn _ faithful))
      -- Whether the path is known does not depend on the method.
      rcases known with ⟨answering, known⟩
      exact mt (DispatchSet.lookupExact_eq_notFound_congr answering) known
    · intro unknown method
      exact lookup_eq_of_unknown registered distinct
        (register_eq_of_fst (madeShared _ faithful)) (unknown method)

theorem register_isolates_hosts_shop :
    let page := (Route.new [.get] "/about").withName "page"
    let shop := ((Route.new [.get] "/").withName "shop").withHosts ["shop.example.com"]
    ∃ (set other own shared : DispatchSet) (memo after : Pattern.Memo),
      register (.after []) [page, shop] = (.ok set, memo) ∧
      register (.after []) [page] = (.ok other, after) ∧
      (∀ method path,
        set.lookup "example.com" method path = other.lookup "example.com" method path) ∧
      (register (.after []) [shop]).1 = .ok own ∧
      (register (.after []) [page]).1 = .ok shared ∧
      (∀ method,
        set.lookup "shop.example.com" method "/" = own.lookup "shop.example.com" method "/") ∧
      ∀ method, set.lookup "shop.example.com" method "/about" =
        shared.lookup "shop.example.com" method "/about" := by
  intro page shop
  have made : (register (.after []) [page, shop]).1 = .ok
      { DispatchSet.empty with
        hosts := .ofList [("shop.example.com", (Tree.empty.add [.get, .head] "/" "shop").1)]
        anyHost := some (Tree.empty.add [.get, .head] "/about" "page").1 } := by
    cbv
  have madeToo : (register (.after []) [page]).1 = .ok
      { DispatchSet.empty with
        anyHost := some (Tree.empty.add [.get, .head] "/about" "page").1 } := by
    cbv
  have registered := register_eq_of_fst made
  have registeredToo := register_eq_of_fst madeToo
  have agree : [page, shop].filter (fun route => !route.isElsewhere "example.com") =
      [page].filter (fun route => !route.isElsewhere "example.com") := by
    cbv
  have same : [page, shop].filter (fun route => !route.isElsewhere "shop.example.com") =
      [page, shop].filter (fun route => !route.isElsewhere "shop.example.com") := rfl
  have ofShop : [page, shop].filter
      (fun route => !route.isElsewhere "shop.example.com" && !route.isShared) = [shop] := by
    cbv
  have ofPage : [page, shop].filter (fun route => !route.isExact) = [page] := by
    cbv
  rcases (register_isolates_hosts registered (by decide) registered (by decide) same).2 with
    ⟨own, shared, madeFor, paths⟩
  rcases madeFor (.after []) (Pattern.Memo.faithful_after []) with ⟨madeOwn, madeShared⟩
  rw [ofShop] at madeOwn
  rw [ofPage] at madeShared
  refine ⟨_, _, own, shared, _, _, registered, registeredToo,
    (register_isolates_hosts registered (by decide) registeredToo (by decide) agree).1,
    madeOwn, madeShared, (paths "/").1 ⟨"GET", by decide +kernel⟩, (paths "/about").2 ?_⟩
  intro method
  have unknown : DispatchSet.lookupExact
      { DispatchSet.empty with
        hosts := .ofList [("shop.example.com", (Tree.empty.add [.get, .head] "/" "shop").1)]
        anyHost := some (Tree.empty.add [.get, .head] "/about" "page").1 }
      "shop.example.com" "GET" "/about" = .notFound := by
    decide +kernel
  exact DispatchSet.lookupExact_eq_notFound_congr method unknown

end Registration

end UrlRouting
