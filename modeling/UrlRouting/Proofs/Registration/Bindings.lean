import UrlRouting.Proofs.Pattern.Compile
import UrlRouting.Proofs.Registration.Owners
import UrlRouting.Proofs.Tree.Places
import UrlRouting.Registration

/-!
What registration binds. The trees of a dispatch set are seen as one function from tiers to trees,
which says who owns each position. Registering routes asks for their bindings in turn, and does to
the owners of positions just what these bindings do, one after the other.
-/

namespace UrlRouting

open Template

/-- Whether a position is one that a template can stand for: no names, and static text that can be a
piece of a path. -/
def Position.Proper (position : Position) : Prop :=
  nameless position.steps = position.steps ∧ Template.Proper position.steps

theorem proper_nameless {steps : List Step} (proper : Template.Proper steps) :
    Template.Proper (nameless steps) := by
  intro text static
  rcases List.mem_map.mp static with ⟨step, member, equal⟩
  cases step with
  | static other =>
      cases equal
      exact proper text member
  | capture name => cases equal
  | wildcard name => cases equal

theorem Binding.proper_of_mem_positions {binding : Binding} {position : Position}
    (claimed : position ∈ binding.positions) : position.Proper := by
  rcases List.mem_map.mp claimed with ⟨steps, expanded, rfl⟩
  exact ⟨nameless_nameless steps, proper_nameless (proper_of_mem_expand expanded)⟩

abbrev Forest :=
  Tier → Tree

namespace Forest

def owners (forest : Forest) : Owners :=
  fun position =>
    ((forest position.tier).bound? position.steps position.method).map Endpoint.handler

def OwnedBy (forest : Forest) (owners : Owners) : Prop :=
  ∀ position : Position, position.Proper → forest.owners position = owners position

theorem ownedBy_empty : OwnedBy (fun _ => .empty) Owners.none := by
  intro position _
  simp [owners, Tree.bound?, Endpoint.find?, Owners.none]

theorem OwnedBy.isOpen {forest : Forest} {owners : Owners} (owned : forest.OwnedBy owners)
    (binding : Binding) {steps : List Step} (proper : Template.Proper steps) :
    (forest binding.tier).isOpen binding.route (steps, binding.method) =
      owners.isOpen binding.route
        { tier := binding.tier, steps := nameless steps, method := binding.method } := by
  rw [Owners.isOpen, ← owned _ ⟨nameless_nameless steps, proper_nameless proper⟩, Forest.owners,
    Tree.bound?_congr _ (nameless_nameless steps), Tree.isOpen, Option.all_map]

theorem owners_update (forest : Forest) (tier : Tier) (tree : Tree) (position : Position) :
    Forest.owners (Function.update forest tier tree) position =
      if position.tier = tier then (tree.bound? position.steps position.method).map Endpoint.handler
      else forest.owners position := by
  rw [owners, Function.update_apply]
  split <;> rfl

theorem OwnedBy.bindAll {forest : Forest} {owners : Owners} (owned : forest.OwnedBy owners)
    (binding : Binding) :
    OwnedBy (Function.update forest binding.tier
        ((forest binding.tier).bindAll binding.route
          (Tree.places [binding.method] (segments binding.template))).1)
      (owners.take binding) := by
  intro position proper
  have places : Tree.places [binding.method] (segments binding.template) =
      (expand (segments binding.template)).map fun steps => (steps, binding.method) := by
    rw [Tree.places, List.map_eq_flatMap]
    rfl
  have properPlaces : ∀ place ∈ (expand (segments binding.template)).map
      fun steps => (steps, binding.method), Template.Proper place.1 := by
    intro place member
    rcases List.mem_map.mp member with ⟨steps, expanded, rfl⟩
    exact proper_of_mem_expand expanded
  have sameOpen : ∀ steps ∈ expand (segments binding.template),
      ((forest binding.tier).isOpen binding.route ∘ fun steps => (steps, binding.method)) steps =
        (owners.isOpen binding.route ∘ fun steps =>
          ({ tier := binding.tier, steps := nameless steps, method := binding.method } :
            Position)) steps :=
    fun steps expanded => owned.isOpen binding (proper_of_mem_expand expanded)
  rw [owners_update, Owners.take, ← owned position proper, Binding.positions, List.takeWhile_map]
  by_cases sameTier : position.tier = binding.tier
  · rw [if_pos sameTier, places, Tree.bound?_bindAll properPlaces proper.2, List.takeWhile_map,
      Option.map_or, Option.map_map, Forest.owners, sameTier, Tree.takeWhile_congr sameOpen]
    congr 1
    split
    case isTrue taken =>
      rcases List.mem_map.mp taken with ⟨steps, inTaken, rfl⟩
      cases found : (List.map _ _).find? _ with
      | none =>
          refine absurd ?_ (List.find?_eq_none.mp found _ (List.mem_map_of_mem inTaken))
          exact Tree.isAt_iff.mpr ⟨nameless_nameless steps, rfl⟩
      | some place => rfl
    case isFalse untaken =>
      rw [Option.map_eq_none_iff, List.find?_eq_none]
      intro place member atPosition
      rcases List.mem_map.mp member with ⟨steps, inTaken, rfl⟩
      rcases Tree.isAt_iff.mp atPosition with ⟨sameSteps, sameMethod⟩
      refine untaken (List.mem_map.mpr ⟨steps, inTaken, ?_⟩)
      dsimp only at sameSteps sameMethod
      rw [← sameSteps, proper.1, sameMethod, ← sameTier]
  · rw [if_neg sameTier, if_neg, Option.or_none]
    intro taken
    rcases List.mem_map.mp taken with ⟨steps, -, rfl⟩
    exact sameTier rfl

/-- What asking for a binding does to the trees, if the template is not at fault: nothing where its
place is taken already. -/
def Step (forest : Forest) (binding : Binding) (next : Forest) : Prop :=
  ∃ tree outcome,
    (forest binding.tier).add [binding.method] binding.template binding.route = (tree, outcome) ∧
      (∀ error, outcome = .error error → error.isInvalidPath = false) ∧
      next = Function.update forest binding.tier tree

theorem Step.eq_bindAll {forest next : Forest} {binding : Binding}
    (step : Step forest binding next) :
    checkOrder binding.template false (segments binding.template) = .ok () ∧
      next = Function.update forest binding.tier
        ((forest binding.tier).bindAll binding.route
          (Tree.places [binding.method] (segments binding.template))).1 := by
  rcases step with ⟨tree, outcome, added, valid, rfl⟩
  rw [Tree.add, if_neg (by simp)] at added
  cases parsed : parse binding.template with
  | error error =>
      rw [parsed] at added
      cases added
      have invalid := isInvalidPath_of_parse parsed
      rw [valid error rfl] at invalid
      cases invalid
  | ok parsedSegments =>
      rw [parsed, segments_of_parse parsed] at added
      rw [show tree = _ from (congrArg Prod.fst added).symm]
      refine ⟨?_, rfl⟩
      cases order : checkOrder binding.template false (segments binding.template) with
      | ok => rfl
      | error error =>
          rw [parse, order] at parsed
          cases parsed

theorem OwnedBy.step {forest next : Forest} {owners : Owners} {binding : Binding}
    (owned : forest.OwnedBy owners) (step : Step forest binding next) :
    next.OwnedBy (owners.take binding) := by
  rw [step.eq_bindAll.2]
  exact owned.bindAll binding

inductive Run : Forest → List Binding → Forest → Prop
  | nil (forest : Forest) : Run forest [] forest
  | cons {forest middle final : Forest} {binding : Binding} {rest : List Binding} :
      Step forest binding middle → Run middle rest final → Run forest (binding :: rest) final

theorem Run.append {forest middle final : Forest} {first second : List Binding}
    (run : Run forest first middle) (later : Run middle second final) :
    Run forest (first ++ second) final := by
  induction run with
  | nil => exact later
  | cons step _ induction => exact .cons step (induction later)

theorem Run.ownedBy {forest final : Forest} {bindings : List Binding} {owners : Owners}
    (run : Run forest bindings final) (owned : forest.OwnedBy owners) :
    final.OwnedBy (owners.takeAll bindings) := by
  induction run generalizing owners with
  | nil => exact owned
  | cons step _ induction => exact induction (owned.step step)

end Forest

namespace Registration

open Forest (Run)

variable {forest : Forest} {tier : Tier} {route : String}

theorem run_bindTemplate {template : String} {tree next : Tree} {methods : List Method}
    (bound : bindTemplate route template tree methods = .ok next) :
    Run (Function.update forest tier tree)
      (methods.map fun method => { tier, route, template, method })
      (Function.update forest tier next) := by
  induction methods generalizing tree with
  | nil =>
      cases bound
      exact .nil _
  | cons method rest induction =>
      have step : ∀ {added : Tree} {outcome : Except TreeError Unit},
          tree.add [method] template route = (added, outcome) →
          (∀ error, outcome = .error error → error.isInvalidPath = false) →
          Forest.Step (Function.update forest tier tree) { tier, route, template, method }
            (Function.update forest tier added) := by
        intro added outcome equal valid
        refine ⟨added, outcome, ?_, valid, ?_⟩
        · rwa [Function.update_self]
        · rw [Function.update_idem]
      rw [bindTemplate] at bound
      split at bound
      case h_1 added _ equal => exact .cons (step equal (by simp)) (induction bound)
      case h_2 added error equal =>
        split at bound
        case isTrue => cases bound
        case isFalse valid =>
          refine .cons (step equal ?_) (induction bound)
          intro other same
          cases same
          simpa using valid

def bindingsIn (tier : Tier) (route beginning : String) (methods : List Method)
    (variants : List Pattern.Variant) : List Binding :=
  variants.flatMap fun variant =>
    match variant.template with
    | .ok template => methods.map fun method =>
        { tier, route, template := beginning ++ template, method }
    | .error _ => []

theorem mem_bindingsIn {tier : Tier} {route beginning : String} {methods : List Method}
    {variants : List Pattern.Variant} {binding : Binding} :
    binding ∈ bindingsIn tier route beginning methods variants ↔
      ∃ variant ∈ variants, ∃ template, variant.template = .ok template ∧
        ∃ method ∈ methods, binding = ⟨tier, route, beginning ++ template, method⟩ := by
  rw [bindingsIn, List.mem_flatMap]
  constructor
  · intro given
    rcases given with ⟨variant, inVariants, member⟩
    split at member
    case h_1 template read =>
      rcases List.mem_map.mp member with ⟨method, known, rfl⟩
      exact ⟨variant, inVariants, template, read, method, known, rfl⟩
    case h_2 => cases member
  · intro given
    rcases given with ⟨variant, inVariants, template, read, method, known, rfl⟩
    refine ⟨variant, inVariants, ?_⟩
    rw [read]
    exact List.mem_map_of_mem known

theorem run_bindVariants {beginning : String} {methods : List Method} {tree next : Tree}
    {variants : List Pattern.Variant}
    (bound : bindVariants route beginning methods tree variants = .ok next) :
    Run (Function.update forest tier tree)
      (bindingsIn tier route beginning methods variants)
      (Function.update forest tier next) := by
  induction variants generalizing tree with
  | nil =>
      cases bound
      exact .nil _
  | cons variant rest induction =>
      cases read : variant.template with
      | error error =>
          rw [bindVariants, read] at bound
          cases bound
      | ok template =>
          cases first : bindTemplate route (beginning ++ template) tree methods with
          | error error =>
              simp [bindVariants, read, first, Except.mapError, Bind.bind, Except.bind] at bound
          | ok middle =>
              have later : bindVariants route beginning methods middle rest = .ok next := by
                simpa [bindVariants, read, first, Except.mapError, Bind.bind, Except.bind]
                  using bound
              rw [bindingsIn, List.flatMap_cons, read]
              exact (run_bindTemplate first).append (induction later)

end Registration

namespace DispatchSet

def forest (set : DispatchSet) : Forest
  | .exact host => (set.hosts.get? host).getD .empty
  | .parameterized => set.parameterized.getD .empty
  | .anyHost => set.anyHost.getD .empty

def owners (set : DispatchSet) : Owners :=
  set.forest.owners

theorem forest_empty : empty.forest = fun _ => .empty := by
  funext tier
  cases tier <;> rfl

theorem forest_setHost (set : DispatchSet) (host : String) (tree : Tree) :
    forest { set with hosts := set.hosts.set host tree } =
      Function.update set.forest (.exact host) tree := by
  funext tier
  rw [Function.update_apply]
  cases tier with
  | exact other =>
      simp only [forest, Table.get?_set, Tier.exact.injEq]
      split <;> rfl
  | parameterized => rfl
  | anyHost => rfl

theorem forest_setParameterized (set : DispatchSet) (tree : Tree) (hostPatterns : Table String) :
    forest { set with parameterized := some tree, hostPatterns } =
      Function.update set.forest .parameterized tree := by
  funext tier
  cases tier <;> rfl

theorem forest_setAnyHost (set : DispatchSet) (tree : Tree) :
    forest { set with anyHost := some tree } = Function.update set.forest .anyHost tree := by
  funext tier
  cases tier <;> rfl

end DispatchSet

namespace HostBinding

def tiers : HostBinding → List Tier
  | any => [.anyHost]
  | exact hosts => hosts.map .exact
  | parameterized _ => [.parameterized]

def beginning : HostBinding → String
  | parameterized host => Host.pathTemplate host
  | _ => ""

end HostBinding

namespace Route

/-- The bindings that the registration of a route asks for, in order; there are none if the route is
not dispatchable or cannot be registered. -/
def bindings (route : Route) : List Binding :=
  match Pattern.compile route.pattern, HostBinding.ofHosts route.hosts with
  | .ok variants, .ok binding =>
      if route.dispatchable then
        binding.tiers.flatMap fun tier =>
          Registration.bindingsIn tier route.name binding.beginning
            (Registration.answeredMethods route.methods) variants
      else []
  | _, _ => []

end Route

namespace Registration

open Forest (Run)

theorem run_of_bindVariants {set : DispatchSet} {tier : Tier} {route beginning : String}
    {methods : List Method} {variants : List Pattern.Variant} {tree : Tree}
    (made : bindVariants route beginning methods (set.forest tier) variants = .ok tree) :
    Run set.forest (bindingsIn tier route beginning methods variants)
      (Function.update set.forest tier tree) := by
  have run := @run_bindVariants set.forest tier _ _ _ _ _ _ made
  rwa [Function.update_eq_self] at run

theorem run_bindHosts {route : String} {methods : List Method}
    {variants : List Pattern.Variant} {set next : DispatchSet} {hosts : List String}
    (bound : bindHosts route methods variants set hosts = .ok next) :
    Run set.forest
      ((hosts.map Tier.exact).flatMap fun tier => bindingsIn tier route "" methods variants)
      next.forest := by
  induction hosts generalizing set with
  | nil =>
      cases bound
      exact .nil _
  | cons host rest induction =>
      cases made : bindVariants route "" methods ((set.hosts.get? host).getD .empty) variants with
      | error error =>
          rw [bindHosts, made] at bound
          cases bound
      | ok tree =>
          rw [bindHosts, made] at bound
          have first := @run_of_bindVariants set (.exact host) _ _ _ _ _ made
          rw [← DispatchSet.forest_setHost] at first
          exact first.append (induction bound)

theorem eq_of_bindHosts {route : String} {methods : List Method}
    {variants : List Pattern.Variant} {set next : DispatchSet} {hosts : List String}
    (bound : bindHosts route methods variants set hosts = .ok next) :
    next = { set with hosts := next.hosts } := by
  induction hosts generalizing set with
  | nil =>
      cases bound
      rfl
  | cons host rest induction =>
      cases made : bindVariants route "" methods ((set.hosts.get? host).getD .empty) variants with
      | error error =>
          rw [bindHosts, made] at bound
          cases bound
      | ok tree =>
          rw [bindHosts, made] at bound
          have kept := induction bound
          exact kept

inductive Binds (route : Route) (variants : List Pattern.Variant) (set : DispatchSet) :
    DispatchSet → Prop
  | anyHost {tree : Tree} (read : HostBinding.ofHosts route.hosts = .ok .any)
      (made : bindVariants route.name "" (answeredMethods route.methods)
        (set.forest .anyHost) variants = .ok tree) :
      Binds route variants set { set with anyHost := some tree }
  | exact {hosts : List String} {next : DispatchSet}
      (read : HostBinding.ofHosts route.hosts = .ok (.exact hosts))
      (made : bindHosts route.name (answeredMethods route.methods) variants set hosts =
        .ok next) :
      Binds route variants set next
  | parameterized {host : String} {tree : Tree}
      (read : HostBinding.ofHosts route.hosts = .ok (.parameterized host))
      (compiles : (Host.regex? host).isSome = true)
      (made : bindVariants route.name (Host.pathTemplate host) (answeredMethods route.methods)
        (set.forest .parameterized) variants = .ok tree) :
      Binds route variants set { set with
        parameterized := some tree
        hostPatterns := set.hostPatterns.set route.name host }

theorem binds_of_bindRoute {route : Route} {variants : List Pattern.Variant}
    {set next : DispatchSet} (bound : bindRoute route variants set = .ok next) :
    Binds route variants set next := by
  cases read : HostBinding.ofHosts route.hosts with
  | error error =>
      rw [bindRoute, read] at bound
      cases bound
  | ok binding =>
      rw [bindRoute, read] at bound
      cases binding with
      | any =>
          cases made : bindVariants route.name "" (answeredMethods route.methods)
              (set.anyHost.getD .empty) variants with
          | error error =>
              simp [made, Except.mapError, Bind.bind, Except.bind] at bound
          | ok tree =>
              simp only [made, Except.mapError, Bind.bind, Except.bind, pure, Except.pure,
                Except.ok.injEq] at bound
              rw [← bound]
              exact .anyHost read made
      | exact hosts => exact .exact read bound
      | parameterized host =>
          simp only [Except.mapError, Bind.bind, Except.bind] at bound
          split at bound
          case isTrue => cases bound
          case isFalse compiles =>
            cases made : bindVariants route.name (Host.pathTemplate host)
                (answeredMethods route.methods) (set.parameterized.getD .empty) variants with
            | error error => simp [made] at bound
            | ok tree =>
                simp only [made, pure, Except.pure, Except.ok.injEq] at bound
                rw [← bound]
                exact .parameterized read (by simpa [Option.isSome_iff_ne_none] using compiles) made

theorem run_bindRoute {route : Route} {variants : List Pattern.Variant} {set next : DispatchSet}
    (compiled : Pattern.compile route.pattern = .ok variants)
    (dispatchable : route.dispatchable = true)
    (bound : bindRoute route variants set = .ok next) :
    Run set.forest route.bindings next.forest := by
  rw [Route.bindings, compiled]
  cases binds_of_bindRoute bound with
  | anyHost read made =>
      simp only [read, dispatchable, if_true, HostBinding.tiers, List.flatMap_singleton]
      rw [DispatchSet.forest_setAnyHost]
      exact run_of_bindVariants made
  | exact read made =>
      simp only [read, dispatchable, if_true]
      exact run_bindHosts made
  | parameterized read _ made =>
      simp only [read, dispatchable, if_true, HostBinding.tiers, List.flatMap_singleton]
      rw [DispatchSet.forest_setParameterized]
      exact run_of_bindVariants made

theorem forest_recordDefaults (route : Route) (set : DispatchSet) :
    (recordDefaults route set).forest = set.forest := by
  rw [recordDefaults]
  split
  · rfl
  · funext tier
    cases tier <;> rfl

def bindings (routes : List Route) : List Binding :=
  routes.flatMap Route.bindings

theorem bindings_of_not_dispatchable {route : Route} (hidden : ¬ route.dispatchable = true) :
    route.bindings = [] := by
  rw [Route.bindings]
  split
  · rw [if_neg hidden]
  · rfl

/-- What registering some routes in turn makes of a set: a route that is not dispatchable is passed
over, and each other one is bound with the variants that are remembered or compiled for it. -/
inductive Registers : DispatchSet → Pattern.Memo → List Route → DispatchSet → Prop
  | nil (set : DispatchSet) (memo : Pattern.Memo) : Registers set memo [] set
  | hidden {set final : DispatchSet} {memo : Pattern.Memo} {route : Route} {rest : List Route}
      (hidden : ¬ route.dispatchable = true) (later : Registers set memo rest final) :
      Registers set memo (route :: rest) final
  | bound {set middle final : DispatchSet} {memo asked : Pattern.Memo} {route : Route}
      {rest : List Route} {variants : List Pattern.Variant}
      (dispatchable : route.dispatchable = true)
      (known : memo.variants route.pattern = (.ok variants, asked))
      (made : bindRoute route variants set = .ok middle)
      (later : Registers (recordDefaults route middle) asked rest final) :
      Registers set memo (route :: rest) final

theorem registers_of_registerAll {routes : List Route} {set next : DispatchSet}
    {memo after : Pattern.Memo} (registered : registerAll set memo routes = (.ok next, after)) :
    Registers set memo routes next := by
  induction routes generalizing set memo with
  | nil =>
      cases registered
      exact .nil _ _
  | cons route rest induction =>
      rw [registerAll] at registered
      split at registered
      case isFalse hidden => exact .hidden hidden (induction registered)
      case isTrue dispatchable =>
        split at registered
        case h_1 => cases registered
        case h_2 known =>
          split at registered
          case h_1 => cases registered
          case h_2 made => exact .bound dispatchable known made (induction registered)

theorem Registers.run {routes : List Route} {set next : DispatchSet} {memo : Pattern.Memo}
    (registers : Registers set memo routes next) (faithful : memo.Faithful) :
    Run set.forest (bindings routes) next.forest := by
  induction registers with
  | nil => exact .nil _
  | hidden hidden _ induction =>
      rw [bindings, List.flatMap_cons, bindings_of_not_dispatchable hidden]
      exact induction faithful
  | @bound set middle final memo asked route rest variants dispatchable known made _ induction =>
      have compiled := faithful.variants_eq route.pattern
      have stillFaithful := faithful.variants route.pattern
      rw [known] at compiled stillFaithful
      have later := induction stillFaithful
      rw [forest_recordDefaults] at later
      exact (run_bindRoute compiled.symm dispatchable made).append later

theorem run_register {earlier : List String} {routes : List Route} {set : DispatchSet}
    {memo : Pattern.Memo} (registered : register (.after earlier) routes = (.ok set, memo)) :
    Run (fun _ => .empty) (bindings routes) set.forest := by
  have run := (registers_of_registerAll registered).run (Pattern.Memo.faithful_after earlier)
  rwa [DispatchSet.forest_empty] at run

/-- Registered routes own just what their bindings take in turn. -/
theorem owners_register {earlier : List String} {routes : List Route} {set : DispatchSet}
    {memo : Pattern.Memo} (registered : register (.after earlier) routes = (.ok set, memo))
    {position : Position} (proper : position.Proper) :
    set.owners position = Owners.none.takeAll (bindings routes) position :=
  (run_register registered).ownedBy Forest.ownedBy_empty position proper

theorem mem_answeredMethods_iff {methods : List Method} {method : Method} :
    method ∈ answeredMethods methods ↔
      method ∈ methods ∨ method = .head ∧ Method.get ∈ methods := by
  rw [answeredMethods]
  split
  case isTrue both => simp [both.1]
  case isFalse notBoth =>
    constructor
    · exact .inl
    · intro given
      rcases given with known | ⟨rfl, get⟩
      · exact known
      · by_contra absent
        exact notBoth ⟨get, absent⟩

theorem subset_answeredMethods (methods : List Method) : methods ⊆ answeredMethods methods :=
  fun _ known => mem_answeredMethods_iff.mpr (.inl known)

theorem mem_bindings_iff {route : Route} {binding : Binding} :
    binding ∈ route.bindings ↔
      route.dispatchable = true ∧
        ∃ variants, Pattern.compile route.pattern = .ok variants ∧
        ∃ hostBinding, HostBinding.ofHosts route.hosts = .ok hostBinding ∧
        ∃ tier ∈ hostBinding.tiers, ∃ variant ∈ variants,
        ∃ template, variant.template = .ok template ∧
        ∃ method ∈ answeredMethods route.methods,
          binding = ⟨tier, route.name, hostBinding.beginning ++ template, method⟩ := by
  rw [Route.bindings]
  split
  case h_1 variants hostBinding compiled read =>
    simp only [compiled, read, Except.ok.injEq, exists_eq_left']
    split
    case isTrue dispatchable =>
      simp only [dispatchable, true_and, List.mem_flatMap, mem_bindingsIn]
    case isFalse hidden => simp [hidden]
  case h_2 failed =>
    simp only [List.not_mem_nil, false_iff]
    intro given
    rcases given with ⟨-, variants, compiled, hostBinding, read, -⟩
    exact failed variants hostBinding compiled read

theorem route_of_mem_bindings {route : Route} {binding : Binding}
    (member : binding ∈ route.bindings) : binding.route = route.name := by
  rcases mem_bindings_iff.mp member with
    ⟨-, variants, -, hostBinding, -, tier, -, variant, -, template, -, method, -, rfl⟩
  rfl

/-- Routes of different names ask for their bindings one route after the other. -/
theorem grouped_bindings {routes : List Route} (distinct : (routes.map Route.name).Nodup) :
    Owners.Grouped (bindings routes) := by
  refine ⟨(routes.map Route.name).idxOf, List.pairwise_flatMap.mpr ⟨?_, ?_⟩⟩
  · intro route _
    apply List.pairwise_of_forall_mem_list
    intro first firstMem second secondMem
    right
    rw [route_of_mem_bindings firstMem, route_of_mem_bindings secondMem]
  · have ordered : (routes.map Route.name).Pairwise fun first second =>
        (routes.map Route.name).idxOf first < (routes.map Route.name).idxOf second := by
      apply List.pairwise_iff_getElem.mpr
      intro first second firstBound secondBound less
      rwa [distinct.idxOf_getElem, distinct.idxOf_getElem]
    apply (List.pairwise_map.mp ordered).imp
    intro first second less firstBinding firstMem secondBinding secondMem
    left
    rwa [route_of_mem_bindings firstMem, route_of_mem_bindings secondMem]

/-- Who owns the positions of registered routes. A position is owned by the route of the first
binding that gets as far as it. Every position that is claimed goes to the route that claims it
first just if that route has, for each, a binding whose earlier positions it claims first too. -/
theorem register_owners {earlier : List String} {routes : List Route} {set : DispatchSet}
    {memo : Pattern.Memo} (registered : register (.after earlier) routes = (.ok set, memo))
    (distinct : (routes.map Route.name).Nodup) :
    (∀ position : Position, position.Proper → ∀ route,
      set.owners position = some route ↔
        set.owners.ReachedFirst (bindings routes) position route) ∧
    ((∀ binding ∈ bindings routes, ∀ position ∈ binding.positions,
        set.owners position = Owners.firstClaimant (bindings routes) position) ↔
      ∀ binding ∈ bindings routes, ∀ position ∈ binding.positions,
        ∃ claimant ∈ bindings routes,
          Owners.firstClaimant (bindings routes) position = some claimant.route ∧
            claimant.Reaches (Owners.firstClaimant (bindings routes)) position) := by
  have same : ∀ binding ∈ bindings routes, ∀ position ∈ binding.positions,
      set.owners position = Owners.none.takeAll (bindings routes) position :=
    fun _ _ _ claimed => owners_register registered (Binding.proper_of_mem_positions claimed)
  constructor
  · intro position proper route
    rw [owners_register registered proper, Owners.takeAll_eq_some_iff rfl]
    exact (Owners.reachedFirst_congr same position route).symm
  · rw [← Owners.takeAll_eq_firstClaimant_iff (grouped_bindings distinct)]
    constructor
    · intro settled binding member position claimed
      rw [← same binding member position claimed]
      exact settled binding member position claimed
    · intro settled binding member position claimed
      rw [same binding member position claimed]
      exact settled binding member position claimed

theorem register_owners_users :
    ∃ set memo,
      register (.after []) [(Route.new [.post] "/a/{rest*}").withName "first",
        (Route.new [.post] "/a").withName "second"] = (.ok set, memo) ∧
      ∀ binding ∈ bindings [(Route.new [.post] "/a/{rest*}").withName "first",
          (Route.new [.post] "/a").withName "second"],
        ∀ position ∈ binding.positions, set.owners position =
          Owners.firstClaimant (bindings [(Route.new [.post] "/a/{rest*}").withName "first",
            (Route.new [.post] "/a").withName "second"]) position := by
  have made : (register (.after []) [(Route.new [.post] "/a/{rest*}").withName "first",
      (Route.new [.post] "/a").withName "second"]).1.isOk = true := by
    cbv
  have listed : bindings [(Route.new [.post] "/a/{rest*}").withName "first",
      (Route.new [.post] "/a").withName "second"] =
        [⟨.anyHost, "first", "/a/:rest*", .post⟩, ⟨.anyHost, "second", "/a", .post⟩] := by
    cbv
  cases registered : register (.after []) [(Route.new [.post] "/a/{rest*}").withName "first",
      (Route.new [.post] "/a").withName "second"] with
  | mk outcome memo =>
      rw [registered] at made
      cases outcome with
      | error error => cases made
      | ok set =>
          refine ⟨set, memo, rfl, (register_owners registered (by decide)).2.mpr ?_⟩
          rw [listed]
          intro binding member position claimed
          refine ⟨⟨.anyHost, "first", "/a/:rest*", .post⟩, by simp, ?_⟩
          have positions : binding.positions ⊆
            [⟨.anyHost, [.static "a"], .post⟩, ⟨.anyHost, [.static "a", .wildcard ""], .post⟩] := by
            rcases List.mem_cons.mp member with rfl | later
            · decide
            · rw [List.mem_singleton.mp later]
              decide
          rcases List.mem_cons.mp (positions claimed) with rfl | later
          · exact ⟨by decide, [], _, rfl, by simp⟩
          · rw [List.mem_singleton.mp later]
            refine ⟨by decide, [⟨.anyHost, [.static "a"], .post⟩], [], rfl, ?_⟩
            intro passed inPassed
            rw [List.mem_singleton.mp inPassed]
            decide

/-- A route is not reached at a position it alone claims, since an earlier route owns another. -/
theorem register_leaves_claimed_position :
    ∃ set memo,
      register (.after []) [(Route.new [.get] "/a").withName "first",
        (Route.new [.get] "/a/{rest*}").withName "second"] = (.ok set, memo) ∧
      Owners.firstClaimant (bindings [(Route.new [.get] "/a").withName "first",
          (Route.new [.get] "/a/{rest*}").withName "second"])
        ⟨.anyHost, [.static "a", .wildcard ""], .get⟩ = some "second" ∧
      set.owners ⟨.anyHost, [.static "a", .wildcard ""], .get⟩ = none ∧
      set.lookup "example.com" "GET" "/a/b" = .notFound := by
  have lost : ((register (.after []) [(Route.new [.get] "/a").withName "first",
      (Route.new [.get] "/a/{rest*}").withName "second"]).1.toOption.map fun set =>
        (set.owners ⟨.anyHost, [.static "a", .wildcard ""], .get⟩,
          set.lookup "example.com" "GET" "/a/b")) = some (none, .notFound) := by
    cbv
  cases made : register (.after []) [(Route.new [.get] "/a").withName "first",
      (Route.new [.get] "/a/{rest*}").withName "second"] with
  | mk outcome memo =>
      rw [made] at lost
      cases outcome with
      | error error => cases lost
      | ok set =>
          rcases Prod.mk.inj (Option.some.inj lost) with ⟨unowned, unanswered⟩
          exact ⟨set, memo, rfl, by cbv, unowned, unanswered⟩

end Registration

end UrlRouting
