import UrlRouting.Proofs.Registration.Bindings
import UrlRouting.Proofs.Tree.Additions

/-!
A route that is registered alone. No other route has a place that it wants, so nothing that it asks
for is refused but a template that is at fault: the tree that results is the one made by adding all
its templates.
-/

namespace UrlRouting

open Template

def Binding.addition (binding : Binding) : Addition :=
  { methods := [binding.method], template := binding.template, handler := binding.route }

namespace Tree

theorem isInvalidPath_of_add {tree next : Tree} {claims : List Claim}
    (records : tree.Records claims) {methods : List Method} {template handler : String}
    (same : ∀ claim ∈ claims, claim.handler = handler) {error : TreeError}
    (refused : tree.add methods template handler = (next, .error error)) :
    error.isInvalidPath = true := by
  rw [add] at refused
  split at refused
  case isTrue =>
    cases refused
    rfl
  case isFalse =>
    split at refused
    case h_1 reason read =>
      cases refused
      exact isInvalidPath_of_parse read
    case h_2 parsed read =>
      rw [segments_of_parse read] at refused
      have free : ∀ place ∈ places methods (segments template),
          tree.isOpen handler place = true := by
        intro place member
        rw [isOpen, records.first place.1 (proper_of_mem_places methods template place member)]
        cases found : claims.find? fun claim => isAt place.1 place.2 claim.place with
        | none => rfl
        | some claim =>
            have handled := same claim (List.mem_of_find?_eq_some found)
            simp [Claim.endpoint, endpoint, handled]
      have accepted := (bindAll_isOk_iff (proper_of_mem_places methods template)).mpr free
      rw [refused] at accepted
      cases accepted

end Tree

namespace Registration

variable {tier : Tier} {route : String} {methods : List Method}

theorem handler_of_mem_claims {bindings : List Binding}
    (same : ∀ binding ∈ bindings, binding.route = route) :
    ∀ claim ∈ (bindings.map Binding.addition).flatMap Addition.claims, claim.handler = route := by
  intro claim member
  rcases List.mem_flatMap.mp member with ⟨addition, inAdditions, inClaims⟩
  rcases List.mem_map.mp inAdditions with ⟨binding, inBindings, rfl⟩
  exact (Addition.mem_claims_iff.mp inClaims).2.2.trans (same binding inBindings)

theorem addAll_bindTemplate {template : String} {tree next : Tree} {earlier : List Binding}
    (same : ∀ binding ∈ earlier, binding.route = route)
    (made : Tree.empty.addAll (earlier.map Binding.addition) = .ok tree)
    (bound : bindTemplate route template tree methods = .ok next) :
    Tree.empty.addAll ((earlier ++ methods.map fun method =>
      (⟨tier, route, template, method⟩ : Binding)).map Binding.addition) = .ok next := by
  induction methods generalizing tree earlier with
  | nil =>
      cases bound
      simpa using made
  | cons method rest induction =>
      rw [bindTemplate] at bound
      split at bound
      case h_1 added _ done =>
        have here : Tree.empty.addAll ((earlier ++
            [(⟨tier, route, template, method⟩ : Binding)]).map Binding.addition) = .ok added := by
          rw [List.map_append, Tree.addAll_append, made]
          simp [Except.bind, Tree.addAll, Binding.addition, done]
        have later := induction (by simpa [or_imp, forall_and] using same) here bound
        rwa [List.append_assoc, List.singleton_append] at later
      case h_2 error refused =>
        have records := Tree.records_addAll Tree.records_empty made
        rw [Tree.isInvalidPath_of_add records (handler_of_mem_claims same) refused, if_pos rfl]
          at bound
        cases bound

theorem addAll_bindVariants {beginning : String} {tree next : Tree}
    {variants : List Pattern.Variant} {earlier : List Binding}
    (same : ∀ binding ∈ earlier, binding.route = route)
    (made : Tree.empty.addAll (earlier.map Binding.addition) = .ok tree)
    (bound : bindVariants route beginning methods tree variants = .ok next) :
    (∀ variant ∈ variants, ∃ template, variant.template = .ok template) ∧
      Tree.empty.addAll ((earlier ++ bindingsIn tier route beginning methods variants).map
        Binding.addition) = .ok next := by
  induction variants generalizing tree earlier with
  | nil =>
      cases bound
      exact ⟨by simp, by simpa [bindingsIn] using made⟩
  | cons variant rest induction =>
      cases read : variant.template with
      | error error =>
          rw [bindVariants, read] at bound
          cases bound
      | ok template =>
          cases first : bindTemplate route (beginning ++ template) tree methods with
          | error error =>
              simp [bindVariants, read, first, Except.mapError, Bind.bind, Except.bind] at bound
          | ok middle =>
              have later : bindVariants route beginning methods middle rest = .ok next := by
                simpa [bindVariants, read, first, Except.mapError, Bind.bind, Except.bind]
                  using bound
              have here := @addAll_bindTemplate tier _ _ _ _ _ _ same made first
              have stillSame : ∀ binding ∈ earlier ++ methods.map (fun method =>
                  (⟨tier, route, beginning ++ template, method⟩ : Binding)),
                  binding.route = route := by
                intro binding member
                rcases List.mem_append.mp member with before | new
                · exact same binding before
                · rcases List.mem_map.mp new with ⟨method, -, rfl⟩
                  rfl
              rcases induction stillSame here later with ⟨others, all⟩
              constructor
              · intro other member
                rcases List.mem_cons.mp member with rfl | inRest
                · exact ⟨template, read⟩
                · exact others other inRest
              · rw [bindingsIn, List.flatMap_cons, read]
                rwa [List.append_assoc] at all

/-! ### Requests -/

def aloneSet (route : Route) (tree : Tree) : DispatchSet :=
  recordDefaults route { DispatchSet.empty with anyHost := some tree }

theorem defaults_aloneSet (route : Route) (tree : Tree) :
    ((aloneSet route tree).defaults.get? route.name).getD .empty = route.defaults := by
  rw [aloneSet, recordDefaults]
  split
  case isTrue empty =>
    rw [Table.eq_empty_of_isEmpty empty]
    rfl
  case isFalse => rw [Table.get?_set_self, Option.getD_some]

theorem lookup_aloneSet {route : Route} {tree : Tree} {host method path : String}
    {endpoint : Endpoint} {parameters : Table String} (handled : endpoint.handler = route.name)
    (found : tree.lookup method path = .found endpoint parameters) :
    (aloneSet route tree).lookup host method path =
      .success route.name (route.defaults.setAll parameters.entries) := by
  have hosts : (aloneSet route tree).hosts = .empty := by
    rw [aloneSet, recordDefaults]
    split <;> rfl
  have parameterized : (aloneSet route tree).parameterized = none := by
    rw [aloneSet, recordDefaults]
    split <;> rfl
  have anyHost : (aloneSet route tree).anyHost = some tree := by
    rw [aloneSet, recordDefaults]
    split <;> rfl
  simp only [DispatchSet.lookup, DispatchSet.lookupExact, hosts, Table.get?_empty, parameterized,
    anyHost, DispatchSet.lookupTree, found]
  rw [DispatchSet.success, handled, defaults_aloneSet]

theorem register_alone {route : Route} {set : DispatchSet} {memo after : Pattern.Memo}
    (faithful : memo.Faithful) (dispatchable : route.dispatchable = true)
    (anyHost : route.hosts = []) (registered : register memo [route] = (.ok set, after)) :
    ∃ variants tree, Pattern.compile route.pattern = .ok variants ∧
      (∀ variant ∈ variants, ∃ template, variant.template = .ok template) ∧
      Tree.empty.addAll ((bindingsIn .anyHost route.name "" (answeredMethods route.methods)
        variants).map Binding.addition) = .ok tree ∧
      set = aloneSet route tree := by
  rw [register, registerAll, if_pos dispatchable] at registered
  split at registered
  case h_1 => cases registered
  case h_2 variants asked known =>
    have compiled := faithful.variants_eq route.pattern
    rw [known] at compiled
    split at registered
    case h_1 => cases registered
    case h_2 bound equal =>
      cases registered
      rw [bindRoute, anyHost] at equal
      cases made : bindVariants route.name "" (answeredMethods route.methods) .empty variants with
      | error error =>
          simp [made, HostBinding.ofHosts, Except.mapError, Bind.bind, Except.bind,
            DispatchSet.empty] at equal
      | ok tree =>
          have whole : bound = { DispatchSet.empty with anyHost := some tree } := by
            simpa [made, HostBinding.ofHosts, Except.mapError, Bind.bind, Except.bind,
              DispatchSet.empty, pure, Except.pure] using equal.symm
          rcases @addAll_bindVariants .anyHost _ _ _ _ _ _ [] (by simp) rfl made with
            ⟨templates, all⟩
          exact ⟨variants, tree, compiled.symm, templates, all, by rw [whole, aloneSet]⟩

variable {beginning : String} {variants : List Pattern.Variant} {variant : Pattern.Variant}
  {template : String}

theorem checkOrder_of_addAll {tree : Tree} (answers : methods ≠ [])
    (added : Tree.empty.addAll ((bindingsIn tier route "" methods variants).map
      Binding.addition) = .ok tree)
    (member : variant ∈ variants) (read : variant.template = .ok template) :
    checkOrder template false (segments template) = .ok () := by
  rcases List.exists_mem_of_ne_nil methods answers with ⟨method, known⟩
  have inBindings : (⟨tier, route, template, method⟩ : Binding) ∈
      bindingsIn tier route "" methods variants := by
    apply mem_bindingsIn.mpr
    exact ⟨variant, member, template, read, method, known, by rw [String.empty_append]⟩
  exact (Tree.wellformed_of_addAll added _ (List.mem_map_of_mem inBindings)).2

theorem lookup_alone {route : Route} {tree : Tree} (method : Method)
    (added : Tree.empty.addAll ((bindingsIn .anyHost route.name "" (answeredMethods route.methods)
      variants).map Binding.addition) = .ok tree)
    (known : method ∈ answeredMethods route.methods) (member : variant ∈ variants)
    (read : variant.template = .ok template) {path : String}
    (fits : Fits (segments template) (Path.texts path)) (host : String) :
    ∃ other ∈ variants, ∃ text, other.template = .ok text ∧
      ∃ steps ∈ expand (segments text), StepsFit steps (Path.texts path) ∧
        (aloneSet route tree).lookup host method.name path =
          .success route.name (route.defaults.setAll (Table.ofList
            ((names steps).zip (Tree.captured path steps (Path.pieces path)))).entries) := by
  have inBindings : (⟨.anyHost, route.name, template, method⟩ : Binding) ∈
      bindingsIn .anyHost route.name "" (answeredMethods route.methods) variants := by
    apply mem_bindingsIn.mpr
    exact ⟨variant, member, template, read, method, known, by rw [String.empty_append]⟩
  have matching : method ∈ tree.methodsAt path := by
    apply (Tree.mem_methodsAt_addAll_iff added).mpr
    exact ⟨_, List.mem_map_of_mem inBindings, by simp [Binding.addition], fits⟩
  rcases Tree.lookup_isFound_iff.mpr ⟨method, matching, rfl⟩ with ⟨endpoint, parameters, found⟩
  have records := Tree.records_addAll Tree.records_empty added
  rcases records.preferred_of_found found with
    ⟨before, claim, after, whole, preferred, rfl, -, -, rfl⟩
  have inClaims := List.mem_append_right before (List.mem_cons_self (a := claim) (l := after))
  rw [← whole] at inClaims
  rcases List.mem_flatMap.mp inClaims with ⟨addition, inAdditions, claimed⟩
  rcases List.mem_map.mp inAdditions with ⟨binding, bindingMem, rfl⟩
  rcases mem_bindingsIn.mp bindingMem with ⟨other, inVariants, text, otherRead, _, -, rfl⟩
  rcases Addition.mem_claims_iff.mp claimed with ⟨expanded, -, handled⟩
  rw [Binding.addition, String.empty_append] at expanded
  exact ⟨other, inVariants, text, otherRead, _, expanded, preferred.fits,
    lookup_aloneSet handled found⟩

end Registration

end UrlRouting
