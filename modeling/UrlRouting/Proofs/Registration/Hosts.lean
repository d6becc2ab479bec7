import UrlRouting.Proofs.Dispatch
import UrlRouting.Proofs.Registration.Bindings
import UrlRouting.Proofs.Table

/-!
Hosts with variables after registration. The set remembers for each route the host template it was
declared with, so a set rejects a host for a route just where that route's own template does. From
this follows for which listed methods a refusal can be wrong.
-/

namespace UrlRouting

/-! ### Hosts that routes declare -/

namespace HostBinding

theorem hosts_of_any {hosts : List String} (read : ofHosts hosts = .ok .any) : hosts = [] := by
  rw [ofHosts.eq_def] at read
  split at read
  case h_1 => rfl
  case h_2 host =>
    split at read
    · cases checked : Host.checkVariables host <;> rw [checked] at read <;> cases read
    · cases read
  case h_3 => split at read <;> cases read

theorem hosts_of_exact {hosts declared : List String}
    (read : ofHosts hosts = .ok (.exact declared)) :
    declared = hosts ∧ ∀ host ∈ hosts, Pattern.hasVariables host = false := by
  rw [ofHosts.eq_def] at read
  split at read
  case h_1 => cases read
  case h_2 host =>
    split at read
    case isTrue => cases checked : Host.checkVariables host <;> rw [checked] at read <;> cases read
    case isFalse plain =>
      cases read
      exact ⟨rfl, by simpa using plain⟩
  case h_3 =>
    split at read
    case isTrue => cases read
    case isFalse plain =>
      cases read
      exact ⟨rfl, by simpa using plain⟩

theorem hosts_of_parameterized {hosts : List String} {template : String}
    (read : ofHosts hosts = .ok (.parameterized template)) :
    hosts = [template] ∧ Pattern.hasVariables template = true ∧
      Host.checkVariables template = .ok () := by
  rw [ofHosts.eq_def] at read
  split at read
  case h_1 => cases read
  case h_2 host =>
    split at read
    case isTrue parameterized =>
      cases checked : Host.checkVariables host with
      | error error =>
          rw [checked] at read
          cases read
      | ok =>
          rw [checked] at read
          cases read
          exact ⟨rfl, parameterized, checked⟩
    case isFalse => cases read
  case h_3 => split at read <;> cases read

end HostBinding

namespace Route

def hostTemplate? (route : Route) : Option String :=
  match HostBinding.ofHosts route.hosts with
  | .ok (.parameterized template) => some template
  | _ => none

def Rejects (route : Route) (host : String) : Prop :=
  ∃ template, route.hostTemplate? = some template ∧ Host.accepts template host = false

end Route

theorem Route.hostTemplate?_eq_some_iff {route : Route} {template : String} :
    route.hostTemplate? = some template ↔
      HostBinding.ofHosts route.hosts = .ok (.parameterized template) := by
  rw [hostTemplate?]
  split
  case h_1 other read => simp [read]
  case h_2 others =>
    simp only [reduceCtorEq, false_iff]
    exact others template

namespace Registration

theorem hostPatterns_bindRoute {route : Route} {variants : List Pattern.Variant}
    {set next : DispatchSet} (bound : bindRoute route variants set = .ok next) (name : String) :
    next.hostPatterns.get? name =
      if name = route.name then route.hostTemplate?.or (set.hostPatterns.get? name)
      else set.hostPatterns.get? name := by
  rw [Route.hostTemplate?]
  cases binds_of_bindRoute bound with
  | anyHost read _ => rw [read, Option.none_or, ite_self]
  | exact read made => rw [read, eq_of_bindHosts made, Option.none_or, ite_self]
  | parameterized read _ _ => rw [read, Table.get?_set, Option.some_or]

theorem hostPatterns_recordDefaults (route : Route) (set : DispatchSet) :
    (recordDefaults route set).hostPatterns = set.hostPatterns := by
  rw [recordDefaults]
  split <;> rfl

theorem Registers.hostPatterns {routes : List Route} {set next : DispatchSet}
    {memo : Pattern.Memo} (registers : Registers set memo routes next)
    (distinct : (routes.map Route.name).Nodup) (name : String) :
    next.hostPatterns.get? name =
      ((routes.find? fun route => route.dispatchable && route.name == name).bind
        Route.hostTemplate?).or (set.hostPatterns.get? name) := by
  induction registers with
  | nil => rfl
  | hidden hidden _ induction =>
      rw [List.map_cons, List.nodup_cons] at distinct
      rw [List.find?_cons, induction distinct.2]
      simp [hidden]
  | @bound set middle final memo asked route rest variants dispatchable known made _ induction =>
      rw [List.map_cons, List.nodup_cons] at distinct
      rw [List.find?_cons, induction distinct.2, hostPatterns_recordDefaults,
        hostPatterns_bindRoute made]
      by_cases same : name = route.name
      · subst same
        have noOther : (rest.find? fun other =>
            other.dispatchable && other.name == route.name) = none := by
          apply List.find?_eq_none.mpr
          intro other member matching
          rw [Bool.and_eq_true, beq_iff_eq] at matching
          exact distinct.1 (matching.2 ▸ List.mem_map_of_mem member)
        simp [noOther, dispatchable]
      · have unmatched : (route.dispatchable && route.name == name) = false := by
          rw [beq_eq_false_iff_ne.mpr (Ne.symm same), Bool.and_false]
        rw [if_neg same, unmatched]

theorem hostPatterns_register {routes : List Route} {set : DispatchSet} {memo after : Pattern.Memo}
    (distinct : (routes.map Route.name).Nodup)
    (registered : register memo routes = (.ok set, after)) {name template : String} :
    set.hostPatterns.get? name = some template ↔
      ∃ route ∈ routes, route.dispatchable = true ∧ route.name = name ∧
        route.hostTemplate? = some template := by
  rw [(registers_of_registerAll registered).hostPatterns distinct]
  have initial : DispatchSet.empty.hostPatterns.get? name = none := rfl
  rw [initial, Option.or_none, Option.bind_eq_some_iff]
  constructor
  · intro given
    rcases given with ⟨route, found, declared⟩
    have matching := List.find?_some found
    rw [Bool.and_eq_true, beq_iff_eq] at matching
    exact ⟨route, List.mem_of_find?_eq_some found, matching.1, matching.2, declared⟩
  · intro given
    rcases given with ⟨route, member, dispatchable, rfl, declared⟩
    cases found : routes.find? fun other => other.dispatchable && other.name == route.name with
    | none =>
        have unmatched := List.find?_eq_none.mp found route member
        simp [dispatchable] at unmatched
    | some other =>
        have matching := List.find?_some found
        rw [Bool.and_eq_true, beq_iff_eq] at matching
        have same := List.inj_on_of_nodup_map distinct (List.mem_of_find?_eq_some found) member
          matching.2
        exact ⟨other, rfl, same ▸ declared⟩

theorem hostAccepted_register {routes : List Route} {set : DispatchSet} {memo after : Pattern.Memo}
    (distinct : (routes.map Route.name).Nodup)
    (registered : register memo routes = (.ok set, after)) {name host : String} :
    set.hostAccepted name host = false ↔
      ∃ route ∈ routes, route.dispatchable = true ∧ route.name = name ∧ route.Rejects host := by
  rw [DispatchSet.hostAccepted]
  constructor
  · intro rejected
    cases known : set.hostPatterns.get? name with
    | none => simp [known] at rejected
    | some template =>
        simp only [known] at rejected
        rcases (hostPatterns_register distinct registered).mp known with
          ⟨route, member, dispatchable, named, declared⟩
        exact ⟨route, member, dispatchable, named, template, declared, rejected⟩
  · intro given
    rcases given with ⟨route, member, dispatchable, named, template, declared, rejected⟩
    rw [(hostPatterns_register distinct registered).mpr
      ⟨route, member, dispatchable, named, declared⟩]
    exact rejected

theorem hostAccepted_eq {routes : List Route} {set : DispatchSet} {memo after : Pattern.Memo}
    (distinct : (routes.map Route.name).Nodup)
    (registered : register memo routes = (.ok set, after)) {route : Route}
    (member : route ∈ routes) (dispatchable : route.dispatchable = true) {template : String}
    (declared : route.hostTemplate? = some template) (host : String) :
    set.hostAccepted route.name host = Host.accepts template host := by
  rw [DispatchSet.hostAccepted, (hostPatterns_register distinct registered).mpr
    ⟨route, member, dispatchable, rfl, declared⟩]

/-- What a refusal of registered routes says. It lists some methods, each once and not the one asked
for. A listed method is answered unless the exact tier does not know the path, no route of any host
answers, and the route found among those of hosts with variables does not mean the host. -/
theorem register_refusal {routes : List Route} {set : DispatchSet} {memo after : Pattern.Memo}
    (registered : register memo routes = (.ok set, after))
    (distinct : (routes.map Route.name).Nodup) {host method path : String} {allowed : List Method}
    (refused : set.lookup host method path = .methodNotAllowed allowed) :
    allowed ≠ [] ∧ allowed.Nodup ∧ (∀ asked ∈ allowed, asked.name ≠ method) ∧
      ∀ asked ∈ allowed,
        (set.lookup host asked.name path).isSuccess = true ↔
          ¬ (set.lookupExact host asked.name path = .notFound ∧
            ¬ set.AnswersAny asked.name path ∧
            ∃ endpoint captured,
              DispatchSet.lookupTree set.parameterized asked.name (Host.foldedPath host path) =
                .found endpoint captured ∧
              ∃ route ∈ routes, route.dispatchable = true ∧ route.name = endpoint.handler ∧
                route.Rejects host) := by
  rcases DispatchSet.truth_of_refusal refused with ⟨nonempty, nodup, others, answered⟩
  refine ⟨nonempty, nodup, others, fun asked member => ?_⟩
  rw [answered asked member]
  apply not_congr
  simp only [← hostAccepted_register distinct registered]
  constructor
  · intro only
    exact ⟨only.unknown, only.unanswered, only.rejected⟩
  · intro only
    exact ⟨only.1, only.2.1, only.2.2⟩

theorem register_refusal_users :
    ∃ set memo,
      register .empty [(Route.new [.get] "/users").withName "users"] = (.ok set, memo) ∧
      set.lookup "example.com" "POST" "/users" = .methodNotAllowed [.get, .head] ∧
      ∀ asked ∈ [Method.get, Method.head],
        (set.lookup "example.com" asked.name "/users").isSuccess = true := by
  have made : (register .empty [(Route.new [.get] "/users").withName "users"]).1 = .ok
      { DispatchSet.empty with
        anyHost := some (Tree.empty.add [.get, .head] "/users" "users").1 } := by
    cbv
  cases registered : register .empty [(Route.new [.get] "/users").withName "users"] with
  | mk outcome memo =>
      rw [registered] at made
      subst made
      refine ⟨_, memo, rfl, by decide +kernel, fun asked member => ?_⟩
      have truth := @register_refusal _ _ _ _ registered (by decide) "example.com" "POST" "/users"
        [.get, .head] (by decide +kernel)
      apply (truth.2.2.2 asked member).mpr
      intro only
      rcases only.2.2 with ⟨endpoint, captured, found, -⟩
      cases found

/-- A host that the only route does not mean is refused a method on account of it. -/
theorem register_refuses_rejected_host :
    ∃ set memo,
      register .empty [((Route.new [.get] "/").withName "page").withHosts ["\x7blang:de\x7d"]] =
        (.ok set, memo) ∧
      set.lookup "fr" "POST" "/" = .methodNotAllowed [.get, .head] ∧
      ∀ asked ∈ [Method.get, Method.head],
        (set.lookup "fr" asked.name "/").isSuccess = false := by
  have made : (register .empty
      [((Route.new [.get] "/").withName "page").withHosts ["\x7blang:de\x7d"]]).1 = .ok
        { DispatchSet.empty with
          parameterized := some (Tree.empty.add [.get, .head] "/:lang" "page").1
          hostPatterns := { entries := [("page", "\x7blang:de\x7d")] } } := by
    cbv
  have rejected : Host.accepts "\x7blang:de\x7d" "fr" = false := by cbv
  have known : ∀ asked ∈ [Method.get, Method.head],
      DispatchSet.lookupTree (some (Tree.empty.add [.get, .head] "/:lang" "page").1) asked.name
          (Host.foldedPath "fr" "/") =
        .found ⟨asked, "page", ["lang"], "/:lang"⟩ (.ofList [("lang", "fr")]) := by
    decide +kernel
  cases registered : register .empty
      [((Route.new [.get] "/").withName "page").withHosts ["\x7blang:de\x7d"]] with
  | mk outcome memo =>
      rw [registered] at made
      subst made
      refine ⟨_, memo, rfl, by decide +kernel, fun asked member => ?_⟩
      rw [← Bool.not_eq_true, DispatchSet.lookup_isSuccess_iff]
      intro answered
      rcases answered with ⟨endpoint, captured, found⟩ | ⟨-, folded | anyHost⟩
      · cases found
      · rcases folded with ⟨endpoint, captured, found, accepted⟩
        cases (known asked member).symm.trans found
        exact absurd accepted (Bool.not_eq_true _ ▸ rejected)
      · rcases anyHost with ⟨endpoint, captured, found⟩
        cases found

end Registration

end UrlRouting
