import UrlRouting.Proofs.Registry

/-!
Routes declared one after the other, some of which are rejected. After any declarations the registry
holds just the routes that were accepted, and a further route is rejected if it answers no method or
if its name is that of one of them.
-/

namespace UrlRouting.Registry

/-- Declare some routes in order, going on after those that are rejected. -/
def declareAll (routes : List Route) : StateM Registry (List (Except ConfigError Unit)) :=
  routes.mapM fun route => (declare route).run

def accepted (routes : List Route) (answers : List (Except ConfigError Unit)) : List Route :=
  ((routes.zip answers).filter (·.2.isOk)).map Prod.fst

variable {registry : Registry} {routes : List Route}

/-! ### One declaration -/

theorem run_declare (route : Route) (registry : Registry) :
    (declare route).run.run registry =
      match registry.add route with
      | .ok next => (.ok (), next)
      | .error error => (.error error, registry) := by
  rw [declare, add]
  split
  case isTrue => rfl
  case isFalse =>
    -- The state is read before the second test, which then says what is left to do.
    change (ite (registry.index.contains route.name = true)
      (throw (ConfigError.duplicateName route.name)) _ : ExceptT _ (StateM Registry) Unit).run.run
        registry = _
    split
    case isTrue => rfl
    case isFalse => rfl

theorem Holds.contains_index_iff (holds : registry.Holds routes) (name : String) :
    registry.index.contains name = true ↔ name ∈ routes.map Route.name := by
  rw [Table.contains_eq_isSome_get?, Option.isSome_iff_exists, List.mem_iff_getElem?]
  simp only [holds.indexed]

/-- What becomes of one more declaration: the route is rejected, and nothing changes, or it is held
after the others. -/
theorem Holds.exists_run_declare (holds : registry.Holds routes) (route : Route) :
    ∃ next : Registry, next.routes = routes ++ [route] ∧
      (declare route).run.run registry =
        if route.methods = [] then (.error (.noMethods route.name), registry)
        else if route.name ∈ routes.map Route.name then
          (.error (.duplicateName route.name), registry)
        else (.ok (), next) := by
  refine ⟨{ routes := registry.routes ++ [route]
            index := registry.index.set route.name registry.routes.length }, ?_, ?_⟩
  · rw [holds.listed]
  · rw [run_declare, Registry.add]
    simp only [List.isEmpty_iff, holds.contains_index_iff]
    by_cases silent : route.methods = []
    · rw [if_pos silent, if_pos silent]
    · rw [if_neg silent, if_neg silent]
      by_cases known : route.name ∈ routes.map Route.name
      · rw [if_pos known, if_pos known]
      · rw [if_neg known, if_neg known]

/-! ### Any declarations -/

theorem run_declareAll_cons (route : Route) (rest : List Route) (registry : Registry) :
    (declareAll (route :: rest)).run registry =
      let first := (declare route).run.run registry
      let others := (declareAll rest).run first.2
      (first.1 :: others.1, others.2) := by
  rw [declareAll, List.mapM_cons]
  rfl

theorem Holds.run_declareAll (holds : registry.Holds routes) (calls : List Route) :
    ((declareAll calls).run registry).2.Holds
      (routes ++ accepted calls ((declareAll calls).run registry).1) := by
  induction calls generalizing registry routes with
  | nil =>
      rw [show accepted [] _ = [] from rfl, List.append_nil]
      exact holds
  | cons route rest induction =>
      rw [run_declareAll_cons, run_declare]
      cases added : registry.add route with
      | error error => exact induction holds
      | ok next =>
          have later := induction (holds.add added)
          rwa [List.append_assoc] at later

theorem Holds.route_eq (holds : registry.Holds routes) (name : String) :
    registry.route name =
      match routes.find? (·.name = name) with
      | some route => .ok route
      | none => .error (.routeNotFound name) := by
  cases found : routes.find? (·.name = name) with
  | some route =>
      have named : route.name = name := by simpa using List.find?_some found
      exact holds.route_eq_ok_iff.mpr ⟨List.mem_of_find?_eq_some found, named⟩
  | none =>
      rw [Registry.route]
      cases known : registry.find? name with
      | none => rfl
      | some route =>
          have given : registry.route name = .ok route := by rw [Registry.route, known]
          rcases holds.route_eq_ok_iff.mp given with ⟨member, named⟩
          have different := List.find?_eq_none.mp found route member
          simp [named] at different

/-- The list of a registry and its index never disagree. After any declarations, accepted or
rejected, it lists the accepted routes in order; their names, given or made up, are different; and
it finds each of them, and nothing else, under its name. One more route is rejected just if it
answers no method or has the name of an accepted route, and then nothing changes; otherwise it is
listed after the others. -/
theorem declareAll_keeps_index (calls : List Route) :
    let outcome := (declareAll calls).run empty
    let held := accepted calls outcome.1
    outcome.2.routes = held ∧ (held.map Route.name).Nodup ∧
    (∀ name, outcome.2.route name =
      match held.find? (·.name = name) with
      | some route => .ok route
      | none => .error (.routeNotFound name)) ∧
    ∀ route, ∃ next : Registry, next.routes = held ++ [route] ∧
      (declare route).run.run outcome.2 =
        if route.methods = [] then (.error (.noMethods route.name), outcome.2)
        else if route.name ∈ held.map Route.name then
          (.error (.duplicateName route.name), outcome.2)
        else (.ok (), next) := by
  intro outcome held
  have holds : outcome.2.Holds held := holds_empty.run_declareAll calls
  exact ⟨holds.listed, holds.distinct, holds.route_eq, holds.exists_run_declare⟩

/-- A given name is taken if it is the one made up for another route. -/
example :
    ((declareAll [Route.new [.get] "/a", (Route.new [.post] "/b").withName "GET /a"]).run empty).1 =
      [.ok (), .error (.duplicateName "GET /a")] := by
  cbv

end UrlRouting.Registry
