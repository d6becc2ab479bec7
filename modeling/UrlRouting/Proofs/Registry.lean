import UrlRouting.Proofs.Table
import UrlRouting.Route

/-!
Registries and the routes they are made of. A registry holds its routes in the order in which they
were declared, and finds each of them, and nothing else, under its name.
-/

namespace UrlRouting.Registry

/-- Whether a registry holds just some routes, which have names of their own and answer some
method. -/
structure Holds (registry : Registry) (routes : List Route) : Prop where
  listed : registry.routes = routes
  indexed : ∀ name place,
    registry.index.get? name = some place ↔ (routes.map Route.name)[place]? = some name
  distinct : (routes.map Route.name).Nodup
  answers : ∀ route ∈ routes, route.methods ≠ []

variable {registry next : Registry} {routes : List Route} {route : Route}

theorem holds_empty : empty.Holds [] where
  listed := rfl
  indexed := by simp [empty]
  distinct := .nil
  answers := by simp

theorem Holds.add (holds : registry.Holds routes) (added : registry.add route = .ok next) :
    next.Holds (routes ++ [route]) := by
  rw [Registry.add] at added
  split at added
  case isTrue => cases added
  case isFalse answers =>
    split at added
    case isTrue => cases added
    case isFalse unknown =>
      cases added
      have fresh : ∀ place : Nat, (routes.map Route.name)[place]? ≠ some route.name := by
        intro place known
        rw [← holds.indexed] at known
        exact unknown (by rw [Table.contains_eq_isSome_get?, known]; rfl)
      constructor
      · rw [holds.listed]
      · intro name place
        rw [holds.listed, Table.get?_set, List.map_append, List.getElem?_append, List.map_singleton]
        by_cases before : place < (routes.map Route.name).length
        · rw [if_pos before]
          split
          case isTrue same =>
            subst same
            have shorter : routes.length ≠ place := by
              rw [List.length_map] at before
              omega
            simp only [Option.some_inj, shorter, fresh place]
          case isFalse => exact holds.indexed name place
        · have none : (routes.map Route.name)[place]? = none :=
            List.getElem?_eq_none (Nat.le_of_not_lt before)
          have last : place - routes.length = 0 ↔ routes.length = place := by
            rw [List.length_map] at before
            omega
          rw [if_neg before, List.length_map, List.getElem?_singleton,
            Option.ite_none_right_eq_some, last, Option.some_inj]
          split
          case isTrue same => simp [same]
          case isFalse different =>
            rw [holds.indexed, none]
            simp [Ne.symm different]
      · rw [List.map_append, List.map_singleton, List.nodup_append]
        refine ⟨holds.distinct, by simp, ?_⟩
        intro name member other last same
        rcases List.mem_iff_getElem?.mp member with ⟨place, known⟩
        rw [same, List.mem_singleton.mp last] at known
        exact fresh place known
      · rw [List.forall_mem_append, List.forall_mem_singleton]
        exact ⟨holds.answers, by simpa using answers⟩

theorem Holds.addAll {later : List Route} (holds : registry.Holds routes)
    (added : later.foldlM Registry.add registry = .ok next) : next.Holds (routes ++ later) := by
  induction later generalizing registry routes with
  | nil =>
      cases added
      rwa [List.append_nil]
  | cons route rest induction =>
      rw [List.foldlM_cons] at added
      cases one : registry.add route with
      | error error =>
          rw [one] at added
          cases added
      | ok middle =>
          rw [one] at added
          have others := induction (holds.add one) added
          rwa [List.append_assoc] at others

theorem holds_of_ofRoutes (made : ofRoutes routes = .ok registry) : registry.Holds routes :=
  holds_empty.addAll made

theorem Holds.route_eq_ok_iff (holds : registry.Holds routes) {name : String} :
    registry.route name = .ok route ↔ route ∈ routes ∧ route.name = name := by
  have found : registry.route name = .ok route ↔ registry.find? name = some route := by
    rw [Registry.route]
    cases registry.find? name <;> simp
  rw [found, find?, Option.bind_eq_some_iff, holds.listed]
  simp only [holds.indexed, List.getElem?_map, Option.map_eq_some_iff]
  constructor
  · rintro ⟨place, ⟨other, known, same⟩, here⟩
    cases known.symm.trans here
    exact ⟨List.mem_of_getElem? here, same⟩
  · rintro ⟨member, same⟩
    rcases List.mem_iff_getElem?.mp member with ⟨place, here⟩
    exact ⟨place, ⟨route, here, same⟩, here⟩

end UrlRouting.Registry
