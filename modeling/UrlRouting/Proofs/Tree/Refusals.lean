import Mathlib.Data.List.TakeWhile
import UrlRouting.Proofs.Tree.Order
import UrlRouting.Proofs.Tree.Shape

/-!
What a refused addition leaves behind. A template or a method list at fault is noticed before
anything is bound. A place that another handler has is noticed when its turn comes, and the places
before it stay bound.
-/

namespace UrlRouting.Tree

open Template

/-! ### Binding one place -/

theorem bind_eq_ok {tree next : Tree} {place : List Step × Method} {handler : String}
    (bound : tree.bind place.1 place.2 handler = .ok next) :
    (tree.bound? place.1 place.2).isSome = true ∧ next = tree ∨
      tree.bound? place.1 place.2 = none ∧ next.size = tree.size + 1 := by
  rw [bind_eq] at bound
  split at bound
  case h_1 free =>
    cases bound
    exact .inr ⟨free, size_insert tree _ _⟩
  case h_2 existing present =>
    split at bound <;> cases bound
    exact .inl ⟨Option.isSome_of_eq_some present, rfl⟩

theorem bind_eq_error {tree : Tree} {place : List Step × Method} {handler : String}
    {error : TreeError} (refused : tree.bind place.1 place.2 handler = .error error) :
    ∃ existing, tree.bound? place.1 place.2 = some existing ∧ existing.handler ≠ handler ∧
      error = .duplicate place.2 (render place.1) existing.pattern := by
  rw [bind_eq] at refused
  split at refused
  case h_1 => cases refused
  case h_2 existing present =>
    split at refused
    case isTrue => cases refused
    case isFalse different =>
      cases refused
      exact ⟨existing, present, by simpa using different, rfl⟩

theorem not_isOpen_of_bind_eq_error {tree : Tree} {place : List Step × Method} {handler : String}
    {error : TreeError} (refused : tree.bind place.1 place.2 handler = .error error) :
    ¬ tree.isOpen handler place = true := by
  rcases bind_eq_error refused with ⟨existing, present, different, -⟩
  simpa [isOpen, present] using different

/-! ### Binding several places -/

theorem size_le_bindAll (tree : Tree) (handler : String) (places : List (List Step × Method)) :
    tree.size ≤ (tree.bindAll handler places).1.size := by
  induction places generalizing tree with
  | nil => exact Nat.le_refl _
  | cons place rest induction =>
      rw [bindAll]
      split
      case h_1 next bound =>
        have later := induction next
        rcases bind_eq_ok bound with ⟨-, rfl⟩ | ⟨-, grown⟩
        · exact later
        · omega
      case h_2 => exact Nat.le_refl _

theorem bindAll_eq_self {tree : Tree} {handler : String} {places : List (List Step × Method)}
    (known : ∀ place ∈ places.takeWhile (tree.isOpen handler),
      (tree.bound? place.1 place.2).isSome = true) :
    (tree.bindAll handler places).1 = tree := by
  induction places generalizing tree with
  | nil => rfl
  | cons place rest induction =>
      rw [bindAll]
      split
      case h_1 next bound =>
        have isOpen := (tree.bind_isOk_iff place.1 place.2 handler).mp ⟨next, bound⟩
        rw [List.takeWhile_cons_of_pos isOpen, List.forall_mem_cons] at known
        rcases bind_eq_ok bound with ⟨-, rfl⟩ | ⟨free, -⟩
        · exact induction known.2
        · simp [free] at known
      case h_2 => rfl

/-- The size tells whether anything was bound: it stays just if every place before the refused one
has an endpoint already. -/
theorem size_bindAll_eq_iff {tree : Tree} {handler : String}
    {places : List (List Step × Method)} :
    (tree.bindAll handler places).1.size = tree.size ↔
      ∀ place ∈ places.takeWhile (tree.isOpen handler),
        (tree.bound? place.1 place.2).isSome = true := by
  induction places generalizing tree with
  | nil => simp [bindAll]
  | cons place rest induction =>
      rw [bindAll]
      split
      case h_1 next bound =>
        have isOpen := (tree.bind_isOk_iff place.1 place.2 handler).mp ⟨next, bound⟩
        rw [List.takeWhile_cons_of_pos isOpen, List.forall_mem_cons]
        rcases bind_eq_ok bound with ⟨known, rfl⟩ | ⟨free, grown⟩
        · rw [induction, and_iff_right known]
        · have kept := size_le_bindAll next handler rest
          refine iff_of_false (fun same => ?_) fun known => ?_
          · omega
          · simp [free] at known
      case h_2 refused =>
        simp [List.takeWhile_cons_of_neg (not_isOpen_of_bind_eq_error refused)]

theorem bindAll_eq_error {tree : Tree} {handler : String}
    {places : List (List Step × Method)} (proper : ∀ place ∈ places, Proper place.1)
    {error : TreeError} (refused : (tree.bindAll handler places).2 = .error error) :
    ∃ before place after existing, places = before ++ place :: after ∧
      places.takeWhile (tree.isOpen handler) = before ∧
      tree.bound? place.1 place.2 = some existing ∧ existing.handler ≠ handler ∧
      error = .duplicate place.2 (render place.1) existing.pattern := by
  induction places generalizing tree with
  | nil => cases refused
  | cons place rest induction =>
      rw [List.forall_mem_cons] at proper
      rw [bindAll] at refused
      split at refused
      case h_1 next bound =>
        have isOpen := (tree.bind_isOk_iff place.1 place.2 handler).mp ⟨next, bound⟩
        have sameBeginning : rest.takeWhile (next.isOpen handler) =
            rest.takeWhile (tree.isOpen handler) :=
          takeWhile_congr fun other member => isOpen_bind proper.1 bound (proper.2 other member)
        rcases induction proper.2 refused with
          ⟨before, shut, after, existing, whole, beginning, known, different, rfl⟩
        have properShut : Proper shut.1 := proper.2 shut (by simp [whole])
        refine ⟨place :: before, shut, after, existing, by rw [whole]; rfl, ?_, ?_, different, rfl⟩
        · rw [List.takeWhile_cons_of_pos isOpen, ← sameBeginning, beginning]
        · -- What is bound on the way has the same handler, so it cannot be in the way.
          rw [bound?_bind proper.1 properShut bound] at known
          rcases Option.or_eq_some_iff.mp known with earlier | ⟨-, new⟩
          · exact earlier
          · split at new <;> cases new
            exact absurd rfl different
      case h_2 reason bound =>
        cases refused
        rcases bind_eq_error bound with ⟨existing, known, different, rfl⟩
        refine ⟨[], place, rest, existing, rfl, ?_, known, different, rfl⟩
        exact List.takeWhile_cons_of_neg (not_isOpen_of_bind_eq_error bound)

/-! ### Refused additions -/

theorem add_of_malformed (tree : Tree) {addition : Addition}
    (malformed : ¬ addition.Wellformed) :
    ∃ error, error.isInvalidPath = true ∧
      tree.add addition.methods addition.template addition.handler = (tree, .error error) := by
  rw [add]
  split
  case isTrue => exact ⟨_, rfl, rfl⟩
  case isFalse nonempty =>
    cases order : checkOrder addition.template false (segments addition.template) with
    | error error =>
        refine ⟨error, isInvalidPath_of_checkOrder order, ?_⟩
        rw [parse, order]
        rfl
    | ok => exact absurd ⟨by simpa using nonempty, order⟩ malformed

theorem add_of_wellformed (tree : Tree) {addition : Addition}
    (wellformed : addition.Wellformed) :
    tree.add addition.methods addition.template addition.handler =
      tree.bindAll addition.handler
        (places addition.methods (segments addition.template)) := by
  rw [add, if_neg (by simpa using wellformed.1), parse, wellformed.2]
  rfl

/-- What a refused addition leaves behind. If it has no methods or an invalid template, the tree is
as it was. Otherwise another handler has one of its places. The places before that one are bound,
and only if all of them were bound already do the size and the answers stay what they were. -/
theorem add_refused {tree next : Tree} {addition : Addition} {error : TreeError}
    (refused : tree.add addition.methods addition.template addition.handler =
      (next, .error error)) :
    (error.isInvalidPath = true ∧ ¬ addition.Wellformed ∧ next = tree) ∨
      ∃ before place after existing,
        addition.Wellformed ∧
        places addition.methods (segments addition.template) = before ++ place :: after ∧
        (∀ other ∈ before, tree.isOpen addition.handler other = true) ∧
        tree.bound? place.1 place.2 = some existing ∧ existing.handler ≠ addition.handler ∧
        error = .duplicate place.2 (render place.1) existing.pattern ∧
        (∀ steps, Proper steps → ∀ method,
          next.bound? steps method =
            (tree.bound? steps method).or
              ((before.find? (isAt steps method)).map fun other =>
                endpoint other.1 other.2 addition.handler)) ∧
        ((next.size = tree.size ∧
            ∀ method path, next.lookup method path = tree.lookup method path) ↔
          ∀ other ∈ before, (tree.bound? other.1 other.2).isSome = true) := by
  by_cases wellformed : addition.Wellformed
  · right
    rw [add_of_wellformed tree wellformed] at refused
    have made : (tree.bindAll addition.handler
        (places addition.methods (segments addition.template))).1 = next :=
      congrArg Prod.fst refused
    have proper := proper_of_mem_places addition.methods addition.template
    rcases bindAll_eq_error proper (congrArg Prod.snd refused) with
      ⟨before, place, after, existing, whole, beginning, known, different, rfl⟩
    refine ⟨before, place, after, existing, wellformed, whole, ?_, known, different, rfl, ?_, ?_⟩
    · rw [← beginning]
      exact fun other member => List.mem_takeWhile_imp member
    · intro steps properSteps method
      rw [← made, bound?_bindAll proper properSteps, beginning]
    · rw [← made, ← beginning, ← size_bindAll_eq_iff]
      refine ⟨And.left, fun same => ⟨same, fun method path => ?_⟩⟩
      rw [bindAll_eq_self (size_bindAll_eq_iff.mp same)]
  · left
    rcases add_of_malformed tree wellformed with ⟨reason, invalid, failed⟩
    rw [failed] at refused
    cases refused
    exact ⟨invalid, wellformed, rfl⟩

theorem add_refused_users :
    let tree := (empty.add [.get] "/users/:id" "show").1
    let addition : Addition := ⟨[.get], "/users/:name?", "list"⟩
    ∃ next error, tree.add addition.methods addition.template addition.handler =
        (next, .error error) ∧
      ((error.isInvalidPath = true ∧ ¬ addition.Wellformed ∧ next = tree) ∨
        ∃ before place after existing,
          addition.Wellformed ∧
          places addition.methods (segments addition.template) = before ++ place :: after ∧
          (∀ other ∈ before, tree.isOpen addition.handler other = true) ∧
          tree.bound? place.1 place.2 = some existing ∧ existing.handler ≠ addition.handler ∧
          error = .duplicate place.2 (render place.1) existing.pattern ∧
          (∀ steps, Proper steps → ∀ method,
            next.bound? steps method =
              (tree.bound? steps method).or
                ((before.find? (isAt steps method)).map fun other =>
                  endpoint other.1 other.2 addition.handler)) ∧
          ((next.size = tree.size ∧
              ∀ method path, next.lookup method path = tree.lookup method path) ↔
            ∀ other ∈ before, (tree.bound? other.1 other.2).isSome = true)) := by
  have refused : (((empty.add [.get] "/users/:id" "show").1.add [.get] "/users/:name?" "list").2) =
      .error (.duplicate .get "/users/:name" "/users/:id") := by
    decide
  exact ⟨_, _, Prod.ext rfl refused, add_refused (Prod.ext rfl refused)⟩

/-- One method of an addition is taken, and the other one is bound although the addition fails. -/
theorem add_refused_binds_free_method :
    let tree := (empty.add [.post] "/a" "first").1
    let next := (tree.add [.get, .post] "/a" "second").1
    (tree.add [.get, .post] "/a" "second").2 = .error (.duplicate .post "/a" "/a") ∧
      tree.size = 1 ∧ next.size = 2 ∧
      tree.lookup "GET" "/a" = .methodNotAllowed [.post] ∧
      next.lookup "GET" "/a" =
        .found { method := .get, handler := "second", captures := [], pattern := "/a" } .empty := by
  decide

end UrlRouting.Tree
