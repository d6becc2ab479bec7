import Mathlib.Data.List.Basic
import UrlRouting.Tree.Lookup
import UrlRouting.Proofs.Tree.Places

/-!
Lookups in terms of what a tree holds. The walk through the nodes visits the places that fit a path
in the order of `fitting`, so the place found is the preferred one among those that answer the
method; the methods a tree knows for a path decide which kind of answer is given.
-/

namespace UrlRouting

open Template

/-! ### Methods added up -/

namespace Method

theorem ofName?_eq_some_iff {text : String} {method : Method} :
    ofName? text = some method ↔ method.name = text :=
  ⟨name_of_ofName?, fun equal => equal ▸ ofName?_name method⟩

theorem addMissing_cons (methods : List Method) (method : Method) (more : List Method) :
    addMissing methods (method :: more) =
      addMissing (if method ∈ methods then methods else methods ++ [method]) more := rfl

theorem mem_addMissing {methods more : List Method} {method : Method} :
    method ∈ addMissing methods more ↔ method ∈ methods ∨ method ∈ more := by
  induction more generalizing methods with
  | nil => simp [addMissing]
  | cons first rest induction =>
      rw [addMissing_cons, induction]
      by_cases known : first ∈ methods
      · rw [if_pos known, List.mem_cons]
        constructor
        · intro given
          rcases given with inMethods | inRest
          · exact .inl inMethods
          · exact .inr (.inr inRest)
        · intro given
          rcases given with inMethods | rfl | inRest
          · exact .inl inMethods
          · exact .inl known
          · exact .inr inRest
      · rw [if_neg known, List.mem_append, List.mem_singleton, List.mem_cons, or_assoc]

theorem nodup_addMissing {methods : List Method} (more : List Method) (nodup : methods.Nodup) :
    (addMissing methods more).Nodup := by
  induction more generalizing methods with
  | nil => exact nodup
  | cons first rest induction =>
      rw [addMissing_cons]
      apply induction
      split
      case isTrue => exact nodup
      case isFalse absent =>
        rw [List.nodup_append]
        refine ⟨nodup, by simp, ?_⟩
        intro method member other last
        rw [List.mem_singleton] at last
        subst last
        exact fun equal => absent (equal ▸ member)

end Method

theorem Endpoint.find?_isSome_iff {endpoints : List Endpoint} {method : Method} :
    (Endpoint.find? endpoints method).isSome = true ↔
      ∃ endpoint ∈ endpoints, endpoint.method = method := by
  simp [Endpoint.find?, List.find?_isSome]

namespace Tree

def methodsAt (tree : Tree) (path : String) : List Method :=
  allowed (tree.candidates path)

private theorem mem_foldl_addMissing {candidates : List Candidate} {methods : List Method}
    {method : Method} :
    method ∈ candidates.foldl (fun methods candidate =>
        Method.addMissing methods (candidate.endpoints.map Endpoint.method)) methods ↔
      method ∈ methods ∨ ∃ candidate ∈ candidates, ∃ endpoint ∈ candidate.endpoints,
        endpoint.method = method := by
  induction candidates generalizing methods with
  | nil => simp
  | cons candidate rest induction =>
      rw [List.foldl_cons, induction, Method.mem_addMissing, List.mem_map, or_assoc]
      simp

theorem mem_allowed {candidates : List Candidate} {method : Method} :
    method ∈ allowed candidates ↔
      ∃ candidate ∈ candidates, ∃ endpoint ∈ candidate.endpoints, endpoint.method = method := by
  rw [allowed, mem_foldl_addMissing]
  simp

theorem nodup_allowed (candidates : List Candidate) : (allowed candidates).Nodup := by
  rw [allowed]
  generalize start : ([] : List Method) = methods
  have nodup : methods.Nodup := start ▸ List.nodup_nil
  clear start
  induction candidates generalizing methods with
  | nil => exact nodup
  | cons candidate rest induction => exact induction _ (Method.nodup_addMissing _ nodup)

theorem nodup_methodsAt (tree : Tree) (path : String) : (tree.methodsAt path).Nodup :=
  nodup_allowed _

/-! ### The three kinds of answers -/

theorem answer?_eq_some_iff {method : String} {candidate : Candidate} {endpoint : Endpoint}
    {parameters : Table String} :
    answer? (Method.ofName? method) candidate = some (endpoint, parameters) ↔
      ∃ asked, asked.name = method ∧ Endpoint.find? candidate.endpoints asked = some endpoint ∧
        parameters = .ofList (endpoint.captures.zip candidate.values) := by
  simp only [answer?, Option.bind_eq_bind, Option.bind_eq_some_iff, Option.pure_def,
    Option.some.injEq, Prod.mk.injEq, Method.ofName?_eq_some_iff]
  constructor
  · intro given
    rcases given with ⟨asked, named, found, bound, rfl, rfl⟩
    exact ⟨asked, named, bound, rfl⟩
  · intro given
    rcases given with ⟨asked, named, bound, rfl⟩
    exact ⟨asked, named, endpoint, bound, rfl, rfl⟩

theorem exists_answer_iff {tree : Tree} {method path : String} :
    ((tree.candidates path).findSome? (answer? (Method.ofName? method))).isSome = true ↔
      ∃ asked ∈ tree.methodsAt path, asked.name = method := by
  rw [List.findSome?_isSome_iff]
  constructor
  · intro given
    rcases given with ⟨candidate, member, answers⟩
    rcases Option.isSome_iff_exists.mp answers with ⟨⟨endpoint, parameters⟩, answer⟩
    rcases answer?_eq_some_iff.mp answer with ⟨asked, named, bound, -⟩
    have known := Endpoint.find?_isSome_iff.mp (Option.isSome_iff_exists.mpr ⟨endpoint, bound⟩)
    exact ⟨asked, mem_allowed.mpr ⟨candidate, member, known⟩, named⟩
  · intro given
    rcases given with ⟨asked, known, named⟩
    rcases mem_allowed.mp known with ⟨candidate, member, answers⟩
    rcases Option.isSome_iff_exists.mp (Endpoint.find?_isSome_iff.mpr answers) with
      ⟨endpoint, bound⟩
    exact ⟨candidate, member, Option.isSome_iff_exists.mpr
      ⟨(endpoint, _), answer?_eq_some_iff.mpr ⟨asked, named, bound, rfl⟩⟩⟩

theorem lookup_eq (tree : Tree) (method path : String) :
    tree.lookup method path =
      match (tree.candidates path).findSome? (answer? (Method.ofName? method)) with
      | some (endpoint, parameters) => .found endpoint parameters
      | none =>
          if (tree.methodsAt path).isEmpty then .notFound
          else .methodNotAllowed (tree.methodsAt path) := rfl

theorem lookup_isFound_iff {tree : Tree} {method path : String} :
    (∃ endpoint parameters, tree.lookup method path = .found endpoint parameters) ↔
      ∃ asked ∈ tree.methodsAt path, asked.name = method := by
  rw [← exists_answer_iff, lookup_eq]
  split
  case h_1 endpoint parameters found => simp [found]
  case h_2 missing =>
    rw [missing]
    split <;> simp

theorem lookup_eq_methodNotAllowed_iff {tree : Tree} {method path : String}
    {methods : List Method} :
    tree.lookup method path = .methodNotAllowed methods ↔
      methods = tree.methodsAt path ∧ methods ≠ [] ∧ ∀ asked ∈ methods, asked.name ≠ method := by
  have answered := @exists_answer_iff tree method path
  rw [lookup_eq]
  split
  case h_1 endpoint parameters found =>
    rw [found] at answered
    rcases answered.mp rfl with ⟨asked, known, named⟩
    simp only [reduceCtorEq, false_iff]
    intro given
    rcases given with ⟨rfl, -, others⟩
    exact others asked known named
  case h_2 missing =>
    rw [missing] at answered
    have others : ∀ asked ∈ tree.methodsAt path, asked.name ≠ method := fun asked known named =>
      absurd (answered.mpr ⟨asked, known, named⟩) (by simp)
    split
    case isTrue empty =>
      simp only [reduceCtorEq, false_iff]
      intro given
      rcases given with ⟨rfl, nonempty, -⟩
      exact nonempty (List.isEmpty_iff.mp empty)
    case isFalse nonempty =>
      rw [Lookup.methodNotAllowed.injEq]
      constructor
      · intro equal
        subst equal
        exact ⟨rfl, fun empty => nonempty (List.isEmpty_iff.mpr empty), others⟩
      · intro given
        rcases given with ⟨rfl, -, -⟩
        rfl

theorem lookup_eq_notFound_iff {tree : Tree} {method path : String} :
    tree.lookup method path = .notFound ↔ tree.methodsAt path = [] := by
  have answered := @exists_answer_iff tree method path
  rw [lookup_eq]
  split
  case h_1 endpoint parameters found =>
    rw [found] at answered
    rcases answered.mp rfl with ⟨asked, known, -⟩
    simp [List.ne_nil_of_mem known]
  case h_2 =>
    split
    case isTrue empty => simpa using empty
    case isFalse nonempty => simpa using nonempty

/-! ### The walk through the nodes -/

/-- The texts that the captures of a fitting step sequence take from a path with these pieces. -/
def captured (path : String) : List Step → List Path.Piece → List String
  | .static _ :: steps, _ :: pieces => captured path steps pieces
  | .capture _ :: steps, piece :: pieces => piece.text :: captured path steps pieces
  | .wildcard _ :: _, piece :: pieces => [Path.sliceFrom path piece pieces]
  | _, _ => []

theorem captured_map_static (path : String) (texts : List String) (pieces : List Path.Piece) :
    captured path (texts.map Step.static) pieces = [] := by
  induction texts generalizing pieces with
  | nil => rfl
  | cons text rest induction =>
      cases pieces with
      | nil => rfl
      | cons piece others => exact induction others

end Tree

theorem Candidate.mem_ofEndpoints {candidate : Candidate} {endpoints : List Endpoint}
    {values : List String} :
    candidate ∈ ofEndpoints endpoints values ↔
      endpoints ≠ [] ∧ candidate = ⟨endpoints, values⟩ := by
  rw [ofEndpoints]
  split
  case isTrue empty => simp [List.isEmpty_iff.mp empty]
  case isFalse nonempty => simpa using fun _ empty => nonempty (List.isEmpty_iff.mpr empty)

theorem Candidate.map_capture_ofEndpoints (value : String) (endpoints : List Endpoint)
    (values : List String) :
    (Candidate.ofEndpoints endpoints values).map (Candidate.capture value) =
      Candidate.ofEndpoints endpoints (value :: values) := by
  rw [ofEndpoints, ofEndpoints]
  split <;> rfl

/-- The walk visits the fitting places of a node in order of preference and no others. -/
theorem Node.candidates_eq (path : String) (node : Node) (pieces : List Path.Piece) :
    node.candidates path pieces =
      (fitting (pieces.map Path.Piece.text)).flatMap fun steps =>
        Candidate.ofEndpoints (node.endpointsAt steps) (Tree.captured path steps pieces) := by
  induction pieces generalizing node with
  | nil => simp [candidates, fitting, Tree.captured, endpointsAt]
  | cons piece rest induction =>
      simp only [candidates, List.map_cons, fitting, List.flatMap_append, List.flatMap_map,
        List.flatMap_singleton]
      congr 1
      · congr 1
        · simp only [endpointsAt_cons, next?, Tree.captured]
          cases node.child? piece.text with
          | none => simp [Candidate.ofEndpoints]
          | some child => simp [induction]
        · simp only [endpointsAt_cons, next?, Tree.captured]
          cases node.captureChild with
          | none => simp [Candidate.ofEndpoints]
          | some child => simp [induction, List.map_flatMap, Candidate.map_capture_ofEndpoints]
      · simp only [endpointsAt_cons, next?, Tree.captured]
        cases node.wildcardChild with
        | none => simp [Candidate.ofEndpoints]
        | some child => simp [endpointsAt]

namespace Tree

theorem candidates_eq {tree : Tree} (divided : tree.Divided) (path : String) :
    tree.candidates path =
      (fitting (Path.texts path)).flatMap fun steps =>
        Candidate.ofEndpoints (tree.endpointsAt steps)
          (captured path steps (Path.pieces path)) := by
  rcases fitting_eq_cons (Path.texts path) with ⟨others, whole, capturing⟩
  have static := names_map_static (Path.texts path)
  have inTable : (tree.static.get? (Path.normalForm path)).getD [] =
      tree.endpointsAt ((Path.texts path).map Step.static) := by
    simp [endpointsAt, static, render_map_static, Path.normalForm_eq_ofPieces]
  have inNodes : ∀ steps ∈ others, tree.root.endpointsAt steps = tree.endpointsAt steps :=
    fun steps member => by simp [endpointsAt, capturing steps member]
  rw [candidates, Node.candidates_eq, Path.texts_pieces, whole, List.flatMap_cons,
    List.flatMap_cons, divided _ static, inTable, captured_map_static]
  congr 1
  exact List.flatMap_congr fun steps member => by rw [inNodes steps member]

theorem mem_methodsAt_iff {tree : Tree} (divided : tree.Divided) {path : String}
    {method : Method} :
    method ∈ tree.methodsAt path ↔
      ∃ steps ∈ fitting (Path.texts path), (tree.bound? steps method).isSome = true := by
  simp only [methodsAt, mem_allowed, candidates_eq divided, List.mem_flatMap,
    Candidate.mem_ofEndpoints, bound?, Endpoint.find?_isSome_iff]
  constructor
  · intro given
    rcases given with ⟨candidate, ⟨steps, fits, -, rfl⟩, answers⟩
    exact ⟨steps, fits, answers⟩
  · intro given
    rcases given with ⟨steps, fits, endpoint, bound, answers⟩
    exact ⟨_, ⟨steps, fits, List.ne_nil_of_mem bound, rfl⟩, endpoint, bound, answers⟩

theorem findSome?_answer?_ofEndpoints (method : String) (endpoints : List Endpoint)
    (values : List String) :
    (Candidate.ofEndpoints endpoints values).findSome? (answer? (Method.ofName? method)) =
      answer? (Method.ofName? method) ⟨endpoints, values⟩ := by
  rw [Candidate.ofEndpoints]
  split
  case isTrue empty =>
    rw [List.isEmpty_iff.mp empty]
    cases Method.ofName? method <;> rfl
  case isFalse => simp

theorem findSome?_flatMap {α : Type u} {β : Type v} {γ : Type w} (search : β → Option γ)
    (transform : α → List β) (values : List α) :
    (values.flatMap transform).findSome? search =
      values.findSome? fun value => (transform value).findSome? search := by
  induction values with
  | nil => rfl
  | cons value rest induction =>
      rw [List.flatMap_cons, List.findSome?_append, induction, List.findSome?_cons]
      cases (transform value).findSome? search <;> rfl

/-- The endpoint found is that of the preferred place among those that answer the method. -/
theorem lookup_eq_found {tree : Tree} (divided : tree.Divided) {method path : String}
    {endpoint : Endpoint} {parameters : Table String}
    (found : tree.lookup method path = .found endpoint parameters) :
    ∃ asked steps, asked.name = method ∧ steps ∈ fitting (Path.texts path) ∧
      tree.bound? steps asked = some endpoint ∧
      parameters =
        .ofList (endpoint.captures.zip (captured path steps (Path.pieces path))) ∧
      ∀ other ∈ fitting (Path.texts path), (tree.bound? other asked).isSome = true →
        other = steps ∨ Precedes steps other := by
  rw [lookup_eq] at found
  split at found
  case h_2 => split at found <;> cases found
  case h_1 answer =>
    cases found
    rw [candidates_eq divided, findSome?_flatMap, List.findSome?_eq_some_iff] at answer
    rcases answer with ⟨before, steps, after, whole, here, earlier⟩
    rw [findSome?_answer?_ofEndpoints, answer?_eq_some_iff] at here
    rcases here with ⟨asked, named, bound, rfl⟩
    have sorted := fitting_sorted (Path.texts path)
    rw [whole] at sorted ⊢
    refine ⟨asked, steps, named, by simp, bound, rfl, ?_⟩
    intro other member answers
    rcases List.mem_append.mp member with inBefore | inRest
    · rcases Option.isSome_iff_exists.mp answers with ⟨existing, known⟩
      have accepted : answer? (Method.ofName? method)
          ⟨tree.endpointsAt other, captured path other (Path.pieces path)⟩ = some (existing, _) :=
        answer?_eq_some_iff.mpr ⟨asked, named, known, rfl⟩
      have refused := earlier other inBefore
      rw [findSome?_answer?_ofEndpoints, accepted] at refused
      cases refused
    · rcases List.mem_cons.mp inRest with equal | inAfter
      · exact .inl equal
      · have later := (List.pairwise_append.mp sorted).2.1
        exact .inr (List.rel_of_pairwise_cons later inAfter)

end Tree

end UrlRouting
