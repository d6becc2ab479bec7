import UrlRouting.Dispatch
import UrlRouting.Proofs.Tree.Lookup

/-!
Requests to a dispatch set in terms of its three tiers. Whether a route answers depends on the exact
tree of the host alone if that knows the path; otherwise either of the other two may answer, except
that a route of hosts with variables must mean the host as well. The methods a refusal lists are
those that the trees know, so a listed method is answered unless that exception is met.
-/

namespace UrlRouting

namespace Lookup

def allowed : Lookup → List Method
  | methodNotAllowed allowed => allowed
  | _ => []

end Lookup

namespace DispatchSet

def methodsAt (tree : Option Tree) (path : String) : List Method :=
  (tree.map fun tree => tree.methodsAt path).getD []

variable {set : DispatchSet} {tree : Option Tree} {host method path : String}

theorem lookupTree_isFound_iff :
    (∃ endpoint captured, lookupTree tree method path = .found endpoint captured) ↔
      ∃ asked ∈ methodsAt tree path, asked.name = method := by
  cases tree with
  | none => simp [lookupTree, methodsAt]
  | some tree => exact Tree.lookup_isFound_iff

theorem lookupTree_eq_methodNotAllowed_iff {allowed : List Method} :
    lookupTree tree method path = .methodNotAllowed allowed ↔
      allowed = methodsAt tree path ∧ allowed ≠ [] ∧ ∀ asked ∈ allowed, asked.name ≠ method := by
  cases tree with
  | none =>
      constructor
      · intro refused
        cases refused
      · intro given
        rcases given with ⟨known, nonempty, -⟩
        exact absurd known nonempty
  | some tree => exact Tree.lookup_eq_methodNotAllowed_iff

theorem lookupTree_eq_notFound_iff :
    lookupTree tree method path = .notFound ↔ methodsAt tree path = [] := by
  cases tree with
  | none => simp [lookupTree, methodsAt]
  | some tree => exact Tree.lookup_eq_notFound_iff

theorem lookupExact_eq (set : DispatchSet) (host method path : String) :
    set.lookupExact host method path = lookupTree (set.hosts.get? host) method path := rfl

theorem lookupExact_eq_notFound_congr (other : String)
    (unknown : set.lookupExact host method path = .notFound) :
    set.lookupExact host other path = .notFound := by
  rw [lookupExact_eq, lookupTree_eq_notFound_iff] at unknown ⊢
  exact unknown

theorem nodup_methodsAt (tree : Option Tree) (path : String) : (methodsAt tree path).Nodup := by
  cases tree with
  | none => exact List.nodup_nil
  | some tree => exact tree.nodup_methodsAt path

theorem mem_allowed_lookupTree {asked : Method}
    (member : asked ∈ (lookupTree tree method path).allowed) :
    asked ∈ methodsAt tree path ∧ asked.name ≠ method := by
  cases answer : lookupTree tree method path with
  | found endpoint captured => simp [answer, Lookup.allowed] at member
  | notFound => simp [answer, Lookup.allowed] at member
  | methodNotAllowed allowed =>
      rcases lookupTree_eq_methodNotAllowed_iff.mp answer with ⟨rfl, -, others⟩
      rw [answer] at member
      exact ⟨member, others asked member⟩

theorem nodup_allowed_lookupTree : (lookupTree tree method path).allowed.Nodup := by
  cases answer : lookupTree tree method path with
  | found endpoint captured => exact List.nodup_nil
  | notFound => exact List.nodup_nil
  | methodNotAllowed allowed =>
      rcases lookupTree_eq_methodNotAllowed_iff.mp answer with ⟨rfl, -, -⟩
      exact nodup_methodsAt tree path

/-! ### The kinds of answers -/

/-- Whether a route of hosts with variables answers that means the host. -/
def AnswersFolded (set : DispatchSet) (host method path : String) : Prop :=
  ∃ endpoint captured,
    lookupTree set.parameterized method (Host.foldedPath host path) = .found endpoint captured ∧
      set.hostAccepted endpoint.handler host = true

def AnswersAny (set : DispatchSet) (method path : String) : Prop :=
  ∃ endpoint captured, lookupTree set.anyHost method path = .found endpoint captured

def anyHostAnswer (set : DispatchSet) (method path : String) (earlier : List Method) :
    MatchResult :=
  match lookupTree set.anyHost method path with
  | .found endpoint captured => set.success endpoint.handler captured
  | .methodNotAllowed more => .methodNotAllowed (Method.addMissing earlier more)
  | .notFound => if earlier.isEmpty then .notFound else .methodNotAllowed earlier

theorem lookup_of_unknown (unknown : set.lookupExact host method path = .notFound) :
    set.lookup host method path =
      match lookupTree set.parameterized method (Host.foldedPath host path) with
      | .found endpoint captured =>
          if set.hostAccepted endpoint.handler host then set.success endpoint.handler captured
          else set.anyHostAnswer method path []
      | .methodNotAllowed earlier => set.anyHostAnswer method path earlier
      | .notFound => set.anyHostAnswer method path [] := by
  rw [lookup, unknown]
  rfl

theorem anyHostAnswer_isSuccess_iff {earlier : List Method} :
    (set.anyHostAnswer method path earlier).isSuccess = true ↔ set.AnswersAny method path := by
  rw [anyHostAnswer, AnswersAny]
  cases lookupTree set.anyHost method path with
  | found endpoint captured => simp [success, MatchResult.isSuccess]
  | methodNotAllowed more => simp [MatchResult.isSuccess]
  | notFound =>
      simp only
      split <;> simp [MatchResult.isSuccess]

theorem allowed_of_anyHostAnswer {earlier allowed : List Method}
    (refused : set.anyHostAnswer method path earlier = .methodNotAllowed allowed) :
    allowed ≠ [] ∧
      allowed = Method.addMissing earlier (lookupTree set.anyHost method path).allowed := by
  rw [anyHostAnswer] at refused
  cases answer : lookupTree set.anyHost method path with
  | found endpoint captured =>
      rw [answer] at refused
      cases refused
  | methodNotAllowed more =>
      rw [answer] at refused
      cases refused
      rcases lookupTree_eq_methodNotAllowed_iff.mp answer with ⟨-, nonempty, -⟩
      rcases List.exists_mem_of_ne_nil more nonempty with ⟨asked, member⟩
      exact ⟨List.ne_nil_of_mem (Method.mem_addMissing.mpr (.inr member)), rfl⟩
  | notFound =>
      simp only [answer] at refused
      split at refused
      case isTrue => cases refused
      case isFalse nonempty =>
        cases refused
        exact ⟨by simpa using nonempty, rfl⟩

theorem lookup_isSuccess_iff :
    (set.lookup host method path).isSuccess = true ↔
      (∃ endpoint captured, set.lookupExact host method path = .found endpoint captured) ∨
        (set.lookupExact host method path = .notFound ∧
          (set.AnswersFolded host method path ∨ set.AnswersAny method path)) := by
  cases exact : set.lookupExact host method path with
  | found endpoint captured => simp [lookup, exact, success, MatchResult.isSuccess]
  | methodNotAllowed allowed => simp [lookup, exact, MatchResult.isSuccess]
  | notFound =>
      rw [lookup_of_unknown exact, AnswersFolded]
      cases folded : lookupTree set.parameterized method (Host.foldedPath host path) with
      | found endpoint captured =>
          cases accepted : set.hostAccepted endpoint.handler host with
          | true => simp [success, MatchResult.isSuccess, accepted]
          | false => simp [anyHostAnswer_isSuccess_iff, accepted]
      | methodNotAllowed earlier => simp [anyHostAnswer_isSuccess_iff]
      | notFound => simp [anyHostAnswer_isSuccess_iff]

theorem allowed_of_lookup {allowed : List Method}
    (refused : set.lookup host method path = .methodNotAllowed allowed) :
    set.lookupExact host method path = .methodNotAllowed allowed ∨
      (set.lookupExact host method path = .notFound ∧ allowed ≠ [] ∧
        allowed = Method.addMissing
          (lookupTree set.parameterized method (Host.foldedPath host path)).allowed
          (lookupTree set.anyHost method path).allowed) := by
  cases exact : set.lookupExact host method path with
  | found endpoint captured =>
      rw [lookup, exact] at refused
      cases refused
  | methodNotAllowed others =>
      rw [lookup, exact] at refused
      cases refused
      exact .inl rfl
  | notFound =>
      rw [lookup_of_unknown exact] at refused
      right
      refine ⟨rfl, ?_⟩
      cases folded : lookupTree set.parameterized method (Host.foldedPath host path) with
      | found endpoint captured =>
          simp only [folded] at refused
          split at refused
          case isTrue => cases refused
          case isFalse => exact allowed_of_anyHostAnswer refused
      | methodNotAllowed earlier =>
          simp only [folded] at refused
          exact allowed_of_anyHostAnswer refused
      | notFound =>
          simp only [folded] at refused
          exact allowed_of_anyHostAnswer refused

/-- Whether all that a set knows for a method of a path is a route of hosts with variables that does
not mean the host. -/
structure OnlyRejected (set : DispatchSet) (host method path : String) : Prop where
  unknown : set.lookupExact host method path = .notFound
  unanswered : ¬ set.AnswersAny method path
  rejected : ∃ endpoint captured,
    lookupTree set.parameterized method (Host.foldedPath host path) = .found endpoint captured ∧
      set.hostAccepted endpoint.handler host = false

/-- What a refusal says: it lists some methods, each once and not the one asked for, and each is
answered unless only a route that does not mean the host is known for it. -/
theorem truth_of_refusal {allowed : List Method}
    (refused : set.lookup host method path = .methodNotAllowed allowed) :
    allowed ≠ [] ∧ allowed.Nodup ∧ (∀ asked ∈ allowed, asked.name ≠ method) ∧
      ∀ asked ∈ allowed,
        (set.lookup host asked.name path).isSuccess = true ↔
          ¬ set.OnlyRejected host asked.name path := by
  rcases allowed_of_lookup refused with exact | ⟨unknown, nonempty, rfl⟩
  · rw [lookupExact_eq] at exact
    rcases lookupTree_eq_methodNotAllowed_iff.mp exact with ⟨rfl, nonempty, others⟩
    refine ⟨nonempty, nodup_methodsAt _ _, others, fun asked member => ?_⟩
    have found := lookupTree_isFound_iff.mpr ⟨asked, member, rfl⟩
    refine iff_of_true (lookup_isSuccess_iff.mpr (.inl found)) fun only => ?_
    rcases found with ⟨endpoint, captured, equal⟩
    have unknown := only.unknown
    rw [lookupExact_eq, equal] at unknown
    cases unknown
  · refine ⟨nonempty, Method.nodup_addMissing _ nodup_allowed_lookupTree, ?_, ?_⟩
    · intro asked member
      rcases Method.mem_addMissing.mp member with inFolded | inAny
      · exact (mem_allowed_lookupTree inFolded).2
      · exact (mem_allowed_lookupTree inAny).2
    · intro asked member
      have stillUnknown : set.lookupExact host asked.name path = .notFound := by
        rw [lookupExact_eq, lookupTree_eq_notFound_iff] at unknown ⊢
        exact unknown
      have answered : (set.lookup host asked.name path).isSuccess = true ↔
          set.AnswersFolded host asked.name path ∨ set.AnswersAny asked.name path := by
        rw [lookup_isSuccess_iff, stillUnknown]
        simp
      rw [answered]
      constructor
      · intro answers only
        rcases answers with ⟨endpoint, captured, found, accepted⟩ | inAny
        · rcases only.rejected with ⟨other, others, foundToo, rejected⟩
          rw [found] at foundToo
          cases foundToo
          rw [accepted] at rejected
          cases rejected
        · exact only.unanswered inAny
      · intro notOnly
        by_cases inAny : set.AnswersAny asked.name path
        · exact .inr inAny
        · left
          rcases Method.mem_addMissing.mp member with inFolded | known
          · rcases lookupTree_isFound_iff.mpr
              ⟨asked, (mem_allowed_lookupTree inFolded).1, rfl⟩ with ⟨endpoint, captured, found⟩
            refine ⟨endpoint, captured, found, ?_⟩
            rw [← Bool.not_eq_false]
            exact fun rejected => notOnly ⟨stillUnknown, inAny, endpoint, captured, found, rejected⟩
          · exact absurd (lookupTree_isFound_iff.mpr ⟨asked, (mem_allowed_lookupTree known).1, rfl⟩)
              inAny

end DispatchSet

end UrlRouting
