import Mathlib.Data.List.TakeWhile
import UrlRouting.Proofs.Tree.Lookup

/-!
Trees that are made by adding templates. Each addition claims a handler for its methods at the
places its template stands for, and a place answers a method by the first claim on it. From this
follows what a lookup in such a tree decides: which templates fit the path, and which of them is
preferred.
-/

namespace UrlRouting

open Template

structure Addition where
  methods : List Method
  template : String
  handler : String

/-- A handler claimed for a place and a method. -/
structure Claim where
  place : List Step × Method
  handler : String

namespace Claim

def endpoint (claim : Claim) : Endpoint :=
  Tree.endpoint claim.place.1 claim.place.2 claim.handler

def Matches (claim : Claim) (path : String) : Prop :=
  StepsFit claim.place.1 (Path.texts path)

/-- Whether a claim is one that a lookup prefers: it answers the method, fits the path, and no claim
that does so has kinds of steps that come before its own. -/
structure Preferred (claims : List Claim) (method path : String) (claim : Claim) : Prop where
  answers : claim.place.2.name = method
  fits : claim.Matches path
  least : ∀ other ∈ claims, other.place.2.name = method → other.Matches path →
    ¬ Precedes other.place.1 claim.place.1

end Claim

namespace Addition

def claims (addition : Addition) : List Claim :=
  (Tree.places addition.methods (segments addition.template)).map fun place =>
    { place, handler := addition.handler }

def Matches (addition : Addition) (path : String) : Prop :=
  Fits (segments addition.template) (Path.texts path)

def Answers (addition : Addition) (method : String) : Prop :=
  ∃ asked ∈ addition.methods, asked.name = method

def Wellformed (addition : Addition) : Prop :=
  addition.methods ≠ [] ∧
    checkOrder addition.template false (segments addition.template) = .ok ()

theorem mem_claims_iff {addition : Addition} {claim : Claim} :
    claim ∈ addition.claims ↔
      claim.place.1 ∈ expand (segments addition.template) ∧
        claim.place.2 ∈ addition.methods ∧ claim.handler = addition.handler := by
  rcases claim with ⟨⟨steps, method⟩, handler⟩
  simp only [claims, Tree.places, List.mem_map, List.mem_flatMap, Claim.mk.injEq]
  constructor
  · intro given
    rcases given with ⟨place, ⟨steps, member, method, known, rfl⟩, equal, rfl⟩
    cases equal
    exact ⟨member, known, rfl⟩
  · intro given
    rcases given with ⟨member, known, rfl⟩
    exact ⟨(steps, method), ⟨steps, member, method, known, rfl⟩, rfl, rfl⟩

end Addition

namespace Tree

/-- A tree with some templates added in turn, if none of the additions fails. -/
def addAll (tree : Tree) : List Addition → Except TreeError Tree
  | [] => .ok tree
  | addition :: rest =>
      match tree.add addition.methods addition.template addition.handler with
      | (next, .ok _) => next.addAll rest
      | (_, .error error) => .error error

theorem addAll_append (tree : Tree) (first second : List Addition) :
    tree.addAll (first ++ second) =
      (tree.addAll first).bind fun next => next.addAll second := by
  induction first generalizing tree with
  | nil => rfl
  | cons addition rest induction =>
      rw [List.cons_append, addAll, addAll]
      split
      case h_1 next _ _ => exact induction next
      case h_2 => rfl

theorem proper_of_mem_places (methods : List Method) (template : String) :
    ∀ place ∈ places methods (segments template), Proper place.1 := by
  intro place member
  rcases List.mem_flatMap.mp member with ⟨steps, expanded, inPlaces⟩
  rcases List.mem_map.mp inPlaces with ⟨method, -, rfl⟩
  exact proper_of_mem_expand expanded

theorem add_eq_ok {tree next : Tree} {addition : Addition}
    (added : tree.add addition.methods addition.template addition.handler = (next, .ok ())) :
    addition.Wellformed ∧
      next = (tree.bindAll addition.handler
        (places addition.methods (segments addition.template))).1 ∧
      ∀ place ∈ places addition.methods (segments addition.template),
        tree.isOpen addition.handler place = true := by
  rw [add] at added
  split at added
  case isTrue => cases added
  case isFalse nonempty =>
    cases order : checkOrder addition.template false (segments addition.template) with
    | error error => simp [parse, order, Bind.bind, Except.bind] at added
    | ok =>
        simp only [parse, order, Bind.bind, Except.bind, pure, Except.pure] at added
        refine ⟨⟨by simpa using nonempty, order⟩, by rw [added], ?_⟩
        rw [← bindAll_isOk_iff (proper_of_mem_places _ _), added]

/-- A tree that holds just what some claims ask for, the first claim on a place having it. -/
structure Records (tree : Tree) (claims : List Claim) : Prop where
  divided : tree.Divided
  proper : ∀ claim ∈ claims, Proper claim.place.1
  first : ∀ steps, Proper steps → ∀ method,
    tree.bound? steps method =
      (claims.find? fun claim => isAt steps method claim.place).map Claim.endpoint
  agreed : ∀ claim ∈ claims, ∃ endpoint,
    tree.bound? claim.place.1 claim.place.2 = some endpoint ∧ endpoint.handler = claim.handler

theorem records_empty : empty.Records [] where
  divided := divided_empty
  proper := by simp
  first := by simp
  agreed := by simp

theorem bound?_add {tree next : Tree} {addition : Addition}
    (added : tree.add addition.methods addition.template addition.handler = (next, .ok ()))
    {steps : List Step} (proper : Proper steps) (method : Method) :
    next.bound? steps method =
      (tree.bound? steps method).or
        ((addition.claims.find? fun claim => isAt steps method claim.place).map
          Claim.endpoint) := by
  rcases add_eq_ok added with ⟨-, rfl, allOpen⟩
  rw [bound?_bindAll (proper_of_mem_places addition.methods addition.template) proper,
    List.takeWhile_eq_self_iff.mpr allOpen, Addition.claims, List.find?_map, Option.map_map]
  rfl

theorem records_add {tree next : Tree} {claims : List Claim} (records : tree.Records claims)
    {addition : Addition}
    (added : tree.add addition.methods addition.template addition.handler = (next, .ok ())) :
    next.Records (claims ++ addition.claims) := by
  have properNew : ∀ claim ∈ addition.claims, Proper claim.place.1 := fun claim member =>
    proper_of_mem_expand (Addition.mem_claims_iff.mp member).1
  refine ⟨?_, ?_, ?_, ?_⟩
  · rcases add_eq_ok added with ⟨-, rfl, -⟩
    exact divided_bindAll records.divided _ _
  · intro claim member
    rcases List.mem_append.mp member with earlier | new
    · exact records.proper claim earlier
    · exact properNew claim new
  · intro steps proper method
    rw [bound?_add added proper, records.first steps proper, List.find?_append, Option.map_or]
  · intro claim member
    rcases List.mem_append.mp member with earlier | new
    · rcases records.agreed claim earlier with ⟨endpoint, bound, same⟩
      exact ⟨endpoint, by rw [bound?_add added (records.proper claim earlier), bound]; rfl, same⟩
    · rcases add_eq_ok added with ⟨-, -, allOpen⟩
      rcases Addition.mem_claims_iff.mp new with ⟨-, -, sameHandler⟩
      rcases List.mem_map.mp new with ⟨place, inPlaces, rfl⟩
      have isOpen := allOpen place inPlaces
      rw [bound?_add added (properNew _ new)]
      cases before : tree.bound? place.1 place.2 with
      | some existing =>
          refine ⟨existing, rfl, ?_⟩
          simpa [Tree.isOpen, before] using isOpen
      | none =>
          cases found : addition.claims.find? fun claim => isAt place.1 place.2 claim.place with
          | none => exact absurd (List.find?_eq_none.mp found _ new) (by simp [isAt])
          | some first =>
              have inClaims := List.mem_of_find?_eq_some found
              exact ⟨first.endpoint, rfl, (Addition.mem_claims_iff.mp inClaims).2.2⟩

theorem records_addAll {tree final : Tree} {claims : List Claim} (records : tree.Records claims)
    {additions : List Addition} (added : tree.addAll additions = .ok final) :
    final.Records (claims ++ additions.flatMap Addition.claims) := by
  induction additions generalizing tree claims with
  | nil =>
      cases added
      simpa using records
  | cons addition rest induction =>
      rw [addAll] at added
      split at added
      case h_1 next done =>
        rw [List.flatMap_cons, ← List.append_assoc]
        exact induction (records_add records done) added
      case h_2 => cases added

theorem wellformed_of_addAll {tree final : Tree} {additions : List Addition}
    (added : tree.addAll additions = .ok final) :
    ∀ addition ∈ additions, addition.Wellformed := by
  induction additions generalizing tree with
  | nil => simp
  | cons addition rest induction =>
      rw [addAll] at added
      split at added
      case h_1 next done =>
        rw [List.forall_mem_cons]
        exact ⟨(add_eq_ok done).1, induction added⟩
      case h_2 => cases added

/-! ### What lookups decide -/

theorem Records.bound?_isSome_iff {tree : Tree} {claims : List Claim}
    (records : tree.Records claims) {steps : List Step} (proper : Proper steps)
    {method : Method} :
    (tree.bound? steps method).isSome = true ↔
      ∃ claim ∈ claims, isAt steps method claim.place = true := by
  rw [records.first steps proper method]
  simp [List.find?_isSome]

theorem proper_fitting {path : String} {steps : List Step}
    (member : steps ∈ fitting (Path.texts path)) : Proper steps :=
  proper_of_mem_fitting (fun _ member => Path.isPiece_of_mem_texts member) member

theorem Records.mem_methodsAt_iff {tree : Tree} {claims : List Claim}
    (records : tree.Records claims) {path : String} {method : Method} :
    method ∈ tree.methodsAt path ↔
      ∃ claim ∈ claims, claim.place.2 = method ∧ claim.Matches path := by
  rw [Tree.mem_methodsAt_iff records.divided]
  constructor
  · intro given
    rcases given with ⟨steps, fits, bound⟩
    rcases (records.bound?_isSome_iff (proper_fitting fits)).mp bound with ⟨claim, member, here⟩
    rcases isAt_iff.mp here with ⟨same, answers⟩
    refine ⟨claim, member, answers, stepsFit_iff_mem_fitting.mpr ?_⟩
    rwa [← same, nameless_of_mem_fitting fits]
  · intro given
    rcases given with ⟨claim, member, answers, fits⟩
    have inFitting := stepsFit_iff_mem_fitting.mp fits
    refine ⟨_, inFitting, (records.bound?_isSome_iff (proper_fitting inFitting)).mpr ?_⟩
    exact ⟨claim, member, isAt_iff.mpr ⟨nameless_nameless _, answers⟩⟩

theorem mem_methodsAt_addAll_iff {tree : Tree} {additions : List Addition}
    (added : empty.addAll additions = .ok tree) {path : String} {method : Method} :
    method ∈ tree.methodsAt path ↔
      ∃ addition ∈ additions, method ∈ addition.methods ∧ addition.Matches path := by
  rw [(records_addAll records_empty added).mem_methodsAt_iff]
  have matches_iff : ∀ addition ∈ additions, addition.Matches path ↔
      ∃ steps ∈ expand (segments addition.template), StepsFit steps (Path.texts path) :=
    fun addition inAdditions =>
      fits_iff_exists_mem_expand (wellformed_of_addAll added addition inAdditions).2
  constructor
  · intro given
    rcases given with ⟨claim, member, rfl, fits⟩
    rcases List.mem_flatMap.mp member with ⟨addition, inAdditions, inClaims⟩
    rcases Addition.mem_claims_iff.mp inClaims with ⟨expanded, known, -⟩
    exact ⟨addition, inAdditions, known, (matches_iff addition inAdditions).mpr ⟨_, expanded, fits⟩⟩
  · intro given
    rcases given with ⟨addition, inAdditions, known, fits⟩
    rcases (matches_iff addition inAdditions).mp fits with ⟨steps, expanded, stepsFit⟩
    refine ⟨⟨(steps, method), addition.handler⟩, ?_, rfl, stepsFit⟩
    exact List.mem_flatMap.mpr
      ⟨addition, inAdditions, Addition.mem_claims_iff.mpr ⟨expanded, known, rfl⟩⟩

theorem captured_congr (path : String) {left right : List Step}
    (same : nameless left = nameless right) (pieces : List Path.Piece) :
    captured path left pieces = captured path right pieces := by
  induction left generalizing right pieces with
  | nil =>
      cases right with
      | nil => rfl
      | cons step rest => cases same
  | cons step rest induction =>
      cases right with
      | nil => cases same
      | cons other others =>
          rcases List.cons.inj same with ⟨first, later⟩
          cases pieces with
          | nil => cases step <;> cases other <;> rfl
          | cons piece pieces =>
              have inner := induction later pieces
              cases step <;> cases other <;> simp_all [Step.nameless, captured]

/-- An endpoint found stems from the first of the preferred claims, which agree in the handler. -/
theorem Records.preferred_of_found {tree : Tree} {claims : List Claim}
    (records : tree.Records claims) {method path : String} {endpoint : Endpoint}
    {parameters : Table String} (found : tree.lookup method path = .found endpoint parameters) :
    ∃ before claim after, claims = before ++ claim :: after ∧
      claim.Preferred claims method path ∧ endpoint = claim.endpoint ∧
      (∀ other ∈ before, ¬ other.Preferred claims method path) ∧
      (∀ other ∈ claims, other.Preferred claims method path →
        other.handler = endpoint.handler) ∧
      parameters = .ofList ((names claim.place.1).zip
        (captured path claim.place.1 (Path.pieces path))) := by
  rcases lookup_eq_found records.divided found with
    ⟨asked, steps, named, fits, bound, rfl, preferred⟩
  have proper := proper_fitting fits
  have recorded := records.first steps proper asked
  rw [bound] at recorded
  rcases Option.map_eq_some_iff.mp recorded.symm with ⟨claim, first, rfl⟩
  rcases List.find?_eq_some_iff_append.mp first with ⟨here, before, after, whole, earlier⟩
  rcases isAt_iff.mp here with ⟨same, rfl⟩
  rw [nameless_of_mem_fitting fits] at same
  -- Every claim that fits and answers the method is at the place found or at one behind it.
  have behind : ∀ other ∈ claims, other.place.2.name = method → other.Matches path →
      isAt steps claim.place.2 other.place = true ∨
        Precedes claim.place.1 other.place.1 := by
    intro other member answers otherFits
    have answersSame : other.place.2 = claim.place.2 := by
      rw [← Option.some_inj, ← Method.ofName?_name, answers, ← named, Method.ofName?_name]
    have inFitting := stepsFit_iff_mem_fitting.mp otherFits
    have known : (tree.bound? (nameless other.place.1) claim.place.2).isSome = true :=
      (records.bound?_isSome_iff (proper_fitting inFitting)).mpr
        ⟨other, member, isAt_iff.mpr ⟨nameless_nameless _, answersSame⟩⟩
    rcases preferred _ inFitting known with equal | later
    · exact .inl (isAt_iff.mpr ⟨(nameless_of_mem_fitting fits).trans equal.symm, answersSame⟩)
    · exact .inr (precedes_nameless_iff.mp (same ▸ later))
  have claimPreferred : claim.Preferred claims method path := by
    refine ⟨named, stepsFit_iff_mem_fitting.mpr (same ▸ fits), ?_⟩
    intro other member answers otherFits less
    rcases behind other member answers otherFits with atSame | later
    · have samePlace : nameless claim.place.1 = nameless other.place.1 := by
        rw [← (isAt_iff.mp atSame).1, same, nameless_nameless]
      have itself : Precedes (nameless claim.place.1) (nameless claim.place.1) := by
        rw [← precedes_nameless_iff, ← samePlace] at less
        exact less
      exact itself.asymm itself
    · exact later.asymm less
  have atSame : ∀ other ∈ claims, other.Preferred claims method path →
      isAt steps claim.place.2 other.place = true := by
    intro other member otherPreferred
    rcases behind other member otherPreferred.answers otherPreferred.fits with here | later
    · exact here
    · have inClaims := List.mem_of_find?_eq_some first
      exact absurd later (otherPreferred.least claim inClaims named claimPreferred.fits)
  refine ⟨before, claim, after, whole, claimPreferred, rfl, ?_, ?_, ?_⟩
  · intro other inBefore otherPreferred
    have member : other ∈ claims := by simp [whole, inBefore]
    exact absurd (atSame other member otherPreferred) (by simpa using earlier other inBefore)
  · intro other member otherPreferred
    rcases isAt_iff.mp (atSame other member otherPreferred) with ⟨place, answers⟩
    rcases records.agreed other member with ⟨existing, known, handler⟩
    rw [answers, ← tree.bound?_congr place, bound] at known
    cases known
    exact handler.symm
  · rw [captured_congr path ((nameless_of_mem_fitting fits).trans same)]
    rfl

theorem methodsAt_addAll_eq_nil_iff {tree : Tree} {additions : List Addition}
    (added : empty.addAll additions = .ok tree) {path : String} :
    tree.methodsAt path = [] ↔ ¬ ∃ addition ∈ additions, addition.Matches path := by
  rw [List.eq_nil_iff_forall_not_mem]
  constructor
  · intro unknown given
    rcases given with ⟨addition, member, fits⟩
    rcases List.exists_mem_of_ne_nil _ (wellformed_of_addAll added addition member).1 with
      ⟨method, known⟩
    exact unknown method ((mem_methodsAt_addAll_iff added).mpr ⟨addition, member, known, fits⟩)
  · intro unmatched method known
    rcases (mem_methodsAt_addAll_iff added).mp known with ⟨addition, member, -, fits⟩
    exact unmatched ⟨addition, member, fits⟩

theorem exists_methodsAt_addAll_iff {tree : Tree} {additions : List Addition}
    (added : empty.addAll additions = .ok tree) {method path : String} :
    (∃ asked ∈ tree.methodsAt path, asked.name = method) ↔
      ∃ addition ∈ additions, addition.Answers method ∧ addition.Matches path := by
  simp only [mem_methodsAt_addAll_iff added, Addition.Answers]
  constructor
  · intro given
    rcases given with ⟨asked, ⟨addition, member, known, fits⟩, named⟩
    exact ⟨addition, member, ⟨asked, known, named⟩, fits⟩
  · intro given
    rcases given with ⟨addition, member, ⟨asked, known, named⟩, fits⟩
    exact ⟨asked, ⟨addition, member, known, fits⟩, named⟩

/-- A lookup in a tree made by additions decides exactly which of the added templates fit the path.
It finds an endpoint just where one of them is added for the method, and then one of the preferred
place; it refuses the method just where templates fit but none is added for it, and then lists the
methods of all that fit, each once; and it finds nothing just where no template fits. -/
theorem lookup_decides {tree : Tree} {additions : List Addition}
    (added : empty.addAll additions = .ok tree) (method path : String) :
    ((∃ endpoint parameters, tree.lookup method path = .found endpoint parameters) ↔
      ∃ addition ∈ additions, addition.Answers method ∧ addition.Matches path) ∧
    (∀ endpoint parameters, tree.lookup method path = .found endpoint parameters →
      ∃ before claim after, additions.flatMap Addition.claims = before ++ claim :: after ∧
        claim.Preferred (additions.flatMap Addition.claims) method path ∧
        endpoint = claim.endpoint ∧
        (∀ other ∈ before,
          ¬ other.Preferred (additions.flatMap Addition.claims) method path) ∧
        ∀ other ∈ additions.flatMap Addition.claims,
          other.Preferred (additions.flatMap Addition.claims) method path →
            other.handler = endpoint.handler) ∧
    ((∃ allowed, tree.lookup method path = .methodNotAllowed allowed) ↔
      (∃ addition ∈ additions, addition.Matches path) ∧
        ¬ ∃ addition ∈ additions, addition.Answers method ∧ addition.Matches path) ∧
    (∀ allowed, tree.lookup method path = .methodNotAllowed allowed →
      allowed.Nodup ∧ ∀ other, other ∈ allowed ↔
        ∃ addition ∈ additions, other ∈ addition.methods ∧ addition.Matches path) ∧
    (tree.lookup method path = .notFound ↔
      ¬ ∃ addition ∈ additions, addition.Matches path) := by
  have unknown := @methodsAt_addAll_eq_nil_iff tree additions added path
  have answered := @exists_methodsAt_addAll_iff tree additions added method path
  refine ⟨lookup_isFound_iff.trans answered, ?_, ?_, ?_, lookup_eq_notFound_iff.trans unknown⟩
  · intro endpoint parameters found
    rcases (records_addAll records_empty added).preferred_of_found found with
      ⟨before, claim, after, whole, preferred, bound, earlier, agreed, -⟩
    exact ⟨before, claim, after, whole, preferred, bound, earlier, agreed⟩
  · simp only [lookup_eq_methodNotAllowed_iff]
    have known : tree.methodsAt path ≠ [] ↔ ∃ addition ∈ additions, addition.Matches path := by
      rw [ne_eq, unknown, not_not]
    rw [← answered, ← known]
    constructor
    · intro given
      rcases given with ⟨allowed, rfl, nonempty, others⟩
      exact ⟨nonempty, fun ⟨asked, known, named⟩ => others asked known named⟩
    · intro given
      rcases given with ⟨nonempty, others⟩
      exact ⟨_, rfl, nonempty, fun asked known named => others ⟨asked, known, named⟩⟩
  · intro allowed refused
    rcases lookup_eq_methodNotAllowed_iff.mp refused with ⟨rfl, -, -⟩
    exact ⟨nodup_methodsAt tree path, fun other => mem_methodsAt_addAll_iff added⟩

theorem lookup_decides_users :
    ∃ tree, empty.addAll
        [⟨[.get], "/users/new", "form"⟩, ⟨[.post], "/users/:id?", "update"⟩] = .ok tree ∧
      (∃ endpoint parameters, tree.lookup "POST" "/users/new" = .found endpoint parameters) ∧
      ∃ allowed, tree.lookup "PUT" "/users/new" = .methodNotAllowed allowed := by
  have made : (empty.addAll
      [⟨[.get], "/users/new", "form"⟩, ⟨[.post], "/users/:id?", "update"⟩]).isOk = true := by
    decide
  cases added : empty.addAll
      [⟨[.get], "/users/new", "form"⟩, ⟨[.post], "/users/:id?", "update"⟩] with
  | error reason =>
      rw [added] at made
      cases made
  | ok tree =>
      refine ⟨tree, rfl, ?_, ?_⟩
      · apply (lookup_decides added "POST" "/users/new").1.mpr
        refine ⟨⟨[.post], "/users/:id?", "update"⟩, by simp, ⟨.post, by simp, rfl⟩, ?_⟩
        exact .static (.optional (.absent (by simp)))
      · apply (lookup_decides added "PUT" "/users/new").2.2.1.mpr
        refine
          ⟨⟨⟨[.get], "/users/new", "form"⟩, by simp, .static (.static (.absent (by simp)))⟩, ?_⟩
        intro given
        rcases given with ⟨addition, member, ⟨asked, known, named⟩, -⟩
        simp only [List.mem_cons, List.not_mem_nil, or_false] at member
        rcases member with rfl | rfl
        · rw [List.mem_singleton] at known
          subst known
          exact absurd named (by decide)
        · rw [List.mem_singleton] at known
          subst known
          exact absurd named (by decide)

end Tree

end UrlRouting
