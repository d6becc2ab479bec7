import Mathlib.Data.Finset.Card
import Mathlib.Data.List.Pairwise
import Mathlib.Data.List.Perm.Basic
import UrlRouting.Proofs.Tree.Additions

/-!
Additions in another order. Templates that claim no place for a method twice can be added to an
empty tree in any order: every addition succeeds, the trees hold as many endpoints, and lookups in
them differ in the order of the allowed methods at most.
-/

namespace UrlRouting

open Template

namespace Template

theorem prefix_of_mem_expand {segments : List Segment} {steps : List Step}
    (member : steps ∈ expand segments) : steps <+: segments.map Segment.step := by
  induction segments generalizing steps with
  | nil =>
      rw [expand, List.mem_singleton] at member
      rw [member]
      exact List.prefix_rfl
  | cons segment rest induction =>
      rcases mem_expand_cons_iff.mp member with ⟨-, rfl⟩ | ⟨others, inRest, rfl⟩
      · exact List.nil_prefix
      · exact List.cons_prefix_cons.mpr ⟨rfl, induction inRest⟩

theorem eq_of_mem_expand {segments : List Segment} {first second : List Step}
    (member : first ∈ expand segments) (other : second ∈ expand segments)
    (same : nameless first = nameless second) : first = second := by
  have sameLength : first.length = second.length := by
    simpa [nameless] using congrArg List.length same
  rw [List.prefix_iff_eq_take.mp (prefix_of_mem_expand member),
    List.prefix_iff_eq_take.mp (prefix_of_mem_expand other), sameLength]

end Template

/-! ### Positions -/

namespace Claim

def position (claim : Claim) : List Step × Method :=
  (nameless claim.place.1, claim.place.2)

theorem isAt_place_iff {steps : List Step} {method : Method} {claim : Claim} :
    Tree.isAt steps method claim.place = true ↔ claim.position = (nameless steps, method) := by
  rw [Tree.isAt_iff, position, Prod.mk.injEq, @eq_comm _ (nameless steps)]

end Claim

namespace Addition

def positions (addition : Addition) : List (List Step × Method) :=
  addition.claims.map Claim.position

/-- Whether two additions claim no position both. -/
def Apart (first second : Addition) : Prop :=
  first.positions.Disjoint second.positions

instance : Std.Symm Apart where
  symm _ _ apart := List.Disjoint.symm apart

instance (first second : Addition) : Decidable (first.Apart second) :=
  decidable_of_iff (∀ position ∈ first.positions, position ∉ second.positions)
    List.disjoint_left.symm

instance (addition : Addition) : Decidable addition.Wellformed :=
  inferInstanceAs (Decidable (addition.methods ≠ [] ∧
    checkOrder addition.template false (segments addition.template) = .ok ()))

theorem eq_of_position {addition : Addition} {first second : Claim}
    (member : first ∈ addition.claims) (other : second ∈ addition.claims)
    (same : first.position = second.position) : first = second := by
  rcases mem_claims_iff.mp member with ⟨expanded, -, handler⟩
  rcases mem_claims_iff.mp other with ⟨expandedToo, -, handlerToo⟩
  rcases Prod.mk.inj same with ⟨samePlace, sameMethod⟩
  have samePlace := eq_of_mem_expand expanded expandedToo samePlace
  have sameHandler := handler.trans handlerToo.symm
  rcases first with ⟨⟨steps, method⟩, firstHandler⟩
  rcases second with ⟨⟨others, otherMethod⟩, secondHandler⟩
  cases samePlace
  cases sameMethod
  cases sameHandler
  rfl

theorem eq_of_position_of_apart {additions : List Addition} (apart : additions.Pairwise Apart)
    {first second : Claim} (member : first ∈ additions.flatMap claims)
    (other : second ∈ additions.flatMap claims) (same : first.position = second.position) :
    first = second := by
  rcases List.mem_flatMap.mp member with ⟨addition, inAdditions, claimed⟩
  rcases List.mem_flatMap.mp other with ⟨another, alsoInAdditions, claimedToo⟩
  by_cases equal : addition = another
  · subst equal
    exact eq_of_position claimed claimedToo same
  · have disjoint := apart.forall inAdditions alsoInAdditions equal
    have shared : first.position ∈ another.positions := by
      rw [same]
      exact List.mem_map_of_mem claimedToo
    exact absurd shared (disjoint (List.mem_map_of_mem claimed))

end Addition

namespace Tree

/-! ### Additions that succeed -/

theorem exists_add_of_open {tree : Tree} {addition : Addition} (wellformed : addition.Wellformed)
    (allOpen : ∀ place ∈ places addition.methods (segments addition.template),
      tree.isOpen addition.handler place = true) :
    ∃ next, tree.add addition.methods addition.template addition.handler = (next, .ok ()) := by
  have bound := (bindAll_isOk_iff (proper_of_mem_places _ _)).mpr allOpen
  refine ⟨_, Prod.ext rfl ?_⟩
  rw [add, if_neg (by simpa using wellformed.1), parse, wellformed.2]
  exact bound

theorem exists_addAll_of_apart {tree : Tree} {claims : List Claim} (records : tree.Records claims)
    {additions : List Addition} (wellformed : ∀ addition ∈ additions, addition.Wellformed)
    (apart : additions.Pairwise Addition.Apart)
    (free : ∀ addition ∈ additions,
      (claims.map Claim.position).Disjoint addition.positions) :
    ∃ final, tree.addAll additions = .ok final := by
  induction additions generalizing tree claims with
  | nil => exact ⟨tree, rfl⟩
  | cons addition rest induction =>
      rw [List.forall_mem_cons] at wellformed free
      rw [List.pairwise_cons] at apart
      have allOpen : ∀ place ∈ places addition.methods (segments addition.template),
          tree.isOpen addition.handler place = true := by
        intro place member
        have claimed : (nameless place.1, place.2) ∈ addition.positions :=
          List.mem_map_of_mem (List.mem_map_of_mem member)
        have unbound : (tree.bound? place.1 place.2) = none := by
          rw [records.first _ (proper_of_mem_places _ _ place member), Option.map_eq_none_iff,
            List.find?_eq_none]
          intro claim known here
          rw [← Claim.isAt_place_iff.mp here] at claimed
          exact free.1 (List.mem_map_of_mem known) claimed
        simp [isOpen, unbound]
      rcases exists_add_of_open wellformed.1 allOpen with ⟨next, added⟩
      have freeRest : ∀ other ∈ rest,
          ((claims ++ addition.claims).map Claim.position).Disjoint other.positions := by
        intro other member
        rw [List.map_append, List.disjoint_append_left]
        exact ⟨free.2 other member, apart.1 other member⟩
      rcases induction (records_add records added) wellformed.2 apart.2 freeRest with
        ⟨final, others⟩
      exact ⟨final, by rw [addAll, added]; exact others⟩

/-! ### How many endpoints there are -/

/-- Whether just some positions are bound in a tree, and its size is their number. -/
structure Stores (tree : Tree) (positions : Finset (List Step × Method)) : Prop where
  known : ∀ steps, Proper steps → ∀ method,
    (tree.bound? steps method).isSome = true ↔ (nameless steps, method) ∈ positions
  counted : tree.size = positions.card

theorem stores_empty : empty.Stores ∅ where
  known := by simp
  counted := rfl

theorem size_insert (tree : Tree) (steps : List Step) (endpoint : Endpoint) :
    (tree.insert steps endpoint).size = tree.size + 1 := rfl

theorem stores_bind {tree next : Tree} {positions : Finset (List Step × Method)}
    (stores : tree.Stores positions) {steps : List Step} (proper : Proper steps)
    {method : Method} {handler : String} (bound : tree.bind steps method handler = .ok next) :
    next.Stores (Insert.insert (nameless steps, method) positions) := by
  constructor
  · intro other properOther asked
    rw [bound?_bind proper properOther bound, Option.isSome_or, Bool.or_eq_true,
      stores.known other properOther, Finset.mem_insert, or_comm]
    apply or_congr_left
    rw [Option.isSome_ite, isAt_iff, Prod.mk.injEq, @eq_comm _ method]
  · -- The size grows just where the position was not bound before.
    have before := stores.known steps proper method
    rw [bind_eq] at bound
    split at bound
    case h_1 free =>
      cases bound
      have absent : (nameless steps, method) ∉ positions := by
        rw [← before, free]
        simp
      rw [size_insert, stores.counted, Finset.card_insert_of_notMem absent]
    case h_2 existing present =>
      have member : (nameless steps, method) ∈ positions := by
        rw [← before, present]
        rfl
      split at bound
      · cases bound
        rw [Finset.insert_eq_of_mem member, stores.counted]
      · cases bound

theorem stores_bindAll {tree : Tree} {positions : Finset (List Step × Method)}
    (stores : tree.Stores positions) {handler : String} {places : List (List Step × Method)}
    (proper : ∀ place ∈ places, Proper place.1)
    (bound : (tree.bindAll handler places).2 = .ok ()) :
    (tree.bindAll handler places).1.Stores
      (positions ∪ (places.map fun place => (nameless place.1, place.2)).toFinset) := by
  induction places generalizing tree positions with
  | nil => simpa [bindAll] using stores
  | cons place rest induction =>
      rw [List.forall_mem_cons] at proper
      cases first : tree.bind place.1 place.2 handler with
      | error reason => simp [bindAll, first] at bound
      | ok next =>
          simp only [bindAll, first] at bound ⊢
          rw [List.map_cons, List.toFinset_cons, Finset.union_insert, ← Finset.insert_union]
          exact induction (stores_bind stores proper.1 first) proper.2 bound

theorem stores_addAll {tree final : Tree} {positions : Finset (List Step × Method)}
    (stores : tree.Stores positions) {additions : List Addition}
    (added : tree.addAll additions = .ok final) :
    final.Stores (positions ∪ (additions.flatMap Addition.positions).toFinset) := by
  induction additions generalizing tree positions with
  | nil =>
      cases added
      simpa using stores
  | cons addition rest induction =>
      rw [addAll] at added
      split at added
      case h_1 next done =>
        rcases add_eq_ok done with ⟨-, rfl, allOpen⟩
        have proper := proper_of_mem_places addition.methods addition.template
        have bound := stores_bindAll stores proper ((bindAll_isOk_iff proper).mpr allOpen)
        have claimed : (places addition.methods (segments addition.template)).map
            (fun place => (nameless place.1, place.2)) = addition.positions := by
          rw [Addition.positions, Addition.claims, List.map_map]
          rfl
        rw [claimed] at bound
        rw [List.flatMap_cons, List.toFinset_append, ← Finset.union_assoc]
        exact induction bound added
      case h_2 => cases added

/-! ### What is found -/

theorem find?_eq_of_perm {α : Type} {test : α → Bool} {values others : List α}
    (reorders : values.Perm others)
    (unique : ∀ first ∈ values, ∀ second ∈ values, test first = true → test second = true →
      first = second) : values.find? test = others.find? test := by
  cases found : others.find? test with
  | none =>
      rw [List.find?_eq_none] at found ⊢
      exact fun value member => found value (reorders.mem_iff.mp member)
  | some value =>
      have passes := List.find?_some found
      have member := reorders.mem_iff.mpr (List.mem_of_find?_eq_some found)
      cases first : values.find? test with
      | none => exact absurd passes (List.find?_eq_none.mp first value member)
      | some other =>
          rw [unique other (List.mem_of_find?_eq_some first) value member
            (List.find?_some first) passes]

theorem Records.bound?_eq_of_perm {tree other : Tree} {claims reordered : List Claim}
    (records : tree.Records claims) (recordsOther : other.Records reordered)
    (reorders : claims.Perm reordered)
    (unique : ∀ first ∈ claims, ∀ second ∈ claims, first.position = second.position →
      first = second) {steps : List Step} (proper : Proper steps) (method : Method) :
    tree.bound? steps method = other.bound? steps method := by
  rw [records.first steps proper, recordsOther.first steps proper]
  congr 1
  apply find?_eq_of_perm reorders
  intro first member second memberToo here hereToo
  exact unique first member second memberToo
    ((Claim.isAt_place_iff.mp here).trans (Claim.isAt_place_iff.mp hereToo).symm)

end Tree

/-- Whether two answers differ in the order of the allowed methods at most. -/
inductive Lookup.Alike : Lookup → Lookup → Prop
  | found (endpoint : Endpoint) (parameters : Table String) :
      Alike (.found endpoint parameters) (.found endpoint parameters)
  | methodNotAllowed {allowed others : List Method} (reorders : allowed.Perm others) :
      Alike (.methodNotAllowed allowed) (.methodNotAllowed others)
  | notFound : Alike .notFound .notFound

namespace Tree

theorem findSome?_congr {α β : Type} {values : List α} {search other : α → Option β}
    (same : ∀ value ∈ values, search value = other value) :
    values.findSome? search = values.findSome? other := by
  induction values with
  | nil => rfl
  | cons value rest induction =>
      rw [List.forall_mem_cons] at same
      rw [List.findSome?_cons, List.findSome?_cons, same.1, induction same.2]

theorem findSome?_candidates_eq {tree other : Tree} (divided : tree.Divided)
    (dividedOther : other.Divided)
    (same : ∀ steps, Proper steps → ∀ method,
      tree.bound? steps method = other.bound? steps method) (method path : String) :
    (tree.candidates path).findSome? (answer? (Method.ofName? method)) =
      (other.candidates path).findSome? (answer? (Method.ofName? method)) := by
  rw [candidates_eq divided, candidates_eq dividedOther, findSome?_flatMap, findSome?_flatMap]
  apply findSome?_congr
  intro steps member
  rw [findSome?_answer?_ofEndpoints, findSome?_answer?_ofEndpoints, answer?, answer?]
  cases Method.ofName? method with
  | none => rfl
  | some asked =>
      have bound := same steps (proper_fitting member) asked
      rw [bound?, bound?] at bound
      simp only [Option.bind_eq_bind, Option.bind_some, bound]

/-- What is bound at the places of a tree decides its answers, up to the order in which allowed
methods are listed. -/
theorem lookup_alike {tree other : Tree} (divided : tree.Divided) (dividedOther : other.Divided)
    (same : ∀ steps, Proper steps → ∀ method,
      tree.bound? steps method = other.bound? steps method) (method path : String) :
    (tree.lookup method path).Alike (other.lookup method path) := by
  have reorders : (tree.methodsAt path).Perm (other.methodsAt path) := by
    rw [List.perm_ext_iff_of_nodup (nodup_methodsAt tree path) (nodup_methodsAt other path)]
    intro asked
    rw [mem_methodsAt_iff divided, mem_methodsAt_iff dividedOther]
    exact exists_congr fun steps => and_congr_right fun fits => by
      rw [same steps (proper_fitting fits)]
  rw [lookup_eq, lookup_eq, findSome?_candidates_eq divided dividedOther same]
  split
  case h_1 endpoint parameters _ => exact .found endpoint parameters
  case h_2 =>
    rw [reorders.isEmpty_eq]
    split
    case isTrue => exact .notFound
    case isFalse => exact .methodNotAllowed reorders

/-- Templates none of which claims a position of another can be added in any order. Each addition
succeeds, as many endpoints are bound, and every lookup gives the same answer, up to the order in
which it lists allowed methods. -/
theorem addAll_perm {additions reordered : List Addition}
    (wellformed : ∀ addition ∈ additions, addition.Wellformed)
    (apart : additions.Pairwise Addition.Apart) (reorders : additions.Perm reordered) :
    ∃ tree other, empty.addAll additions = .ok tree ∧ empty.addAll reordered = .ok other ∧
      tree.size = other.size ∧
      ∀ method path, (tree.lookup method path).Alike (other.lookup method path) := by
  have apartToo : reordered.Pairwise Addition.Apart :=
    reorders.pairwise apart symm
  have wellformedToo : ∀ addition ∈ reordered, addition.Wellformed := fun addition member =>
    wellformed addition (reorders.mem_iff.mpr member)
  rcases exists_addAll_of_apart records_empty wellformed apart (by simp) with ⟨tree, added⟩
  rcases exists_addAll_of_apart records_empty wellformedToo apartToo (by simp) with
    ⟨other, addedToo⟩
  have records := records_addAll records_empty added
  have recordsToo := records_addAll records_empty addedToo
  refine ⟨tree, other, added, addedToo, ?_, ?_⟩
  · rw [(stores_addAll stores_empty added).counted, (stores_addAll stores_empty addedToo).counted,
      List.toFinset_eq_of_perm _ _ (reorders.flatMap_right Addition.positions)]
  · apply lookup_alike records.divided recordsToo.divided
    intro steps proper method
    exact records.bound?_eq_of_perm recordsToo (reorders.flatMap_right Addition.claims)
      (fun _ member _ memberToo => Addition.eq_of_position_of_apart apart member memberToo)
      proper method

theorem addAll_perm_users :
    ∃ tree other,
      empty.addAll [⟨[.get], "/users/new", "form"⟩, ⟨[.get], "/users/:id?", "show"⟩,
        ⟨[.post, .put], "/users/:name", "update"⟩] = .ok tree ∧
      empty.addAll [⟨[.post, .put], "/users/:name", "update"⟩, ⟨[.get], "/users/new", "form"⟩,
        ⟨[.get], "/users/:id?", "show"⟩] = .ok other ∧
      tree.size = other.size ∧
      ∀ method path, (tree.lookup method path).Alike (other.lookup method path) := by
  apply addAll_perm (by decide) (by decide)
  exact (@List.perm_append_comm _ [_] [_, _]).symm

end Tree

end UrlRouting
