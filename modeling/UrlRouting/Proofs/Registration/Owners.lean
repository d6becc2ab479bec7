import Mathlib.Data.List.Induction
import Mathlib.Data.List.TakeWhile
import UrlRouting.Dispatch
import UrlRouting.Proofs.Template

/-!
Who owns a place. A route is bound in steps: each binding stands for the positions that one template
has for one method, and takes them in order until it meets one that another route owns. So a
position is owned by the first binding that gets as far as it. Where the bindings of a route stand
together, the first one to claim a position owns it in the end if and only if positions are claimed
in an order in which none is lost behind another.
-/

namespace UrlRouting

open Template

inductive Tier
  | exact (host : String)
  | parameterized
  | anyHost
  deriving DecidableEq

/-- What a route can own: a place in one of the trees, names aside, for one method. -/
structure Position where
  tier : Tier
  steps : List Step
  method : Method
  deriving DecidableEq

/-- A template that is to be bound to a route for one method. -/
structure Binding where
  tier : Tier
  route : String
  template : String
  method : Method

abbrev Owners :=
  Position → Option String

namespace Binding

def positions (binding : Binding) : List Position :=
  (expand (segments binding.template)).map fun steps =>
    { tier := binding.tier, steps := nameless steps, method := binding.method }

/-- Whether a binding gets as far as a position: all that it claims before is its route's. -/
def Reaches (owners : Owners) (position : Position) (binding : Binding) : Prop :=
  ∃ before after, binding.positions = before ++ position :: after ∧
    ∀ passed ∈ before, owners passed = some binding.route

theorem Reaches.mem {owners : Owners} {position : Position} {binding : Binding}
    (reaches : binding.Reaches owners position) : position ∈ binding.positions := by
  rcases reaches with ⟨before, after, equal, -⟩
  simp [equal]

theorem reaches_congr {owners others : Owners} {binding : Binding}
    (same : ∀ position ∈ binding.positions, owners position = others position)
    (position : Position) :
    binding.Reaches owners position ↔ binding.Reaches others position := by
  have oneWay : ∀ {owners others : Owners},
      (∀ position ∈ binding.positions, owners position = others position) →
      binding.Reaches owners position → binding.Reaches others position := by
    intro owners others same reaches
    rcases reaches with ⟨before, after, equal, owned⟩
    refine ⟨before, after, equal, fun passed inBefore => ?_⟩
    rw [← same passed (by simp [equal, inBefore])]
    exact owned passed inBefore
  exact ⟨oneWay same, oneWay fun position claimed => (same position claimed).symm⟩

end Binding

namespace Owners

def none : Owners :=
  fun _ => .none

def isOpen (owners : Owners) (route : String) (position : Position) : Bool :=
  (owners position).all (· == route)

/-- The owners after a binding, which stops before the first position that is not open to it. -/
def take (owners : Owners) (binding : Binding) : Owners :=
  fun position => (owners position).or <|
    if position ∈ binding.positions.takeWhile (owners.isOpen binding.route) then
      some binding.route
    else .none

def takeAll (owners : Owners) (bindings : List Binding) : Owners :=
  bindings.foldl take owners

private theorem mem_takeWhile_iff {α : Type} {test : α → Bool} {value : α} {values : List α} :
    value ∈ values.takeWhile test ↔
      ∃ before after, values = before ++ value :: after ∧
        (∀ passed ∈ before, test passed = true) ∧ test value = true := by
  constructor
  · intro member
    rcases List.append_of_mem member with ⟨before, after, equal⟩
    refine ⟨before, after ++ values.dropWhile test, ?_, ?_, ?_⟩
    · conv => lhs; rw [← @List.takeWhile_append_dropWhile _ test values, equal]
      simp
    · intro passed inBefore
      exact List.mem_takeWhile_imp (by rw [equal]; simp [inBefore])
    · exact List.mem_takeWhile_imp member
  · intro given
    rcases given with ⟨before, after, rfl, passed, holds⟩
    rw [List.takeWhile_append_of_pos passed, List.takeWhile_cons_of_pos holds]
    simp

theorem take_of_some {owners : Owners} {position : Position} {route : String}
    (owned : owners position = some route) (binding : Binding) :
    owners.take binding position = some route := by
  rw [take, owned, Option.some_or]

theorem takeAll_of_some {owners : Owners} {position : Position} {route : String}
    (owned : owners position = some route) (bindings : List Binding) :
    owners.takeAll bindings position = some route := by
  induction bindings generalizing owners with
  | nil => exact owned
  | cons binding rest induction => exact induction (take_of_some owned binding)

/-- A binding takes a free position just if it reaches it in the end: nothing that it passes on the
way changes hands afterwards. -/
theorem mem_takeWhile_iff_reaches {owners : Owners} {binding : Binding} {rest : List Binding}
    {position : Position} (free : owners position = .none) :
    position ∈ binding.positions.takeWhile (owners.isOpen binding.route) ↔
      binding.Reaches (owners.takeAll (binding :: rest)) position := by
  rw [mem_takeWhile_iff]
  constructor
  · intro given
    rcases given with ⟨before, after, equal, passedOpen, -⟩
    refine ⟨before, after, equal, fun passed inBefore => ?_⟩
    rcases List.append_of_mem inBefore with ⟨first, last, split⟩
    have taken : passed ∈ binding.positions.takeWhile (owners.isOpen binding.route) :=
      mem_takeWhile_iff.mpr ⟨first, last ++ position :: after, by simp [equal, split],
        fun other member => passedOpen other (by simp [split, member]),
        passedOpen passed inBefore⟩
    refine @takeAll_of_some (owners.take binding) _ _ ?_ rest
    cases known : owners passed with
    | none => rw [take, known, if_pos taken, Option.none_or]
    | some route =>
        have same := passedOpen passed inBefore
        rw [isOpen, known, Option.all_some, beq_iff_eq] at same
        rw [take_of_some known, same]
  · intro given
    rcases given with ⟨before, after, equal, passedOwned⟩
    refine ⟨before, after, equal, fun passed inBefore => ?_, by simp [isOpen, free]⟩
    cases known : owners passed with
    | none => simp [isOpen, known]
    | some route =>
        have owned := passedOwned passed inBefore
        rw [takeAll_of_some known] at owned
        simpa [isOpen, known] using owned

/-- Whether a route is the first of some bindings' routes to get as far as a position. -/
def ReachedFirst (owners : Owners) (bindings : List Binding) (position : Position)
    (route : String) : Prop :=
  ∃ before binding after, bindings = before ++ binding :: after ∧ binding.route = route ∧
    binding.Reaches owners position ∧ ∀ other ∈ before, ¬ other.Reaches owners position

theorem reachedFirst_cons_iff {owners : Owners} {binding : Binding} {rest : List Binding}
    {position : Position} {route : String} :
    owners.ReachedFirst (binding :: rest) position route ↔
      (binding.Reaches owners position ∧ binding.route = route) ∨
        (¬ binding.Reaches owners position ∧ owners.ReachedFirst rest position route) := by
  constructor
  · intro given
    rcases given with ⟨before, found, after, equal, same, reaches, earlier⟩
    cases before with
    | nil =>
        cases equal
        exact .inl ⟨reaches, same⟩
    | cons first others =>
        cases equal
        exact .inr ⟨earlier binding (by simp), others, found, after, rfl, same, reaches,
          fun other member => earlier other (List.mem_cons_of_mem _ member)⟩
  · intro given
    rcases given with ⟨reaches, same⟩ | ⟨behind, before, found, after, rfl, same, reaches, earlier⟩
    · exact ⟨[], binding, rest, rfl, same, reaches, by simp⟩
    · refine ⟨binding :: before, found, after, rfl, same, reaches, fun other member => ?_⟩
      rcases List.mem_cons.mp member with rfl | later
      · exact behind
      · exact earlier other later

theorem reachedFirst_congr {owners others : Owners} {bindings : List Binding}
    (same : ∀ binding ∈ bindings, ∀ position ∈ binding.positions,
      owners position = others position)
    (position : Position) (route : String) :
    owners.ReachedFirst bindings position route ↔ others.ReachedFirst bindings position route := by
  induction bindings with
  | nil => simp [ReachedFirst]
  | cons binding rest induction =>
      rw [reachedFirst_cons_iff, reachedFirst_cons_iff,
        Binding.reaches_congr (same binding (by simp)),
        induction fun binding member => same binding (List.mem_cons_of_mem _ member)]

theorem takeAll_eq_some_iff {owners : Owners} {bindings : List Binding} {position : Position}
    {route : String} (free : owners position = .none) :
    owners.takeAll bindings position = some route ↔
      (owners.takeAll bindings).ReachedFirst bindings position route := by
  induction bindings generalizing owners with
  | nil =>
      rw [takeAll, List.foldl_nil, free]
      simp [ReachedFirst]
  | cons binding rest induction =>
      have taken := @mem_takeWhile_iff_reaches _ binding rest _ free
      have unfolded : owners.takeAll (binding :: rest) = (owners.take binding).takeAll rest := rfl
      rw [reachedFirst_cons_iff, ← taken, unfolded]
      by_cases reached : position ∈ binding.positions.takeWhile (owners.isOpen binding.route)
      · have owned : owners.take binding position = some binding.route := by
          rw [take, free, if_pos reached, Option.none_or]
        rw [takeAll_of_some owned]
        simp [reached]
      · have stillFree : owners.take binding position = .none := by
          rw [take, free, if_neg reached, Option.none_or]
        rw [induction stillFree]
        simp [reached]

/-! ### First claims -/

def firstClaimant (bindings : List Binding) : Owners :=
  fun position => (bindings.find? (position ∈ ·.positions)).map Binding.route

/-- Whether the bindings of each route stand together, the routes being in some order. -/
def Grouped (bindings : List Binding) : Prop :=
  ∃ order : String → Nat, bindings.Pairwise fun first second =>
    order first.route < order second.route ∨ first.route = second.route

theorem exists_firstClaimant {bindings : List Binding} {binding : Binding}
    (member : binding ∈ bindings) {position : Position} (claimed : position ∈ binding.positions) :
    ∃ route, firstClaimant bindings position = some route := by
  cases found : bindings.find? (position ∈ ·.positions) with
  | none => simpa [claimed] using List.find?_eq_none.mp found binding member
  | some first => exact ⟨first.route, by rw [firstClaimant, found, Option.map_some]⟩

private theorem exists_first {α : Type} {holds : α → Prop} {value : α} {values : List α}
    (member : value ∈ values) (valueHolds : holds value) :
    ∃ before first after, values = before ++ first :: after ∧ holds first ∧
      (∀ other ∈ before, ¬ holds other) ∧ value ∈ first :: after := by
  induction values with
  | nil => cases member
  | cons head rest induction =>
      by_cases headHolds : holds head
      · exact ⟨[], head, rest, rfl, headHolds, by simp, member⟩
      · rcases List.mem_cons.mp member with rfl | later
        · exact absurd valueHolds headHolds
        · rcases induction later with ⟨before, first, after, rfl, firstHolds, none, inRest⟩
          refine ⟨head :: before, first, after, rfl, firstHolds, ?_, inRest⟩
          intro other inBefore
          rcases List.mem_cons.mp inBefore with rfl | later
          · exact headHolds
          · exact none other later

theorem exists_owner_of_reaches {bindings : List Binding} {binding : Binding}
    (member : binding ∈ bindings) {position : Position}
    (reaches : binding.Reaches (none.takeAll bindings) position) :
    ∃ route, none.takeAll bindings position = some route := by
  rcases exists_first member reaches with ⟨before, first, after, whole, firstReaches, earlier, -⟩
  exact ⟨first.route, (takeAll_eq_some_iff rfl).mpr
    ⟨before, first, after, whole, rfl, firstReaches, earlier⟩⟩

theorem Grouped.route_eq {bindings : List Binding} (grouped : Grouped bindings)
    {before after : List Binding} {first middle last : Binding}
    (fromFirst : bindings = before ++ first :: after) (later : middle ∈ first :: after)
    {earlier rest : List Binding} (fromMiddle : bindings = earlier ++ middle :: rest)
    (latest : last ∈ middle :: rest) (same : first.route = last.route) :
    middle.route = first.route := by
  rcases grouped with ⟨order, sorted⟩
  have firstBefore : order first.route < order middle.route ∨ first.route = middle.route := by
    rcases List.mem_cons.mp later with rfl | inAfter
    · exact .inr rfl
    · rw [fromFirst, List.pairwise_append] at sorted
      exact (List.pairwise_cons.mp sorted.2.1).1 middle inAfter
  have middleBefore : order middle.route < order last.route ∨ middle.route = last.route := by
    rcases List.mem_cons.mp latest with rfl | inRest
    · exact .inr rfl
    · rw [fromMiddle, List.pairwise_append] at sorted
      exact (List.pairwise_cons.mp sorted.2.1).1 last inRest
  rcases firstBefore with less | equal
  · rcases middleBefore with lessToo | equalToo
    · rw [same] at less
      omega
    · rw [equalToo, same]
  · exact equal.symm

theorem takeAll_of_reaches {bindings : List Binding} (grouped : Grouped bindings)
    {claimant : Binding} (member : claimant ∈ bindings) {position : Position}
    (reaches : claimant.Reaches (none.takeAll bindings) position)
    (claimedFirst : firstClaimant bindings position = some claimant.route) :
    none.takeAll bindings position = some claimant.route := by
  rcases exists_first member reaches with
    ⟨before, reacher, after, whole, reacherReaches, noneBefore, inRest⟩
  rcases Option.map_eq_some_iff.mp claimedFirst with ⟨first, found, sameRoute⟩
  rcases List.find?_eq_some_iff_append.mp found with
    ⟨-, beforeFirst, afterFirst, wholeFirst, unclaimed⟩
  have later : reacher ∈ first :: afterFirst := by
    have inBindings : reacher ∈ bindings := by simp [whole]
    rw [wholeFirst, List.mem_append] at inBindings
    rcases inBindings with inBefore | inAfter
    · exact absurd reacherReaches.mem (by simpa using unclaimed reacher inBefore)
    · exact inAfter
  have same : reacher.route = claimant.route := by
    rw [grouped.route_eq wholeFirst later whole inRest sameRoute, sameRoute]
  exact (takeAll_eq_some_iff rfl).mpr
    ⟨before, reacher, after, whole, same, reacherReaches, noneBefore⟩

/-- Every position goes to the route that claims it first, just if that route has a binding whose
positions before it are all claimed first by the route as well. -/
theorem takeAll_eq_firstClaimant_iff {bindings : List Binding} (grouped : Grouped bindings) :
    (∀ binding ∈ bindings, ∀ position ∈ binding.positions,
        none.takeAll bindings position = firstClaimant bindings position) ↔
      ∀ binding ∈ bindings, ∀ position ∈ binding.positions, ∃ claimant ∈ bindings,
        firstClaimant bindings position = some claimant.route ∧
          claimant.Reaches (firstClaimant bindings) position := by
  constructor
  · intro settled binding member position claimed
    rcases exists_firstClaimant member claimed with ⟨route, claimedFirst⟩
    have owned := (settled binding member position claimed).trans claimedFirst
    rcases (takeAll_eq_some_iff rfl).mp owned with
      ⟨before, claimant, after, whole, rfl, ⟨passed, rest, equal, passedOwned⟩, -⟩
    have inBindings : claimant ∈ bindings := by simp [whole]
    refine ⟨claimant, inBindings, claimedFirst, passed, rest, equal, ?_⟩
    intro other inPassed
    rw [← settled claimant inBindings other (by simp [equal, inPassed])]
    exact passedOwned other inPassed
  · intro ordered binding member position claimed
    rcases ordered binding member position claimed with
      ⟨claimant, inBindings, claimedFirst, passed, rest, equal, passedFirst⟩
    -- The positions that the claimant passes are its own one after the other.
    have owned : ∀ passed rest, claimant.positions = passed ++ rest →
        (∀ other ∈ passed, firstClaimant bindings other = some claimant.route) →
        ∀ other ∈ passed, none.takeAll bindings other = some claimant.route := by
      intro passed
      induction passed using List.reverseRecOn with
      | nil => simp
      | append_singleton passed last induction =>
          intro rest equal first other inPassed
          have earlier := induction (last :: rest) (by simp [equal])
            fun other inPassed => first other (by simp [inPassed])
          rcases List.mem_append.mp inPassed with inEarlier | isLast
          · exact earlier other inEarlier
          · rw [List.mem_singleton] at isLast
            subst isLast
            exact takeAll_of_reaches grouped inBindings
              ⟨passed, rest, by simp [equal], earlier⟩ (first other (by simp))
    rw [claimedFirst]
    refine owned (passed ++ [position]) rest (by simp [equal]) ?_ position (by simp)
    intro other inPassed
    rcases List.mem_append.mp inPassed with inEarlier | isPosition
    · exact passedFirst other inEarlier
    · rw [List.mem_singleton.mp isPosition]
      exact claimedFirst

theorem takeAll_of_route {bindings : List Binding} {route : String}
    (same : ∀ binding ∈ bindings, binding.route = route) {binding : Binding}
    (member : binding ∈ bindings) {position : Position} (claimed : position ∈ binding.positions) :
    none.takeAll bindings position = some route := by
  have grouped : Grouped bindings := by
    refine ⟨fun _ => 0, List.pairwise_of_forall_mem_list ?_⟩
    intro first firstMem second secondMem
    exact .inr ((same first firstMem).trans (same second secondMem).symm)
  have first : ∀ binding ∈ bindings, ∀ position ∈ binding.positions,
      firstClaimant bindings position = some route := by
    intro binding member position claimed
    rcases exists_firstClaimant member claimed with ⟨claimant, claimedFirst⟩
    rcases Option.map_eq_some_iff.mp claimedFirst with ⟨claiming, found, rfl⟩
    rw [claimedFirst, same claiming (List.mem_of_find?_eq_some found)]
  rw [(takeAll_eq_firstClaimant_iff grouped).mpr _ binding member position claimed]
  · exact first binding member position claimed
  · intro binding member position claimed
    rcases List.append_of_mem claimed with ⟨before, after, equal⟩
    refine ⟨binding, member, ?_, before, after, equal, fun passed inBefore => ?_⟩
    · rw [same binding member]
      exact first binding member position claimed
    · rw [same binding member]
      exact first binding member passed (by simp [equal, inBefore])

end Owners

end UrlRouting
