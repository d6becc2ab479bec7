import Mathlib.Data.List.Pairwise
import Mathlib.Data.Finset.Lattice.Lemmas
import UrlRouting.Proofs.Pattern.Groups

/-!
Variants and selections of groups. The variants of a pattern are its selections of groups, each once,
and a selection comes before every other one that it contains.
-/

namespace UrlRouting.Pattern

def selections (next : Nat) : List Part → List (Finset Nat)
  | [] => [∅]
  | .token _ :: rest => selections next rest
  | .optional inner :: rest =>
      (∅ :: (selections (next + 1) inner).map (insert next)).flatMap fun choice =>
        (selections (next + 1 + groupCount inner) rest).map (choice ∪ ·)

variable {parts inner rest : List Part} {around : List Nat} {next : Nat}
  {selection choice later : Finset Nat}

theorem mem_choices_iff :
    choice ∈ ∅ :: (selections (next + 1) inner).map (insert next) ↔
      choice = ∅ ∨ ∃ within ∈ selections (next + 1) inner, choice = insert next within := by
  simp [eq_comm]

theorem mem_selections_optional_iff :
    selection ∈ selections next (.optional inner :: rest) ↔
      ∃ choice ∈ ∅ :: (selections (next + 1) inner).map (insert next),
        ∃ later ∈ selections (next + 1 + groupCount inner) rest, choice ∪ later = selection := by
  rw [selections, List.mem_flatMap]
  simp only [List.mem_map]

theorem bounds_of_mem_selections (member : selection ∈ selections next parts) {number : Nat}
    (taken : number ∈ selection) : next ≤ number ∧ number < next + groupCount parts := by
  induction next, parts using selections.induct generalizing selection with
  | case1 => simp_all [selections]
  | case2 next content rest induction =>
      rw [selections] at member
      rw [groupCount]
      exact induction member taken
  | case3 next inner rest afterGroup within =>
      rcases mem_selections_optional_iff.mp member with ⟨choice, chosen, others, inRest, rfl⟩
      rw [groupCount]
      rcases Finset.mem_union.mp taken with inChoice | inOthers
      · rcases mem_choices_iff.mp chosen with rfl | ⟨inside, inInner, rfl⟩
        · simp at inChoice
        · rcases Finset.mem_insert.mp inChoice with rfl | inInside
          · omega
          · have bounds := within inInner inInside
            omega
      · have bounds := afterGroup inRest inOthers
        omega

theorem bounds_of_mem_choices
    (chosen : choice ∈ ∅ :: (selections (next + 1) inner).map (insert next)) {number : Nat}
    (taken : number ∈ choice) : next ≤ number ∧ number < next + 1 + groupCount inner := by
  rcases mem_choices_iff.mp chosen with rfl | ⟨within, inInner, rfl⟩
  · simp at taken
  · rcases Finset.mem_insert.mp taken with rfl | inside
    · omega
    · have bounds := bounds_of_mem_selections inInner inside
      omega

theorem notMem_later_of_mem_choice
    (chosen : choice ∈ ∅ :: (selections (next + 1) inner).map (insert next))
    (inRest : later ∈ selections (next + 1 + groupCount inner) rest) {number : Nat}
    (taken : number ∈ choice) : number ∉ later := by
  intro inLater
  have first := bounds_of_mem_choices chosen taken
  have second := bounds_of_mem_selections inRest inLater
  omega

/-! ### The order of selections -/

theorem pairwise_selections (next : Nat) (parts : List Part) :
    (selections next parts).Pairwise fun earlier later => ¬ later ⊆ earlier := by
  induction next, parts using selections.induct with
  | case1 => simp [selections]
  | case2 next content rest induction =>
      rw [selections]
      exact induction
  | case3 next inner rest afterGroup within =>
      rw [selections, List.pairwise_flatMap]
      constructor
      · -- The same choice: what is selected after it decides.
        intro choice chosen
        refine List.pairwise_map.mpr (afterGroup.imp_of_mem ?_)
        intro earlier later _ inRest apart contained
        apply apart
        intro number taken
        have inEither := contained (Finset.mem_union_right choice taken)
        rcases Finset.mem_union.mp inEither with inChoice | inEarlier
        · exact absurd taken (notMem_later_of_mem_choice chosen inRest inChoice)
        · exact inEarlier
      · -- Different choices: they decide, as nothing selected after them is in them.
        have choices : (∅ :: (selections (next + 1) inner).map (insert next)).Pairwise
            fun earlier later => ¬ later ⊆ earlier := by
          refine List.pairwise_cons.mpr ⟨?_, List.pairwise_map.mpr (within.imp_of_mem ?_)⟩
          · intro choice chosen contained
            rcases List.mem_map.mp chosen with ⟨inside, -, rfl⟩
            simpa using contained (Finset.mem_insert_self next inside)
          · intro earlier later _ inInner apart contained
            apply apart
            intro number taken
            rcases Finset.mem_insert.mp (contained (Finset.mem_insert_of_mem taken)) with
              rfl | inEarlier
            · have bounds := bounds_of_mem_selections inInner taken
              omega
            · exact inEarlier
        refine choices.imp_of_mem ?_
        intro earlier later _ chosen apart first inFirst second inSecond contained
        rcases List.mem_map.mp inFirst with ⟨afterFirst, inRest, rfl⟩
        rcases List.mem_map.mp inSecond with ⟨afterSecond, -, rfl⟩
        apply apart
        intro number taken
        rcases Finset.mem_union.mp (contained (Finset.mem_union_left afterSecond taken)) with
          inEarlier | inAfter
        · exact inEarlier
        · exact absurd inAfter (notMem_later_of_mem_choice chosen inRest taken)

theorem nodup_selections (next : Nat) (parts : List Part) : (selections next parts).Nodup :=
  (pairwise_selections next parts).imp fun apart equal => apart equal.symm.subset

/-! ### All selections that are closed -/

theorem closed_of_mem_selections (member : selection ∈ selections next parts) :
    Closed around (sitesOfParts around next parts) selection := by
  induction next, parts using selections.induct generalizing around selection with
  | case1 => simp_all [selections, Closed]
  | case2 next content rest induction =>
      rw [selections] at member
      intro number taken
      rcases induction member number taken with ⟨outer, inSites, each⟩
      rw [sitesOfParts]
      exact ⟨outer, List.mem_cons_of_mem _ inSites, each⟩
  | case3 next inner rest afterGroup within =>
      rcases mem_selections_optional_iff.mp member with ⟨choice, chosen, others, inRest, rfl⟩
      intro number taken
      rcases Finset.mem_union.mp taken with inChoice | inOthers
      · rcases mem_choices_iff.mp chosen with rfl | ⟨inside, inInner, rfl⟩
        · simp at inChoice
        · rcases Finset.mem_insert.mp inChoice with rfl | inInside
          · exact ⟨around, mem_sitesOfParts_optional_iff.mpr (.inl rfl), fun _ opened => .inl opened⟩
          · have closed : Closed (next :: around) _ inside := within inInner
            rcases closed number inInside with ⟨outer, inSites, each⟩
            refine ⟨outer, mem_sitesOfParts_optional_iff.mpr (.inr (.inl inSites)), ?_⟩
            intro group inOuter
            rcases each group inOuter with opened | inInside
            · rcases List.mem_cons.mp opened with rfl | inAround
              · exact .inr (by simp)
              · exact .inl inAround
            · exact .inr (by simp [inInside])
      · have closed : Closed around _ others := afterGroup inRest
        rcases closed number inOthers with ⟨outer, inSites, each⟩
        refine ⟨outer, mem_sitesOfParts_optional_iff.mpr (.inr (.inr inSites)), ?_⟩
        intro group inOuter
        exact (each group inOuter).imp_right (Finset.mem_union_right choice)

/-- What a selection takes of the groups of some parts, the first of which has the number `low`. -/
def portion (selection : Finset Nat) (low : Nat) (parts : List Part) : Finset Nat :=
  selection.filter fun number => low ≤ number ∧ number < low + groupCount parts

theorem Closed.portion {sites : List Site} {outside : List Nat}
    (closed : Closed outside sites selection) (before : ∀ group ∈ outside, group < next)
    (found : ∀ number outer, .group number outer ∈ sites → next ≤ number →
      number < next + groupCount parts → .group number outer ∈ sitesOfParts around next parts) :
    Closed around (sitesOfParts around next parts) (portion selection next parts) := by
  intro number taken
  rcases Finset.mem_filter.mp taken with ⟨inSelection, low, high⟩
  rcases closed number inSelection with ⟨outer, inSites, each⟩
  have inParts := found number outer inSites low high
  refine ⟨outer, inParts, fun group inOuter => ?_⟩
  rcases (chain_of_mem inParts).2 group (List.mem_cons_of_mem _ inOuter) with opened | bounds
  · exact .inl opened
  · rcases each group inOuter with inOutside | inSelection
    · have less := before group inOutside
      omega
    · exact .inr (Finset.mem_filter.mpr ⟨inSelection, bounds⟩)

section Optional

variable (before : ∀ group ∈ around, group < next)
  (closed : Closed around (sitesOfParts around next (.optional inner :: rest)) selection)

include before closed

theorem Closed.portion_inner :
    Closed (next :: around) (sitesOfParts (next :: around) (next + 1) inner)
      (Pattern.portion selection (next + 1) inner) := by
  apply closed.portion fun group member => Nat.lt_succ_of_lt (before group member)
  intro number outer inSites low high
  rcases mem_sitesOfParts_optional_iff.mp inSites with equal | inInner | inRest
  · cases equal
    omega
  · exact inInner
  · have bounds := bounds_of_group_mem inRest
    omega

theorem Closed.portion_rest :
    Closed around (sitesOfParts around (next + 1 + groupCount inner) rest)
      (Pattern.portion selection (next + 1 + groupCount inner) rest) := by
  apply closed.portion
  · intro group member
    have less := before group member
    omega
  · intro number outer inSites low high
    rcases mem_sitesOfParts_optional_iff.mp inSites with equal | inInner | inRest
    · cases equal
      omega
    · have bounds := bounds_of_group_mem inInner
      omega
    · exact inRest

theorem Closed.portion_eq_empty (leftOut : next ∉ selection) :
    Pattern.portion selection (next + 1) inner = ∅ := by
  apply Finset.filter_eq_empty_iff.mpr
  intro number inSelection bounds
  rcases closed number inSelection with ⟨outer, inSites, each⟩
  rcases mem_sitesOfParts_optional_iff.mp inSites with equal | inInner | inRest
  · cases equal
    omega
  · have inChain : next ∈ number :: outer :=
      (chain_of_mem inInner).1.subset (List.mem_cons_self ..)
    rcases List.mem_cons.mp inChain with rfl | inOuter
    · omega
    · rcases each next inOuter with inAround | taken
      · exact lt_irrefl next (before next inAround)
      · exact leftOut taken
  · have otherBounds := bounds_of_group_mem inRest
    omega

/-- A closed set is what it takes of a group and of the parts after it. -/
theorem Closed.eq_union :
    (if next ∈ selection then insert next (Pattern.portion selection (next + 1) inner) else ∅) ∪
      Pattern.portion selection (next + 1 + groupCount inner) rest = selection := by
  have bounds : ∀ number ∈ selection, next ≤ number ∧
      number < next + 1 + groupCount inner + groupCount rest := by
    intro number inSelection
    rcases closed number inSelection with ⟨outer, inSites, -⟩
    have bounds := bounds_of_group_mem inSites
    rw [groupCount] at bounds
    omega
  have divided : ∀ number ∈ selection, number = next ∨
      number ∈ Pattern.portion selection (next + 1) inner ∨
        number ∈ Pattern.portion selection (next + 1 + groupCount inner) rest := by
    intro number inSelection
    have limits := bounds number inSelection
    simp only [Pattern.portion, Finset.mem_filter, inSelection, true_and]
    omega
  have none := closed.portion_eq_empty before
  ext number
  constructor
  · intro member
    rcases Finset.mem_union.mp member with inChoice | inRest
    · split at inChoice
      case isTrue taken =>
        rcases Finset.mem_insert.mp inChoice with rfl | inInner
        · exact taken
        · exact (Finset.mem_filter.mp inInner).1
      case isFalse => simp at inChoice
    · exact (Finset.mem_filter.mp inRest).1
  · intro inSelection
    rcases divided number inSelection with rfl | inInner | inRest
    · exact Finset.mem_union_left _ (by simp [inSelection])
    · by_cases taken : next ∈ selection
      · exact Finset.mem_union_left _ (by simp [taken, inInner])
      · simp [none taken] at inInner
    · exact Finset.mem_union_right _ inRest

end Optional

theorem lt_succ_of_open (before : ∀ group ∈ around, group < next) :
    ∀ group ∈ next :: around, group < next + 1 := by
  intro group member
  rcases List.mem_cons.mp member with rfl | inAround
  · exact Nat.lt_succ_self _
  · exact Nat.lt_succ_of_lt (before group inAround)

theorem mem_selections_of_closed (before : ∀ group ∈ around, group < next)
    (closed : Closed around (sitesOfParts around next parts) selection) :
    selection ∈ selections next parts := by
  induction next, parts using selections.induct generalizing around selection with
  | case1 =>
      rw [selections, List.mem_singleton, Finset.eq_empty_iff_forall_notMem]
      intro number taken
      rcases closed number taken with ⟨outer, inSites, -⟩
      simp [sitesOfParts] at inSites
  | case2 next content rest induction =>
      rw [selections]
      apply induction before
      intro number taken
      rcases closed number taken with ⟨outer, inSites, each⟩
      rw [sitesOfParts] at inSites
      rcases List.mem_cons.mp inSites with equal | inRest
      · cases equal
      · exact ⟨outer, inRest, each⟩
  | case3 next inner rest afterGroup within =>
      have inInner := within (lt_succ_of_open before) (closed.portion_inner before)
      have inRest := afterGroup (fun group member => by
        have less := before group member
        omega) (closed.portion_rest before)
      refine mem_selections_optional_iff.mpr ⟨_, ?_, _, inRest, closed.eq_union before⟩
      split
      · exact mem_choices_iff.mpr (.inr ⟨_, inInner, rfl⟩)
      · exact mem_choices_iff.mpr (.inl rfl)

theorem mem_selections_iff (before : ∀ group ∈ around, group < next) :
    selection ∈ selections next parts ↔ Closed around (sitesOfParts around next parts) selection :=
  ⟨closed_of_mem_selections, mem_selections_of_closed before⟩

/-! ### Tokens of selections -/

theorem selected_congr {sites : List Site} {other : Finset Nat}
    (same : ∀ site ∈ sites, ∀ group ∈ site.chain, group ∈ selection ↔ group ∈ other) :
    selected selection sites = selected other sites := by
  apply List.filterMap_congr
  intro site member
  cases site with
  | group number outer => rfl
  | token content outer =>
      have agree : (∀ group ∈ outer, group ∈ selection) ↔ ∀ group ∈ outer, group ∈ other :=
        forall₂_congr fun group inOuter => same _ member group inOuter
      simp only [Site.taken?, agree]

theorem selected_eq_nil {sites : List Site} {number : Nat} (leftOut : number ∉ selection)
    (inside : ∀ site ∈ sites, number ∈ site.chain) : selected selection sites = [] := by
  apply List.filterMap_eq_nil_iff.mpr
  intro site member
  cases site with
  | group number outer => rfl
  | token content outer =>
      exact if_neg fun all => leftOut (all number (inside _ member))

theorem selected_inner
    (inRest : later ∈ selections (next + 1 + groupCount inner) rest) :
    selected (choice ∪ later ∪ around.toFinset)
        (sitesOfParts (next :: around) (next + 1) inner) =
      selected (choice ∪ around.toFinset) (sitesOfParts (next :: around) (next + 1) inner) := by
  apply selected_congr
  intro site member group inChain
  have place := (chain_of_mem member).2 group inChain
  have bounds := @bounds_of_mem_selections _ _ _ inRest group
  simp only [Finset.mem_union, List.mem_toFinset, List.mem_cons] at place ⊢
  constructor
  · rintro ((inChoice | inLater) | inAround)
    · exact .inl inChoice
    · have := bounds inLater
      rcases place with (equal | inAround) | limits
      · omega
      · exact .inr inAround
      · omega
    · exact .inr inAround
  · exact fun either => either.imp_left .inl

theorem selected_rest
    (chosen : choice ∈ ∅ :: (selections (next + 1) inner).map (insert next)) :
    selected (choice ∪ later ∪ around.toFinset)
        (sitesOfParts around (next + 1 + groupCount inner) rest) =
      selected (later ∪ around.toFinset)
        (sitesOfParts around (next + 1 + groupCount inner) rest) := by
  apply selected_congr
  intro site member group inChain
  have place := (chain_of_mem member).2 group inChain
  have bounds := @bounds_of_mem_choices _ _ _ chosen group
  simp only [Finset.mem_union, List.mem_toFinset] at place ⊢
  constructor
  · rintro ((inChoice | inLater) | inAround)
    · have := bounds inChoice
      rcases place with inAround | limits
      · exact .inr inAround
      · omega
    · exact .inl inLater
    · exact .inr inAround
  · exact fun either => either.imp_left .inr

/-- The token sequences of parts are what the selections of groups take. -/
theorem expand_eq_map_selected (before : ∀ group ∈ around, group < next) :
    expand parts = (selections next parts).map fun selection =>
      selected (selection ∪ around.toFinset) (sitesOfParts around next parts) := by
  induction next, parts using selections.induct generalizing around with
  | case1 => simp [expand, selections, selected, sitesOfParts]
  | case2 next content rest induction =>
      have taken : ∀ selection : Finset Nat,
          ∀ group ∈ around, group ∈ selection ∪ around.toFinset := fun selection group member =>
        Finset.mem_union_right selection (List.mem_toFinset.mpr member)
      rw [expand, selections, induction before, List.map_map]
      apply List.map_congr_left
      intro selection _
      simp only [Function.comp_apply, sitesOfParts, selected, List.filterMap_cons, Site.taken?,
        if_pos (taken selection)]
  | case3 next inner rest afterGroup within =>
      have restBefore : ∀ group ∈ around, group < next + 1 + groupCount inner := by
        intro group member
        have less := before group member
        omega
      have leftOut : selected (∅ ∪ around.toFinset)
          (sitesOfParts (next :: around) (next + 1) inner) = [] := by
        have inside : ∀ site ∈ sitesOfParts (next :: around) (next + 1) inner,
            next ∈ site.chain := fun site member =>
          (chain_of_mem member).1.subset List.mem_cons_self
        apply selected_eq_nil ?_ inside
        simpa using fun inAround => lt_irrefl next (before next inAround)
      have choices : [] :: expand inner =
          (∅ :: (selections (next + 1) inner).map (insert next)).map fun choice =>
            selected (choice ∪ around.toFinset)
              (sitesOfParts (next :: around) (next + 1) inner) := by
        rw [List.map_cons, leftOut, List.map_map, within (lt_succ_of_open before)]
        simp [Function.comp_def, Finset.union_insert]
      have divided : ∀ selection : Finset Nat,
          selected selection (sitesOfParts around next (.optional inner :: rest)) =
            selected selection (sitesOfParts (next :: around) (next + 1) inner) ++
              selected selection (sitesOfParts around (next + 1 + groupCount inner) rest) := by
        intro selection
        simp only [selected, sitesOfParts, List.filterMap_cons, Site.taken?, List.filterMap_append]
      rw [expand, choices, afterGroup restBefore, selections, List.flatMap_map, List.map_flatMap]
      apply List.flatMap_congr
      intro choice chosen
      rw [List.map_map, List.map_map]
      apply List.map_congr_left
      intro later inRest
      simp only [Function.comp_apply, divided, selected_inner inRest, selected_rest chosen]

end UrlRouting.Pattern
