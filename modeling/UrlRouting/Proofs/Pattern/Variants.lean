import UrlRouting.Proofs.Pattern.Selections

/-!
The variants of a pattern. They are its selections of groups, each once, and a variant comes before
those whose groups it has besides others.
-/

namespace UrlRouting.Pattern

def Token.symbols : Token → List (Char ⊕ Variable)
  | literal text => text.toList.map .inl
  | placeholder parameter => [.inr parameter]

/-- Whether a variant is that of a selection: it holds the tokens of the pattern that stand in no
group left out, in their order, with adjacent literals merged and without empty ones. -/
structure Variant.Shows (variant : Variant) (pattern : String) (selection : Finset Nat) : Prop where
  symbols : variant.tokens.flatMap Token.symbols =
    (selected selection (sitesOf pattern)).flatMap Token.symbols
  merged : Separated variant.tokens
  nonempty : .literal "" ∉ variant.tokens

/-- Whether variants are those of selections, one by one, and the selections are all those of a
pattern, each once and before those that it contains. -/
structure Enumerates (pattern : String) (variants : List Variant) (selections : List (Finset Nat)) :
    Prop where
  shown : List.Forall₂ (fun variant selection => variant.Shows pattern selection) variants selections
  complete : ∀ selection, selection ∈ selections ↔ IsSelection pattern selection
  once : selections.Nodup
  ordered : selections.Pairwise fun earlier later => ¬ earlier ⊂ later

theorem mem_groupsOf_iff {pattern : String} {number : Nat} :
    number ∈ groupsOf pattern ↔ ∃ around, .group number around ∈ sitesOf pattern := by
  rw [groupsOf, List.mem_toFinset, List.mem_filterMap]
  constructor
  · rintro ⟨site, member, isGroup⟩
    cases site with
    | group other around =>
        cases isGroup
        exact ⟨around, member⟩
    | token content around => cases isGroup
  · rintro ⟨around, member⟩
    exact ⟨_, member, rfl⟩

theorem symbols_mergeLiterals (tokens : List Token) :
    (mergeLiterals tokens).flatMap Token.symbols = tokens.flatMap Token.symbols := by
  fun_induction mergeLiterals tokens with
  | case1 => rfl
  | case2 text rest next others merged induction =>
      rw [merged, List.flatMap_cons] at induction
      simp [Token.symbols, ← induction]
  | case3 text rest _ induction => simp [induction]
  | case4 parameter rest induction => simp [induction]

variable {pattern : String} {variants : List Variant} {selection : Finset Nat}

theorem group_mem_of_chain (compiled : compile pattern = .ok variants) {site : Site}
    (member : site ∈ sitesOf pattern) {number : Nat} {outer : List Nat}
    (suffix : number :: outer <:+ site.chain) : .group number outer ∈ sitesOf pattern := by
  rcases exists_parts_of_compile compiled with ⟨parts, nested, -⟩
  rw [sitesOf_eq nested] at member ⊢
  rcases group_mem_of_suffix member suffix with opened | found
  · simp at opened
  · exact found

theorem eq_of_group_mem_sitesOf (compiled : compile pattern = .ok variants) {number : Nat}
    {first second : List Nat} (member : .group number first ∈ sitesOf pattern)
    (other : .group number second ∈ sitesOf pattern) : first = second := by
  rcases exists_parts_of_compile compiled with ⟨parts, nested, -⟩
  rw [sitesOf_eq nested] at member other
  exact eq_of_group_mem member other

theorem isSelection_groupsOf (compiled : compile pattern = .ok variants) :
    IsSelection pattern (groupsOf pattern) := by
  intro number member
  rcases mem_groupsOf_iff.mp member with ⟨around, inSites⟩
  refine ⟨around, inSites, fun group inAround => ?_⟩
  rcases List.append_of_mem inAround with ⟨before, outer, split⟩
  apply mem_groupsOf_iff.mpr
  refine ⟨outer, group_mem_of_chain compiled inSites ⟨number :: before, ?_⟩⟩
  rw [Site.chain, split, List.cons_append]

theorem isSelection_empty : IsSelection pattern ∅ := by
  intro number taken
  simp at taken

theorem subset_groupsOf (selects : IsSelection pattern selection) :
    selection ⊆ groupsOf pattern := by
  intro number taken
  rcases selects number taken with ⟨around, inSites, -⟩
  exact mem_groupsOf_iff.mpr ⟨around, inSites⟩

theorem shows_ofTokens {tokens : List Token} (taken : tokens = selected selection (sitesOf pattern))
    (nonempty : .literal "" ∉ tokens) : (Variant.ofTokens tokens).Shows pattern selection where
  symbols := by rw [Variant.ofTokens, symbols_mergeLiterals, taken]
  merged := separated_mergeLiterals tokens
  nonempty := empty_notMem_mergeLiterals nonempty

theorem exists_enumerates (compiled : compile pattern = .ok variants) :
    ∃ selections, Enumerates pattern variants selections := by
  rcases exists_parts_of_compile compiled with ⟨parts, nested, rfl⟩
  have sites := sitesOf_eq nested
  have expanded : expand parts =
      (selections 0 parts).map fun selection => selected selection (sitesOf pattern) := by
    have taken := @expand_eq_map_selected parts [] 0 (by simp)
    simpa [sites] using taken
  refine ⟨(selections 0 parts).reverse, ?_, ?_, ?_, ?_⟩
  · rw [List.forall₂_reverse_iff, expanded, List.map_map, List.forall₂_map_left_iff,
      List.forall₂_same]
    intro selection inSelections
    refine shows_ofTokens rfl (empty_notMem_of_mem_expand nested ?_)
    rw [expanded]
    exact List.mem_map_of_mem inSelections
  · intro selection
    have none : ∀ group ∈ ([] : List Nat), group < 0 := by simp
    rw [List.mem_reverse, mem_selections_iff none, isSelection_iff_closed, sites]
  · exact List.nodup_reverse.mpr (nodup_selections 0 parts)
  · rw [List.pairwise_reverse]
    exact (pairwise_selections 0 parts).imp fun apart contained => apart contained.subset

theorem Enumerates.exists_selection {selections : List (Finset Nat)}
    (enumerates : Enumerates pattern variants selections) {variant : Variant}
    (member : variant ∈ variants) :
    ∃ selection, IsSelection pattern selection ∧ variant.Shows pattern selection := by
  rcases List.getElem_of_mem member with ⟨index, inVariants, rfl⟩
  have inSelections := enumerates.shown.length_eq ▸ inVariants
  exact ⟨selections[index], (enumerates.complete _).mp (List.getElem_mem inSelections),
    enumerates.shown.get inVariants inSelections⟩

theorem head?_eq_some_of_pairwise {α : Type*} {relation : α → α → Prop} {values : List α}
    {value : α} (ordered : values.Pairwise relation) (member : value ∈ values)
    (first : ∀ other ∈ values, relation other value → other = value) :
    values.head? = some value := by
  cases values with
  | nil => cases member
  | cons head tail =>
      rcases List.mem_cons.mp member with rfl | inTail
      · rfl
      · rw [List.head?_cons,
          first head (List.mem_cons_self ..) ((List.pairwise_cons.mp ordered).1 value inTail)]

theorem Enumerates.head?_eq {selections : List (Finset Nat)}
    (enumerates : Enumerates pattern variants selections)
    (compiled : compile pattern = .ok variants) : selections.head? = some (groupsOf pattern) := by
  apply head?_eq_some_of_pairwise enumerates.ordered
  · exact (enumerates.complete _).mpr (isSelection_groupsOf compiled)
  · intro other inSelections notContained
    by_contra different
    have contained := subset_groupsOf ((enumerates.complete _).mp inSelections)
    exact notContained (contained.ssubset_of_ne different)

/-- The variants of a pattern are its selections of groups, each once: all groups come first, none
last, and what contains another selection stands before it. -/
theorem compile_enumerates_selections (compiled : compile pattern = .ok variants) :
    ∃ selections, Enumerates pattern variants selections ∧
      selections.head? = some (groupsOf pattern) ∧ selections.getLast? = some ∅ := by
  rcases exists_enumerates compiled with ⟨selections, enumerates⟩
  refine ⟨selections, enumerates, enumerates.head?_eq compiled, ?_⟩
  rw [← List.head?_reverse]
  apply head?_eq_some_of_pairwise (List.pairwise_reverse.mpr enumerates.ordered)
  · exact List.mem_reverse.mpr ((enumerates.complete ∅).mpr isSelection_empty)
  · intro other _ notContained
    by_contra different
    exact notContained (Finset.empty_ssubset.mpr (Finset.nonempty_iff_ne_empty.mpr different))

theorem compile_enumerates_selections_site :
    ∃ variants, compile "/site[/{name}[/{id}]]" = .ok variants ∧
      variants.map Variant.names = [["name", "id"], ["name"], []] ∧
      ∃ selections, Enumerates "/site[/{name}[/{id}]]" variants selections ∧
        selections.head? = some {0, 1} ∧ selections.getLast? = some ∅ := by
  have compiled : compile "/site[/{name}[/{id}]]" = .ok [
      { tokens := [.literal "/site/", .placeholder ⟨"name", "[^/]+", .one⟩, .literal "/",
        .placeholder ⟨"id", "[^/]+", .one⟩] },
      { tokens := [.literal "/site/", .placeholder ⟨"name", "[^/]+", .one⟩] },
      { tokens := [.literal "/site"] }] := by
    cbv
  have groups : groupsOf "/site[/{name}[/{id}]]" = {0, 1} := by
    have cut : lexemes true "/site[/{name}[/{id}]]".toList =
        [.literal "/site".toList, .opening, .literal "/".toList,
          .placeholder ⟨"name", "[^/]+", .one⟩, .opening, .literal "/".toList,
          .placeholder ⟨"id", "[^/]+", .one⟩, .closing, .closing] := by cbv
    rw [groupsOf, sitesOf, cut]
    decide
  refine ⟨_, compiled, rfl, ?_⟩
  rw [← groups]
  exact compile_enumerates_selections compiled

end UrlRouting.Pattern
