import UrlRouting.Proofs.Pattern.Printing

/-!
Which patterns are rejected. A pattern is read from the left in units: a variable is one unit,
whatever brackets it holds, and any other character is a unit by itself. Groups are nested, but a
pattern compiles just if counting the brackets among its units finds none that is unmatched, and
its first variant then has all the other units.
-/

namespace UrlRouting.Pattern

/-- The variables of a text, where it reads as variables, and its other characters. -/
def units : List Char → List (Char ⊕ Variable)
  | [] => []
  | character :: rest =>
      match _taken : takeVariable? character rest with
      | some (parameter, others) => .inr parameter :: units others
      | none => .inl character :: units rest
termination_by text => text.length
decreasing_by
  · exact Nat.lt_succ_of_le (length_of_takeVariable? _taken)
  · exact Nat.lt_succ_self _

def beginsGroup : Char ⊕ Variable → Bool
  | .inl character => character == '['
  | .inr _ => false

def endsGroup : Char ⊕ Variable → Bool
  | .inl character => character == ']'
  | .inr _ => false

def contents (units : List (Char ⊕ Variable)) : List (Char ⊕ Variable) :=
  units.filter fun unit => !(beginsGroup unit || endsGroup unit)

/-- Whether a bracket ends a group where none is open. -/
def EndsNothing (units : List (Char ⊕ Variable)) : Prop :=
  ∃ before unit after, units = before ++ unit :: after ∧ endsGroup unit = true ∧
    before.countP beginsGroup ≤ before.countP endsGroup

/-- Whether a group is still open at the end. -/
def LeavesOpen (units : List (Char ⊕ Variable)) : Prop :=
  units.countP endsGroup < units.countP beginsGroup

theorem units_of_eq_some {character : Char} {rest others : List Char} {parameter : Variable}
    (taken : takeVariable? character rest = some (parameter, others)) :
    units (character :: rest) = .inr parameter :: units others := by
  rw [units]
  split
  case h_1 takenToo =>
    rw [taken] at takenToo
    cases takenToo
    rfl
  case h_2 refused =>
    rw [taken] at refused
    cases refused

theorem units_of_eq_none {character : Char} {rest : List Char}
    (refused : takeVariable? character rest = none) :
    units (character :: rest) = .inl character :: units rest := by
  rw [units]
  split
  case h_1 taken =>
    rw [refused] at taken
    cases taken
  case h_2 => rfl

theorem units_opening (rest : List Char) : units ('[' :: rest) = .inl '[' :: units rest :=
  units_of_eq_none rfl

theorem units_closing (rest : List Char) : units (']' :: rest) = .inl ']' :: units rest :=
  units_of_eq_none rfl

/-! ### Counting brackets -/

/-- Whether the brackets among some units match, where `depth` groups were open before. -/
structure Matched (depth : Nat) (units : List (Char ⊕ Variable)) : Prop where
  along : ∀ before, before <+: units →
    before.countP endsGroup ≤ depth + before.countP beginsGroup
  whole : units.countP endsGroup = depth + units.countP beginsGroup

theorem matched_nil_iff {depth : Nat} : Matched depth [] ↔ depth = 0 := by
  constructor
  · intro matched
    simpa using matched.whole.symm
  · rintro rfl
    refine ⟨fun before start => ?_, rfl⟩
    rw [List.prefix_nil.mp start]
    exact Nat.le_refl _

theorem matched_cons_iff {depth next : Nat} {unit : Char ⊕ Variable}
    {rest : List (Char ⊕ Variable)}
    (moves : next + (if endsGroup unit then 1 else 0) =
      depth + if beginsGroup unit then 1 else 0) :
    Matched depth (unit :: rest) ↔ Matched next rest := by
  constructor
  · intro matched
    constructor
    · intro before start
      have bound := matched.along _ (List.cons_prefix_cons.mpr ⟨rfl, start⟩)
      simp only [List.countP_cons] at bound
      omega
    · have equal := matched.whole
      simp only [List.countP_cons] at equal
      omega
  · intro matched
    constructor
    · intro before start
      rcases List.prefix_cons_iff.mp start with rfl | ⟨others, rfl, within⟩
      · exact Nat.zero_le _
      · have bound := matched.along others within
        simp only [List.countP_cons]
        omega
    · have equal := matched.whole
      simp only [List.countP_cons]
      omega

theorem not_matched_closing (rest : List (Char ⊕ Variable)) :
    ¬ Matched 0 (.inl ']' :: rest) := by
  intro matched
  have bound := matched.along [.inl ']'] ⟨rest, rfl⟩
  simp [endsGroup, beginsGroup] at bound

theorem not_matched_iff {units : List (Char ⊕ Variable)} :
    ¬ Matched 0 units ↔ EndsNothing units ∨ LeavesOpen units := by
  constructor
  · intro unmatched
    by_contra neither
    rw [not_or] at neither
    have along : ∀ before, before <+: units →
        before.countP endsGroup ≤ before.countP beginsGroup := by
      intro before
      induction before using List.reverseRecOn with
      | nil => exact fun _ => Nat.le_refl _
      | append_singleton before last induction =>
          rintro ⟨after, equal⟩
          rw [← List.append_cons] at equal
          have shorter := induction ⟨last :: after, equal⟩
          rw [List.countP_append, List.countP_append, List.countP_singleton,
            List.countP_singleton]
          cases ends : endsGroup last with
          | true =>
              -- The bracket ends a group that is open, since it would end nothing otherwise.
              have isOpen : before.countP endsGroup < before.countP beginsGroup := by
                by_contra none
                exact neither.1 ⟨before, last, after, equal.symm, ends, by omega⟩
              rw [if_pos rfl]
              omega
          | false =>
              rw [if_neg (by simp)]
              omega
    have bound := along units List.prefix_rfl
    have closed : ¬ units.countP endsGroup < units.countP beginsGroup := neither.2
    exact unmatched ⟨fun before start => by simpa using along before start, by omega⟩
  · rintro (⟨before, unit, after, rfl, ends, noneOpen⟩ | leftOpen) matched
    · have bound := matched.along (before ++ [unit]) ⟨after, by simp⟩
      have noBeginning : beginsGroup unit = false := by
        cases unit with
        | inl character =>
            rw [endsGroup, beq_iff_eq] at ends
            rw [ends]
            rfl
        | inr parameter => rfl
      simp only [List.countP_append, List.countP_singleton, ends, noBeginning, if_true] at bound
      simp at bound
      omega
    · have equal := matched.whole
      rw [LeavesOpen] at leftOpen
      omega

/-! ### Nesting -/

/-- How many groups are open decides whether nesting succeeds, not what stands in them. -/
theorem isSome_nest?_congr {outer outerToo : List (List Part)}
    (same : outer.length = outerToo.length) (inner innerToo : List Part) (lexemes : List Lexeme) :
    (nest? outer inner lexemes).isSome = (nest? outerToo innerToo lexemes).isSome := by
  induction lexemes generalizing outer outerToo inner innerToo with
  | nil =>
      rw [nest?, nest?]
      cases outer with
      | nil =>
          rw [List.length_nil] at same
          rw [List.eq_nil_of_length_eq_zero same.symm]
          rfl
      | cons parts outer =>
          cases outerToo with
          | nil => cases same
          | cons partsToo outerToo => rfl
  | cons lexeme rest induction =>
      cases lexeme with
      | opening =>
          rw [nest?, nest?]
          exact induction (by simpa using same) ..
      | closing =>
          cases outer with
          | nil =>
              rw [List.length_nil] at same
              rw [List.eq_nil_of_length_eq_zero same.symm]
              rfl
          | cons parts outer =>
              cases outerToo with
              | nil => cases same
              | cons partsToo outerToo =>
                  rw [nest?, nest?]
                  exact induction (by simpa using same) ..
      | literal text =>
          rw [nest?, nest?]
          exact induction same ..
      | placeholder parameter =>
          rw [nest?, nest?]
          exact induction same ..

theorem isSome_nest?_addCharacter (outer : List (List Part)) (inner : List Part)
    (character : Char) (lexemes : List Lexeme) :
    (nest? outer inner (addCharacter character lexemes)).isSome =
      (nest? outer inner lexemes).isSome := by
  rw [addCharacter.eq_def]
  split
  case h_1 text rest =>
    rw [nest?, nest?]
    exact isSome_nest?_congr rfl ..
  case h_2 =>
    rw [nest?]
    exact isSome_nest?_congr rfl ..

theorem isSome_nest?_iff (outer : List (List Part)) (inner : List Part) (text : List Char) :
    (nest? outer inner (lexemes true text)).isSome = true ↔
      Matched outer.length (units text) := by
  fun_induction lexemes true text generalizing outer inner with
  | case1 =>
      rw [units, nest?, matched_nil_iff]
      cases outer <;> simp
  | case2 character rest opens induction =>
      have opening : character = '[' := by simpa using opens
      subst opening
      rw [units_opening, nest?, induction]
      exact (matched_cons_iff rfl).symm
  | case3 character rest notOpening closes induction =>
      have closing : character = ']' := by simpa using closes
      subst closing
      rw [units_closing]
      cases outer with
      | nil => simp [nest?, not_matched_closing]
      | cons parts outer =>
          rw [nest?, induction]
          exact (matched_cons_iff rfl).symm
  | case4 character rest notOpening notClosing parameter others taken induction =>
      rw [units_of_eq_some taken, nest?, induction]
      exact (matched_cons_iff rfl).symm
  | case5 character rest notOpening notClosing refused induction =>
      rw [units_of_eq_none refused, isSome_nest?_addCharacter, induction]
      have begins : beginsGroup (.inl character) = false := by simpa [beginsGroup] using notOpening
      have ends : endsGroup (.inl character) = false := by simpa [endsGroup] using notClosing
      exact (matched_cons_iff (by rw [begins, ends])).symm

/-! ### The first variant -/

theorem symbols_addCharacter (character : Char) (lexemes : List Lexeme) :
    ((addCharacter character lexemes).filterMap Lexeme.token?).flatMap Token.symbols =
      .inl character :: (lexemes.filterMap Lexeme.token?).flatMap Token.symbols := by
  rw [addCharacter.eq_def]
  split
  case h_1 text rest => simp [Lexeme.token?, Token.symbols]
  case h_2 => simp [Lexeme.token?, Token.symbols]

theorem symbols_lexemes (text : List Char) :
    ((lexemes true text).filterMap Lexeme.token?).flatMap Token.symbols =
      contents (units text) := by
  fun_induction lexemes true text with
  | case1 =>
      rw [units]
      rfl
  | case2 character rest opens induction =>
      have opening : character = '[' := by simpa using opens
      subst opening
      rw [units_opening]
      exact induction
  | case3 character rest notOpening closes induction =>
      have closing : character = ']' := by simpa using closes
      subst closing
      rw [units_closing]
      exact induction
  | case4 character rest notOpening notClosing parameter others taken induction =>
      rw [units_of_eq_some taken]
      exact congrArg _ induction
  | case5 character rest notOpening notClosing refused induction =>
      have begins : beginsGroup (.inl character) = false := by simpa [beginsGroup] using notOpening
      have ends : endsGroup (.inl character) = false := by simpa [endsGroup] using notClosing
      rw [units_of_eq_none refused, symbols_addCharacter, induction, contents, contents,
        List.filter_cons_of_pos (by rw [begins, ends]; rfl)]

theorem getLast?_symbolLists_optional {inner rest : List Part}
    {within after : List (Char ⊕ Variable)} (last : (symbolLists inner).getLast? = some within)
    (lastOfRest : (symbolLists rest).getLast? = some after) :
    (symbolLists (.optional inner :: rest)).getLast? = some (within ++ after) := by
  rcases List.getLast?_eq_some_iff.mp last with ⟨before, whole⟩
  rw [symbolLists_optional, whole, ← List.cons_append, List.flatMap_append, List.flatMap_singleton,
    List.getLast?_append, List.getLast?_map, lastOfRest]
  rfl

theorem Nests.getLast?_symbolLists {lexemes : List Lexeme} {parts : List Part}
    (nested : Nests lexemes parts) :
    (symbolLists parts).getLast? =
      some ((lexemes.filterMap Lexeme.token?).flatMap Token.symbols) := by
  induction nested with
  | nil => simp [symbolLists, expand]
  | literal _ induction =>
      rw [symbolLists_token, List.getLast?_map, induction]
      rfl
  | placeholder _ _ induction =>
      rw [symbolLists_token, List.getLast?_map, induction]
      rfl
  | @optional parameter _ _ _ _ induction =>
      have alone : (symbolLists [.token (.placeholder parameter)]).getLast? =
          some [.inr parameter] := by
        simp [symbolLists, expand, Token.symbols]
      rw [getLast?_symbolLists_optional alone induction]
      rfl
  | group _ _ within after =>
      rw [getLast?_symbolLists_optional within after, List.filterMap_cons_none rfl,
        List.filterMap_append, List.filterMap_cons_none rfl, List.flatMap_append]

theorem exists_compile_of_matched {pattern : String} (matched : Matched 0 (units pattern.toList)) :
    ∃ others, compile pattern =
      .ok (Variant.ofSymbols (contents (units pattern.toList)) :: others) := by
  have nests := (isSome_nest?_iff [] [] pattern.toList).mpr matched
  rcases Option.isSome_iff_exists.mp nests with ⟨decided, nested⟩
  have first := (nests_of_nest? nested (.nothing .nil)).getLast?_symbolLists
  rw [List.nil_append, symbols_lexemes] at first
  have merged : (expand decided).map Variant.ofTokens =
      (symbolLists decided).map Variant.ofSymbols := by
    rw [symbolLists, List.map_map]
    apply List.map_congr_left
    intro tokens member
    rw [Variant.ofTokens, mergeLiterals_eq_foldr (empty_notMem_of_mem_expand nested member)]
    rfl
  rcases List.getLast?_eq_some_iff.mp first with ⟨before, whole⟩
  refine ⟨(before.map Variant.ofSymbols).reverse, ?_⟩
  rw [compile, parts, nested]
  simp only [Bind.bind, Except.bind, pure, Except.pure, merged, whole, List.map_append,
    List.reverse_append]
  rfl

theorem compile_of_not_matched {pattern : String}
    (unmatched : ¬ Matched 0 (units pattern.toList)) :
    compile pattern = .error (.unmatchedBrackets pattern) := by
  have refused : nest? [] [] (lexemes true pattern.toList) = none := by
    rw [← Option.not_isSome_iff_eq_none, isSome_nest?_iff]
    exact unmatched
  rw [compile, parts, refused]
  rfl

/-- A pattern is rejected just if one of its brackets is unmatched: one ends a group where none is
open, or a group is open at the end, brackets within variables apart. Any other pattern compiles,
whatever braces and colons it has, and its first variant has all its characters and variables but
for the brackets. -/
theorem compile_rejects_unmatched (pattern : String) :
    (compile pattern = .error (.unmatchedBrackets pattern) ↔
      EndsNothing (units pattern.toList) ∨ LeavesOpen (units pattern.toList)) ∧
    ((∃ others, compile pattern =
        .ok (Variant.ofSymbols (contents (units pattern.toList)) :: others)) ↔
      ¬ (EndsNothing (units pattern.toList) ∨ LeavesOpen (units pattern.toList))) := by
  rw [← not_matched_iff]
  by_cases matched : Matched 0 (units pattern.toList)
  · rcases exists_compile_of_matched matched with ⟨others, compiled⟩
    constructor
    · simp [compiled, matched]
    · simp [compiled, matched]
  · have refused := compile_of_not_matched matched
    constructor
    · simp [refused, matched]
    · simp [refused, matched]

/-- A bracket within a variable closes no group. -/
example : compile "/a[{b:]}" = .error (.unmatchedBrackets "/a[{b:]}") := by cbv

end UrlRouting.Pattern
