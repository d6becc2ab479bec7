import Mathlib.Data.Finset.Basic
import UrlRouting.Proofs.Pattern.Compile

/-!
Optional groups of a pattern as they are written. A bracket begins a group and an optional variable
is one by itself; groups are numbered in the order in which they begin. `sites` lists the groups and
the tokens of a pattern, each with the groups around it, by counting brackets only. A selection of
groups is closed under nesting, and takes the tokens that stand in no group left out.
-/

namespace UrlRouting.Pattern

/-- A group or a token of a pattern, with the numbers of the groups around it, the innermost first.
-/
inductive Site
  | group (number : Nat) (around : List Nat)
  | token (content : Token) (around : List Nat)
  deriving DecidableEq

namespace Site

def chain : Site → List Nat
  | group number around => number :: around
  | token _ around => around

end Site

/-- The sites of lexemes, given the groups that are open and the number of the next one. -/
def sites (around : List Nat) (next : Nat) : List Lexeme → List Site
  | [] => []
  | .opening :: rest => .group next around :: sites (next :: around) (next + 1) rest
  | .closing :: rest => sites around.tail next rest
  | .literal text :: rest => .token (.literal (String.ofList text)) around :: sites around next rest
  | .placeholder parameter :: rest =>
      if parameter.quantifier = .optional then
        .group next around :: .token (.placeholder parameter) (next :: around) ::
          sites around (next + 1) rest
      else
        .token (.placeholder parameter) around :: sites around next rest

namespace Site

def number? : Site → Option Nat
  | group number _ => some number
  | token _ _ => none

def parameter? : Site → Option Variable
  | group _ _ => none
  | token content _ => content.parameter?

end Site

def sitesOf (pattern : String) : List Site :=
  sites [] 0 (lexemes true pattern.toList)

def groupsOf (pattern : String) : Finset Nat :=
  ((sitesOf pattern).filterMap Site.number?).toFinset

/-- The variables of a pattern, those in groups included. -/
def variablesOf (pattern : String) : List Variable :=
  (sitesOf pattern).filterMap Site.parameter?

/-- The token of a site, if it is one and all groups around it are taken. -/
def Site.taken? (selection : Finset Nat) : Site → Option Token
  | .group _ _ => none
  | .token content around => if ∀ group ∈ around, group ∈ selection then some content else none

def selected (selection : Finset Nat) (sites : List Site) : List Token :=
  sites.filterMap (Site.taken? selection)

/-- Whether each of some groups is there, and the groups around it are open or among them. -/
def Closed (around : List Nat) (sites : List Site) (selection : Finset Nat) : Prop :=
  ∀ number ∈ selection, ∃ outer, .group number outer ∈ sites ∧
    ∀ group ∈ outer, group ∈ around ∨ group ∈ selection

/-- Whether some numbers select groups of a pattern: each is a group of it, and none is taken
without the groups around it. -/
def IsSelection (pattern : String) (selection : Finset Nat) : Prop :=
  ∀ number ∈ selection, ∃ around, .group number around ∈ sitesOf pattern ∧
    ∀ group ∈ around, group ∈ selection

theorem isSelection_iff_closed {pattern : String} {selection : Finset Nat} :
    IsSelection pattern selection ↔ Closed [] (sitesOf pattern) selection := by
  simp [IsSelection, Closed]

/-! ### Nesting as it is written -/

/-- Lexemes whose brackets match, with the parts that they nest to. -/
inductive Nests : List Lexeme → List Part → Prop
  | nil : Nests [] []
  | literal {text : List Char} {rest : List Lexeme} {parts : List Part} :
      Nests rest parts →
        Nests (.literal text :: rest) (.token (.literal (String.ofList text)) :: parts)
  | placeholder {parameter : Variable} {rest : List Lexeme} {parts : List Part} :
      parameter.quantifier ≠ .optional → Nests rest parts →
        Nests (.placeholder parameter :: rest) (.token (.placeholder parameter) :: parts)
  | optional {parameter : Variable} {rest : List Lexeme} {parts : List Part} :
      parameter.quantifier = .optional → Nests rest parts →
        Nests (.placeholder parameter :: rest)
          (.optional [.token (.placeholder parameter)] :: parts)
  | group {within rest : List Lexeme} {inner parts : List Part} :
      Nests within inner → Nests rest parts →
        Nests (.opening :: (within ++ .closing :: rest)) (.optional inner :: parts)

theorem Nests.append {first second : List Lexeme} {before after : List Part}
    (nested : Nests first before) (later : Nests second after) :
    Nests (first ++ second) (before ++ after) := by
  induction nested with
  | nil => exact later
  | literal _ induction => exact .literal induction
  | placeholder required _ induction => exact .placeholder required induction
  | optional optional _ induction => exact .optional optional induction
  | group within _ _ induction =>
      rw [List.cons_append, List.append_assoc, List.cons_append]
      exact .group within induction

inductive Unfinished : List (List Part) → List Part → List Lexeme → Prop
  | nothing {inner : List Part} {read : List Lexeme} :
      Nests read inner.reverse → Unfinished [] inner read
  | group {outer : List (List Part)} {before inner : List Part} {read within : List Lexeme} :
      Unfinished outer before read → Nests within inner.reverse →
        Unfinished (before :: outer) inner (read ++ .opening :: within)

theorem Unfinished.add {outer : List (List Part)} {inner : List Part} {read more : List Lexeme}
    {part : Part} (unfinished : Unfinished outer inner read) (added : Nests more [part]) :
    Unfinished outer (part :: inner) (read ++ more) := by
  cases unfinished with
  | nothing nested =>
      apply Unfinished.nothing
      rw [List.reverse_cons]
      exact nested.append added
  | group before within =>
      rw [List.append_assoc, List.cons_append]
      apply Unfinished.group before
      rw [List.reverse_cons]
      exact within.append added

theorem nests_ofVariable (parameter : Variable) :
    Nests [.placeholder parameter] [.ofVariable parameter] := by
  rw [Part.ofVariable]
  split
  case isTrue optional => exact .optional optional .nil
  case isFalse required => exact .placeholder required .nil

theorem nests_of_nest? {outer : List (List Part)} {inner parts : List Part}
    {read lexemes : List Lexeme} (nested : nest? outer inner lexemes = some parts)
    (unfinished : Unfinished outer inner read) : Nests (read ++ lexemes) parts := by
  induction lexemes generalizing outer inner read with
  | nil =>
      rw [nest?] at nested
      split at nested
      case isTrue finished =>
        cases nested
        cases unfinished with
        | nothing whole => rwa [List.append_nil]
        | group => cases finished
      case isFalse => cases nested
  | cons lexeme rest induction =>
      rw [List.append_cons]
      cases lexeme with
      | opening =>
          rw [nest?] at nested
          exact induction nested (.group unfinished .nil)
      | closing =>
          rw [nest?.eq_def] at nested
          cases unfinished with
          | nothing => cases nested
          | group before within =>
              apply induction nested
              rw [List.append_assoc, List.cons_append]
              exact before.add (.group within .nil)
      | literal text =>
          rw [nest?] at nested
          exact induction nested (unfinished.add (.literal .nil))
      | placeholder parameter =>
          rw [nest?] at nested
          exact induction nested (unfinished.add (nests_ofVariable parameter))

/-! ### Sites of parts -/

def groupCount : List Part → Nat
  | [] => 0
  | .token _ :: rest => groupCount rest
  | .optional inner :: rest => groupCount inner + 1 + groupCount rest

def sitesOfParts (around : List Nat) (next : Nat) : List Part → List Site
  | [] => []
  | .token content :: rest => .token content around :: sitesOfParts around next rest
  | .optional inner :: rest =>
      .group next around :: (sitesOfParts (next :: around) (next + 1) inner ++
        sitesOfParts around (next + 1 + groupCount inner) rest)

theorem Nests.sites_append {lexemes rest : List Lexeme} {parts : List Part}
    (nested : Nests lexemes parts) {around : List Nat} {next : Nat} :
    sites around next (lexemes ++ rest) =
      sitesOfParts around next parts ++ sites around (next + groupCount parts) rest := by
  induction nested generalizing around next rest with
  | nil => simp [sitesOfParts, groupCount]
  | literal _ induction => simp [sites, sitesOfParts, groupCount, induction]
  | placeholder required _ induction =>
      simp [sites, sitesOfParts, groupCount, required, induction]
  | optional optional _ induction =>
      simp [sites, sitesOfParts, groupCount, optional, induction, Nat.add_assoc]
  | @group _ _ inner _ _ _ within later =>
      have counted : next + 1 + groupCount inner = next + (groupCount inner + 1) := by omega
      simp only [List.cons_append, List.append_assoc, sites, within, List.tail_cons, later,
        sitesOfParts, groupCount, counted, Nat.add_assoc]

theorem sitesOf_eq {pattern : String} {parts : List Part}
    (nested : nest? [] [] (lexemes true pattern.toList) = some parts) :
    sitesOf pattern = sitesOfParts [] 0 parts := by
  have written := nests_of_nest? nested (.nothing .nil)
  have whole := @Nests.sites_append _ [] _ written [] 0
  rwa [List.append_nil, sites, List.append_nil] at whole

variable {parts : List Part} {around : List Nat} {next : Nat}

theorem chain_of_mem {site : Site} (member : site ∈ sitesOfParts around next parts) :
    around <:+ site.chain ∧
      ∀ group ∈ site.chain, group ∈ around ∨ next ≤ group ∧ group < next + groupCount parts := by
  fun_induction sitesOfParts around next parts with
  | case1 => cases member
  | case2 around next content rest induction =>
      rcases List.mem_cons.mp member with rfl | later
      · exact ⟨List.suffix_rfl, fun group inChain => .inl inChain⟩
      · rw [groupCount]
        exact induction later
  | case3 around next inner rest within later =>
      rw [groupCount]
      rcases List.mem_cons.mp member with rfl | inside
      · refine ⟨List.suffix_cons next around, fun group inChain => ?_⟩
        rcases List.mem_cons.mp inChain with rfl | inAround
        · exact .inr (by omega)
        · exact .inl inAround
      · rcases List.mem_append.mp inside with inInner | inRest
        · rcases within inInner with ⟨suffix, each⟩
          refine ⟨(List.suffix_cons next around).trans suffix, fun group inChain => ?_⟩
          rcases each group inChain with inAround | between
          · rcases List.mem_cons.mp inAround with rfl | inAround
            · exact .inr (by omega)
            · exact .inl inAround
          · exact .inr (by omega)
        · rcases later inRest with ⟨suffix, each⟩
          refine ⟨suffix, fun group inChain => ?_⟩
          rcases each group inChain with inAround | between
          · exact .inl inAround
          · exact .inr (by omega)

theorem mem_sitesOfParts_optional_iff {inner rest : List Part} {site : Site} :
    site ∈ sitesOfParts around next (.optional inner :: rest) ↔
      site = .group next around ∨ site ∈ sitesOfParts (next :: around) (next + 1) inner ∨
        site ∈ sitesOfParts around (next + 1 + groupCount inner) rest := by
  rw [sitesOfParts, List.mem_cons, List.mem_append]

theorem bounds_of_group_mem {number : Nat} {outer : List Nat}
    (member : .group number outer ∈ sitesOfParts around next parts) :
    next ≤ number ∧ number < next + groupCount parts := by
  induction around, next, parts using sitesOfParts.induct with
  | case1 => simp [sitesOfParts] at member
  | case2 around next content rest induction =>
      rw [sitesOfParts] at member
      rw [groupCount]
      rcases List.mem_cons.mp member with equal | later
      · cases equal
      · exact induction later
  | case3 around next inner rest within afterGroup =>
      rw [groupCount]
      rcases mem_sitesOfParts_optional_iff.mp member with equal | inInner | inRest
      · cases equal
        omega
      · have bounds := within inInner
        omega
      · have bounds := afterGroup inRest
        omega

theorem eq_of_group_mem {number : Nat} {first second : List Nat}
    (member : .group number first ∈ sitesOfParts around next parts)
    (other : .group number second ∈ sitesOfParts around next parts) : first = second := by
  induction around, next, parts using sitesOfParts.induct with
  | case1 => simp [sitesOfParts] at member
  | case2 around next content rest induction =>
      rw [sitesOfParts, List.mem_cons] at member other
      exact induction (member.resolve_left (by simp)) (other.resolve_left (by simp))
  | case3 around next inner rest within afterGroup =>
      rw [mem_sitesOfParts_optional_iff, Site.group.injEq] at member other
      rcases member with ⟨rfl, rfl⟩ | inInner | inRest
      · rcases other with ⟨-, rfl⟩ | inInner | inRest
        · rfl
        · have bounds := bounds_of_group_mem inInner
          omega
        · have bounds := bounds_of_group_mem inRest
          omega
      · have bounds := bounds_of_group_mem inInner
        rcases other with ⟨rfl, -⟩ | otherInner | otherRest
        · omega
        · exact within inInner otherInner
        · have otherBounds := bounds_of_group_mem otherRest
          omega
      · have bounds := bounds_of_group_mem inRest
        rcases other with ⟨rfl, -⟩ | otherInner | otherRest
        · omega
        · have otherBounds := bounds_of_group_mem otherInner
          omega
        · exact afterGroup inRest otherRest

theorem group_mem_of_suffix {site : Site} (member : site ∈ sitesOfParts around next parts)
    {number : Nat} {outer : List Nat} (suffix : number :: outer <:+ site.chain) :
    number :: outer <:+ around ∨ .group number outer ∈ sitesOfParts around next parts := by
  induction around, next, parts using sitesOfParts.induct with
  | case1 => simp [sitesOfParts] at member
  | case2 around next content rest induction =>
      rw [sitesOfParts] at member ⊢
      rcases List.mem_cons.mp member with rfl | later
      · exact .inl suffix
      · exact (induction later).imp_right (List.mem_cons_of_mem _)
  | case3 around next inner rest within afterGroup =>
      have ofOpen : number :: outer <:+ next :: around →
          number :: outer <:+ around ∨
            .group number outer ∈ sitesOfParts around next (.optional inner :: rest) := by
        intro opened
        rcases List.suffix_cons_iff.mp opened with equal | inAround
        · cases equal
          exact .inr (mem_sitesOfParts_optional_iff.mpr (.inl rfl))
        · exact .inl inAround
      rcases mem_sitesOfParts_optional_iff.mp member with rfl | inInner | inRest
      · exact ofOpen suffix
      · rcases within inInner with opened | found
        · exact ofOpen opened
        · exact .inr (mem_sitesOfParts_optional_iff.mpr (.inr (.inl found)))
      · exact (afterGroup inRest).imp_right fun found =>
          mem_sitesOfParts_optional_iff.mpr (.inr (.inr found))

end UrlRouting.Pattern
