/-!
Classes of characters, as ranges of codes. The ranges of a class stand in increasing order with gaps
between them, so a class has one form, and the number of its ranges says how much it takes to store
it. Main statements: a class made of ranges holds the codes of those ranges, and the complement of a
class holds the characters that the class does not hold.
-/

namespace UrlRouting.Regex

structure CodeRange where
  first : Nat
  last : Nat
  first_le_last : first ≤ last
  deriving DecidableEq

namespace CodeRange

def single (character : Char) : CodeRange :=
  { first := character.toNat, last := character.toNat, first_le_last := Nat.le_refl _ }

def between? (first last : Nat) : Option CodeRange :=
  if first_le_last : first ≤ last then some { first, last, first_le_last } else none

def contains (range : CodeRange) (code : Nat) : Bool :=
  range.first ≤ code && code ≤ range.last

theorem contains_iff (range : CodeRange) (code : Nat) :
    range.contains code = true ↔ range.first ≤ code ∧ code ≤ range.last := by
  simp [contains]

theorem contains_eq_false_of_lt (range : CodeRange) (code : Nat) (after : range.last < code) :
    range.contains code = false := by
  rw [Bool.eq_false_iff, ne_eq, contains_iff]
  omega

def hull (left right : CodeRange) : CodeRange where
  first := min left.first right.first
  last := max left.last right.last
  first_le_last := by
    have := left.first_le_last
    omega

def capitals? (range : CodeRange) : Option CodeRange :=
  between? (max range.first 97 - 32) (min range.last 122 - 32)

def smalls? (range : CodeRange) : Option CodeRange :=
  between? (max range.first 65 + 32) (min range.last 90 + 32)

/-- The ASCII letters of a range in their other case. Only the small letters count in a range that
has small letters, even if it has capital ones, too. -/
def otherCase? (range : CodeRange) : Option CodeRange :=
  range.capitals? <|> range.smalls?

end CodeRange

inductive AsciiClass
  | alnum
  | alpha
  | ascii
  | blank
  | cntrl
  | digit
  | graph
  | lower
  | print
  | punct
  | space
  | upper
  | word
  | xdigit
  deriving DecidableEq

namespace AsciiClass

def runs : AsciiClass → List (Nat × Nat)
  | alnum => [(48, 57), (65, 90), (97, 122)]
  | alpha => [(65, 90), (97, 122)]
  | ascii => [(0, 127)]
  | blank => [(9, 9), (32, 32)]
  | cntrl => [(0, 31), (127, 127)]
  | digit => [(48, 57)]
  | graph => [(33, 126)]
  | lower => [(97, 122)]
  | print => [(32, 126)]
  | punct => [(33, 47), (58, 64), (91, 96), (123, 126)]
  | space => [(9, 13), (32, 32)]
  | upper => [(65, 90)]
  | word => [(48, 57), (65, 90), (95, 95), (97, 122)]
  | xdigit => [(48, 57), (65, 70), (97, 102)]

def ranges (kind : AsciiClass) : List CodeRange :=
  kind.runs.filterMap fun (first, last) => CodeRange.between? first last

def contains (kind : AsciiClass) (character : Char) : Bool :=
  kind.ranges.any (·.contains character.toNat)

def ofName? : String → Option AsciiClass
  | "alnum" => some alnum
  | "alpha" => some alpha
  | "ascii" => some ascii
  | "blank" => some blank
  | "cntrl" => some cntrl
  | "digit" => some digit
  | "graph" => some graph
  | "lower" => some lower
  | "print" => some print
  | "punct" => some punct
  | "space" => some space
  | "upper" => some upper
  | "word" => some word
  | "xdigit" => some xdigit
  | _ => none

end AsciiClass

def Increasing (ranges : List CodeRange) : Prop :=
  ranges.Pairwise fun left right => left.last + 1 < right.first

structure CharClass where
  ranges : List CodeRange
  increasing : Increasing ranges

namespace CharClass

def maxCode : Nat := 0x10FFFF

/-- Enter a range among ranges in increasing order. It is joined with those that it meets and those
right beside it. -/
def insert (range : CodeRange) : List CodeRange → List CodeRange
  | [] => [range]
  | other :: others =>
      if range.last + 1 < other.first then range :: other :: others
      else if other.last + 1 < range.first then other :: insert range others
      else insert (range.hull other) others

theorem contains_insert (range : CodeRange) (ranges : List CodeRange) (code : Nat) :
    (insert range ranges).any (·.contains code) =
      (range.contains code || ranges.any (·.contains code)) := by
  fun_induction insert range ranges with
  | case1 => simp
  | case2 => simp
  | case3 range other others _ _ ih =>
      simp only [List.any_cons, ih]
      cases other.contains code <;> simp
  | case4 range other others notBefore notAfter ih =>
      have joined : (range.hull other).contains code =
          (range.contains code || other.contains code) := by
        have := range.first_le_last
        have := other.first_le_last
        rw [Bool.eq_iff_iff, Bool.or_eq_true]
        simp only [CodeRange.contains_iff, CodeRange.hull]
        omega
      simp [ih, joined, Bool.or_assoc]

theorem lt_first_insert (bound : Nat) (range : CodeRange) (ranges : List CodeRange)
    (before : bound < range.first) (beforeAll : ∀ other ∈ ranges, bound < other.first) :
    ∀ other ∈ insert range ranges, bound < other.first := by
  fun_induction insert range ranges with
  | case1 => simpa using before
  | case2 => simp_all
  | case3 range other others _ _ ih => simp_all
  | case4 range other others _ _ ih =>
      refine ih ?_ fun another member => beforeAll another (List.mem_cons_of_mem _ member)
      have := beforeAll other List.mem_cons_self
      simp only [CodeRange.hull]
      omega

theorem increasing_insert (range : CodeRange) (ranges : List CodeRange)
    (increasing : Increasing ranges) : Increasing (insert range ranges) := by
  fun_induction insert range ranges with
  | case1 => exact List.pairwise_singleton _ _
  | case2 range other others before =>
      refine List.pairwise_cons.2 ⟨fun another member => ?_, increasing⟩
      rcases List.mem_cons.1 member with rfl | member
      · exact before
      · have := (List.pairwise_cons.1 increasing).1 another member
        have := other.first_le_last
        omega
  | case3 range other others _ after ih =>
      obtain ⟨separate, increasing⟩ := List.pairwise_cons.1 increasing
      exact List.pairwise_cons.2 ⟨lt_first_insert _ range others after separate, ih increasing⟩
  | case4 range other others _ _ ih => exact ih (List.pairwise_cons.1 increasing).2

def ofRanges : List CodeRange → CharClass
  | [] => { ranges := [], increasing := List.Pairwise.nil }
  | range :: others =>
      let rest := ofRanges others
      { ranges := insert range rest.ranges
        increasing := increasing_insert range rest.ranges rest.increasing }

def single (character : Char) : CharClass :=
  ofRanges [.single character]

def contains (set : CharClass) (character : Char) : Bool :=
  set.ranges.any (·.contains character.toNat)

theorem contains_ofRanges (ranges : List CodeRange) (character : Char) :
    (ofRanges ranges).contains character = ranges.any (·.contains character.toNat) := by
  induction ranges with
  | nil => rfl
  | cons range others ih =>
      rw [contains] at ih
      simp only [contains, ofRanges, contains_insert, ih, List.any_cons]

def ignoringCase (set : CharClass) : CharClass :=
  ofRanges (set.ranges ++ set.ranges.filterMap CodeRange.otherCase?)

def gaps (start : Nat) : List CodeRange → List CodeRange
  | [] => (CodeRange.between? start maxCode).toList
  | range :: others =>
      if before : start < range.first then
        { first := start, last := range.first - 1, first_le_last := by omega } ::
          gaps (range.last + 1) others
      else
        gaps (range.last + 1) others

theorem le_first_gaps (start : Nat) (ranges : List CodeRange) (increasing : Increasing ranges)
    (after : ∀ range ∈ ranges, start ≤ range.first) :
    ∀ gap ∈ gaps start ranges, start ≤ gap.first := by
  induction ranges generalizing start with
  | nil =>
      simp only [gaps, CodeRange.between?]
      split <;> simp
  | cons range others ih =>
      obtain ⟨separate, increasing⟩ := List.pairwise_cons.1 increasing
      have later := ih (range.last + 1) increasing fun other member => by
        have := separate other member
        omega
      have := after range List.mem_cons_self
      have := range.first_le_last
      intro gap member
      simp only [gaps] at member
      split at member
      · rcases List.mem_cons.1 member with rfl | member
        · exact Nat.le_refl _
        · have := later gap member
          omega
      · have := later gap member
        omega

theorem increasing_gaps (start : Nat) (ranges : List CodeRange)
    (increasing : Increasing ranges) : Increasing (gaps start ranges) := by
  induction ranges generalizing start with
  | nil =>
      simp only [gaps, CodeRange.between?]
      split <;> simp [Increasing]
  | cons range others ih =>
      obtain ⟨separate, increasing⟩ := List.pairwise_cons.1 increasing
      have := range.first_le_last
      simp only [gaps]
      split
      · refine List.pairwise_cons.2 ⟨fun gap member => ?_, ih _ increasing⟩
        have := le_first_gaps (range.last + 1) others increasing
          (fun other member => by have := separate other member; omega) gap member
        simp only
        omega
      · exact ih _ increasing

def complement (set : CharClass) : CharClass where
  ranges := gaps 0 set.ranges
  increasing := increasing_gaps 0 set.ranges set.increasing

theorem contains_gaps (start : Nat) (ranges : List CodeRange) (increasing : Increasing ranges)
    (after : ∀ range ∈ ranges, start ≤ range.first) (code : Nat) (bounded : code ≤ maxCode) :
    (gaps start ranges).any (·.contains code) =
      (decide (start ≤ code) && !ranges.any (·.contains code)) := by
  induction ranges generalizing start with
  | nil =>
      simp only [gaps, CodeRange.between?]
      split <;> simp [CodeRange.contains] <;> omega
  | cons range others ih =>
      obtain ⟨separate, increasing⟩ := List.pairwise_cons.1 increasing
      have later := ih (range.last + 1) increasing fun other member => by
        have := separate other member
        omega
      have ordered := range.first_le_last
      have starts := after range List.mem_cons_self
      have none_before : code ≤ range.last → others.any (·.contains code) = false := by
        intro inside
        refine List.any_eq_false.2 fun other member => ?_
        have := separate other member
        simp only [CodeRange.contains, Bool.and_eq_true, decide_eq_true_eq]
        omega
      by_cases inside : code ≤ range.last
      · have late : (gaps (range.last + 1) others).any (·.contains code) = false := by
          have : ¬range.last + 1 ≤ code := by omega
          simp [later, this]
        simp only [gaps]
        split <;> rw [Bool.eq_iff_iff] <;>
          simp [List.any_cons, -List.any_eq_true, -List.any_eq_false, late, none_before inside,
            CodeRange.contains_iff, Bool.eq_false_iff] <;>
          omega
      · have start_le : start ≤ code := by omega
        have range_lt : range.last + 1 ≤ code := by omega
        have here := range.contains_eq_false_of_lt code range_lt
        simp only [gaps]
        split
        · rw [List.any_cons, CodeRange.contains_eq_false_of_lt _ _ (by simp only; omega)]
          simp [-List.any_eq_true, -List.any_eq_false, later, here, start_le, range_lt]
        · simp [-List.any_eq_true, -List.any_eq_false, later, here, start_le, range_lt]

theorem contains_complement (set : CharClass) (character : Char) :
    set.complement.contains character = !set.contains character := by
  have bounded : character.toNat ≤ maxCode := by
    have := character.valid
    simp only [UInt32.isValidChar, Nat.isValidChar] at this
    simp only [Char.toNat, maxCode]
    omega
  have := contains_gaps 0 set.ranges set.increasing (fun _ _ => Nat.zero_le _) character.toNat
    bounded
  simpa [contains, complement] using this

def ofAscii (kind : AsciiClass) (negated : Bool) : CharClass :=
  let set := ofRanges kind.ranges
  if negated then set.complement else set

example : (single 'k').ignoringCase.ranges.map (·.first) = [75, 107] := by decide

/-- The capital letters of a range that has small ones, too, stay capital. -/
example : (ofRanges (CodeRange.between? 64 99).toList).ignoringCase.contains 'z' = false := by
  decide

end CharClass

end UrlRouting.Regex
