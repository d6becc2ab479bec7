import Mathlib.Data.List.TakeDrop
import UrlRouting.Regex.Match
import UrlRouting.Regex.Weight

/-!
What expressions take of a text. `Takes` says which texts can match an expression where conditions
on places are left aside; every stretch that the matcher finds is of that kind. From it follows, by
the shape of an expression alone, that it takes no empty text or none with a certain character.
-/

namespace UrlRouting.Regex

mutual

/-- Whether an expression can take a text if conditions on places are left aside, and it does not
matter how often something is repeated except that it may have to be there. -/
def Takes : Regex → List Char → Prop
  | empty, taken => taken = []
  | exactly character, taken => taken = [character]
  | characters set, taken => ∃ character, set.contains character = true ∧ taken = [character]
  | look _, taken => taken = []
  | repetition inner least _, taken =>
      ∃ parts : List (List Char), (0 < least → parts ≠ []) ∧ (∀ part ∈ parts, inner.Takes part) ∧
        taken = parts.flatten
  | group _ inner, taken => inner.Takes taken
  | concat items, taken => TakesInRow items taken
  | alternation choices, taken => TakesAny choices taken

def TakesInRow : List Regex → List Char → Prop
  | [], taken => taken = []
  | first :: others, taken =>
      ∃ left right, first.Takes left ∧ TakesInRow others right ∧ taken = left ++ right

def TakesAny : List Regex → List Char → Prop
  | [], _ => False
  | first :: others, taken => first.Takes taken ∨ TakesAny others taken

end

/-! ### Places -/

namespace Subject

def rest (subject : Subject) (place : Nat) : List Char :=
  (subject.reversed.toList.take place).reverse

def Between (subject : Subject) (property : List Char → Prop) (start stop : Nat) : Prop :=
  ∃ taken, property taken ∧ subject.rest start = taken ++ subject.rest stop

variable {subject : Subject} {property : List Char → Prop} {start middle stop : Nat}

theorem rest_succ {place : Nat} {character : Char}
    (next : subject.after (place + 1) = some character) :
    subject.rest (place + 1) = character :: subject.rest place := by
  rw [after, ← Array.getElem?_toList] at next
  rw [rest, List.take_add_one, next, Option.toList_some, List.reverse_append]
  rfl

theorem rest_of_before_isNone {text : String}
    (first : ((ofString text).before start).isNone = true) :
    (ofString text).rest start = text.toList := by
  rw [before, Option.isNone_iff_eq_none, Array.getElem?_eq_none_iff] at first
  rw [rest, List.take_of_length_le (by simpa using first), ofString]
  simp

theorem rest_of_after_isNone (inside : stop ≤ subject.size)
    (last : (subject.after stop).isNone = true) : subject.rest stop = [] := by
  cases stop with
  | zero => rfl
  | succ place =>
      rw [after, Option.isNone_iff_eq_none, Array.getElem?_eq_none_iff] at last
      exact absurd inside (by rw [size]; omega)

end Subject

namespace Spans

variable {subject : Subject} {property : List Char → Prop} {spans first second : Spans}
  {start stop : Nat}

theorem mem_row_ofRows {size : Nat} {row : Nat → List Nat}
    (member : stop ∈ (ofRows size row).row start) : start ≤ size ∧ stop ∈ row start := by
  by_cases inside : start ≤ size
  · rw [row_ofRows size row start inside] at member
    exact ⟨inside, member⟩
  · rw [Spans.row, ofRows, Array.getElem?_eq_none (by simp; omega)] at member
    cases member

theorem mem_row_emptyAt {size : Nat} {test : Nat → Bool}
    (member : stop ∈ (emptyAt size test).row start) :
    stop = start ∧ start ≤ size ∧ test start = true := by
  rcases mem_row_ofRows member with ⟨inside, here⟩
  split at here
  case isTrue holds => exact ⟨List.mem_singleton.mp here, inside, holds⟩
  case isFalse => cases here

theorem mem_of_mem_reachClosed {places : List Nat} (member : stop ∈ spans.reachClosed places) :
    ∃ place ∈ places, stop ∈ spans.row place := by
  fun_induction reachClosed spans places with
  | case1 => cases member
  | case2 place others induction =>
      rcases (mem_mergePlaces _ _ _).mp member with here | later
      · exact ⟨place, List.mem_cons_self, here⟩
      · rcases induction later with ⟨other, inOthers, reached⟩
        exact ⟨other, List.mem_cons_of_mem _ (mem_of_mem_dropPlaces _ _ _ inOthers), reached⟩

def Each (spans : Spans) (subject : Subject) (property : List Char → Prop) : Prop :=
  ∀ start stop, stop ∈ spans.row start → subject.Between property start stop

/-- Whether every stretch of one set goes on from a stretch of another with a text that has a
property. -/
def Extends (next spans : Spans) (subject : Subject) (property : List Char → Prop) : Prop :=
  ∀ start stop, stop ∈ next.row start →
    ∃ middle ∈ spans.row start, subject.Between property middle stop

def MadeOf (property : List Char → Prop) (least : Nat) (taken : List Char) : Prop :=
  ∃ parts : List (List Char), least ≤ parts.length ∧ (∀ part ∈ parts, property part) ∧
    taken = parts.flatten

theorem MadeOf.cons {least : Nat} {left right : List Char} (holds : property left)
    (made : MadeOf property least right) : MadeOf property (least + 1) (left ++ right) := by
  rcases made with ⟨parts, enough, each, rfl⟩
  refine ⟨left :: parts, by simpa using enough, ?_, by simp⟩
  simpa using ⟨holds, each⟩

theorem MadeOf.append {least more : Nat} {left right : List Char}
    (made : MadeOf property least left) (later : MadeOf property more right) :
    MadeOf property least (left ++ right) := by
  rcases made with ⟨parts, enough, each, rfl⟩
  rcases later with ⟨others, -, eachOther, rfl⟩
  refine ⟨parts ++ others, by rw [List.length_append]; omega, ?_, by simp⟩
  intro part member
  rcases List.mem_append.mp member with inParts | inOthers
  · exact each part inParts
  · exact eachOther part inOthers

theorem MadeOf.of_or_nil {least : Nat} {taken : List Char}
    (made : MadeOf (fun part => part = [] ∨ property part) least taken) :
    MadeOf property 0 taken := by
  rcases made with ⟨parts, -, each, rfl⟩
  induction parts with
  | nil => exact ⟨[], by simp⟩
  | cons part others induction =>
      rw [List.forall_mem_cons] at each
      rcases induction each.2 with ⟨kept, -, eachKept, equal⟩
      rcases each.1 with rfl | holds
      · exact ⟨kept, Nat.zero_le _, eachKept, by simpa using equal⟩
      · exact ⟨part :: kept, Nat.zero_le _, by simpa using ⟨holds, eachKept⟩, by simp [equal]⟩

theorem Extends.mono {property other : List Char → Prop} (extending : first.Extends spans subject
    property) (weaker : ∀ taken, property taken → other taken) :
    first.Extends spans subject other := by
  intro start stop member
  rcases extending start stop member with ⟨middle, inSpans, taken, holds, equal⟩
  exact ⟨middle, inSpans, taken, weaker taken holds, equal⟩

theorem extends_followedBy (each : second.Each subject property) :
    (first.followedBy second).Extends first subject property := by
  intro start stop member
  rcases (mem_row_followedBy first second start stop).mp member with ⟨middle, inFirst, reached⟩
  exact ⟨middle, inFirst, each middle stop reached⟩

theorem extends_followedByTimes (each : second.Each subject property) (count : Nat) :
    (first.followedByTimes second count).Extends first subject (MadeOf property count) := by
  induction count generalizing first with
  | zero => exact fun start stop member => ⟨stop, member, [], ⟨[], by simp⟩, rfl⟩
  | succ count induction =>
      intro start stop member
      rcases induction start stop member with ⟨last, reached, taken, made, equal⟩
      rcases extends_followedBy each start last reached with
        ⟨middle, inFirst, before, holds, whole⟩
      exact ⟨middle, inFirst, before ++ taken, made.cons holds, by
        rw [whole, equal, List.append_assoc]⟩

theorem size_closureRows (row : Nat → List Nat) (size : Nat) :
    (closureRows row size).size = size := by
  induction size with
  | zero => rfl
  | succ place induction => rw [closureRows, Array.size_push, induction]

theorem each_closureRows (each : spans.Each subject property) (size : Nat) :
    Each { rows := closureRows spans.row size } subject (MadeOf property 0) := by
  induction size with
  | zero =>
      intro start stop member
      simp [closureRows, Spans.row] at member
  | succ place induction =>
      intro start stop member
      rw [Spans.row, closureRows, Array.getElem?_push, size_closureRows] at member
      split at member
      case isFalse => exact induction start stop member
      case isTrue here =>
        subst here
        rcases List.mem_cons.mp member with rfl | reached
        · exact ⟨[], ⟨[], by simp⟩, rfl⟩
        · rcases mem_of_mem_reachClosed reached with ⟨middle, inRow, later⟩
          rcases each start middle (List.mem_filter.mp inRow).1 with ⟨left, holds, whole⟩
          rcases induction middle stop later with ⟨right, made, equal⟩
          refine ⟨left ++ right, ?_, by rw [whole, equal, List.append_assoc]⟩
          rcases made.cons holds with ⟨parts, -, all, flat⟩
          exact ⟨parts, Nat.zero_le _, all, flat⟩

theorem extends_followedByAny (each : second.Each subject property) :
    (first.followedByAny second).Extends first subject (MadeOf property 0) := by
  intro start stop member
  rw [Spans.row, followedByAny, Array.getElem?_map] at member
  cases known : first.rows[start]? with
  | none => simp [known] at member
  | some places =>
      rw [known] at member
      rcases mem_of_mem_reachClosed member with ⟨middle, inPlaces, reached⟩
      refine ⟨middle, by rwa [Spans.row, known], ?_⟩
      exact each_closureRows each _ middle stop reached

theorem Extends.trans {next middle : Spans} {least more : Nat}
    (before : middle.Extends spans subject (MadeOf property least))
    (later : next.Extends middle subject (MadeOf property more)) :
    next.Extends spans subject (MadeOf property least) := by
  intro start stop member
  rcases later start stop member with ⟨last, reached, right, madeRight, equal⟩
  rcases before start last reached with ⟨place, inSpans, left, madeLeft, whole⟩
  exact ⟨place, inSpans, left ++ right, madeLeft.append madeRight, by
    rw [whole, equal, List.append_assoc]⟩

theorem extends_followedByBetween (each : second.Each subject property) (size least : Nat)
    (most : Option Nat) :
    (followedByBetween size first second least most).Extends first subject
      (MadeOf property (min least (size + 1))) := by
  have required := @extends_followedByTimes _ _ first _ each (min least (size + 1))
  have anyMore := required.trans (extends_followedByAny each)
  rw [followedByBetween.eq_def]
  cases most with
  | none => exact anyMore
  | some most =>
      dsimp only
      split
      case isTrue => exact anyMore
      case isFalse =>
        refine required.trans ((extends_followedByTimes ?_ (most - least)).mono
          fun _ => MadeOf.of_or_nil)
        intro start stop member
        rcases (mem_mergePlaces _ _ _).mp (mem_row_ofRows member).2 with stays | steps
        · rcases mem_row_emptyAt stays with ⟨rfl, -, -⟩
          exact ⟨[], .inl rfl, rfl⟩
        · rcases each start stop steps with ⟨taken, holds, equal⟩
          exact ⟨taken, .inr holds, equal⟩

end Spans

/-! ### Stretches that match -/

theorem each_single (subject : Subject) (test : Char → Bool) :
    (subject.single test).Each subject fun taken =>
      ∃ character, test character = true ∧ taken = [character] := by
  intro start stop member
  rcases Spans.mem_row_ofRows member with ⟨-, here⟩
  split at here
  case isFalse => cases here
  case isTrue passes =>
    rcases (Option.any_eq_true _ _).mp passes with ⟨character, next, holds⟩
    rw [List.mem_singleton] at here
    subst here
    cases start with
    | zero => cases next
    | succ place => exact ⟨[character], ⟨character, holds, rfl⟩, Subject.rest_succ next⟩

mutual

/-- The matcher goes on from a stretch only with a text that the expression takes. -/
theorem extends_extend (subject : Subject) (spans : Spans) :
    (regex : Regex) → (regex.extend subject spans).Extends spans subject regex.Takes
  | empty => fun _ stop member => ⟨stop, member, [], rfl, rfl⟩
  | exactly character => by
      refine (Spans.extends_followedBy (each_single subject _)).mono fun taken holds => ?_
      rcases holds with ⟨found, same, rfl⟩
      rw [beq_iff_eq] at same
      rw [same]
      rfl
  | characters set => Spans.extends_followedBy (each_single subject _)
  | look condition => by
      apply Spans.extends_followedBy
      intro start stop member
      rcases Spans.mem_row_emptyAt member with ⟨rfl, -, -⟩
      exact ⟨[], rfl, rfl⟩
  | repetition inner least most => by
      refine (@Spans.extends_followedByBetween _ inner.Takes _ _ ?_ _ least most).mono ?_
      · intro start stop member
        rcases extends_extend subject _ inner start stop member with ⟨middle, here, between⟩
        rcases Spans.mem_row_emptyAt here with ⟨rfl, -, -⟩
        exact between
      · intro taken made
        rcases made with ⟨parts, enough, each, equal⟩
        refine ⟨parts, fun positive none => ?_, each, equal⟩
        rw [none, List.length_nil] at enough
        omega
  | group _ inner => extends_extend subject spans inner
  | concat items => extends_extendInRow subject spans items
  | alternation choices => extends_extendByAny subject spans choices

theorem extends_extendInRow (subject : Subject) (spans : Spans) :
    (items : List Regex) → (extendInRow subject items spans).Extends spans subject
      (TakesInRow items)
  | [] => fun _ stop member => ⟨stop, member, [], rfl, rfl⟩
  | first :: others => by
      intro start stop member
      rcases extends_extendInRow subject _ others start stop member with
        ⟨last, reached, right, takes, equal⟩
      rcases extends_extend subject spans first start last reached with
        ⟨middle, inSpans, left, takesFirst, whole⟩
      exact ⟨middle, inSpans, left ++ right, ⟨left, right, takesFirst, takes, rfl⟩, by
        rw [whole, equal, List.append_assoc]⟩

theorem extends_extendByAny (subject : Subject) (spans : Spans) :
    (choices : List Regex) → (extendByAny subject choices spans).Extends spans subject
      (TakesAny choices)
  | [] => by
      intro start stop member
      cases (Spans.mem_row_emptyAt member).2.2
  | first :: others => by
      intro start stop member
      rcases (mem_mergePlaces _ _ _).mp (Spans.mem_row_ofRows member).2 with here | later
      · rcases extends_extend subject spans first start stop here with
          ⟨middle, inSpans, taken, takes, equal⟩
        exact ⟨middle, inSpans, taken, .inl takes, equal⟩
      · rcases extends_extendByAny subject spans others start stop later with
          ⟨middle, inSpans, taken, takes, equal⟩
        exact ⟨middle, inSpans, taken, .inr takes, equal⟩

end

theorem extendInRow_append (subject : Subject) (first second : List Regex) (spans : Spans) :
    extendInRow subject (first ++ second) spans =
      extendInRow subject second (extendInRow subject first spans) := by
  induction first generalizing spans with
  | nil => rfl
  | cons item others induction => exact induction (item.extend subject spans)

theorem exists_mem_row_of_isMatch {regex : Regex} {text : String}
    (found : regex.isMatch text = true) :
    ∃ start stop, stop ∈ (regex.spans (.ofString text)).row start := by
  rw [isMatch, Spans.isEmpty, Bool.not_eq_true', Array.all_eq_false'] at found
  rcases found with ⟨row, inRows, nonempty⟩
  rcases Array.mem_iff_getElem.mp inRows with ⟨start, bound, rfl⟩
  rcases List.exists_mem_of_ne_nil _ (by simpa using nonempty) with ⟨stop, inRow⟩
  refine ⟨start, stop, ?_⟩
  rw [Spans.row, Array.getElem?_eq_getElem bound]
  exact inRow

theorem takesInRow_of_isMatch {items : List Regex} {text : String}
    (found : (concat (look .textStart :: (items ++ [look .textEnd]))).isMatch text = true) :
    TakesInRow items text.toList := by
  rcases exists_mem_row_of_isMatch found with ⟨start, stop, member⟩
  have whole : (concat (look .textStart :: (items ++ [look .textEnd]))).spans (.ofString text) =
      extendInRow (.ofString text) [look .textEnd] (extendInRow (.ofString text)
        (look .textStart :: items) (.empty (Subject.ofString text).size)) :=
    extendInRow_append _ (look .textStart :: items) _ _
  rw [whole] at member
  rcases (Spans.mem_row_followedBy _ _ _ _).mp member with ⟨last, reached, ends⟩
  rcases Spans.mem_row_emptyAt ends with ⟨rfl, inside, atEnd⟩
  rcases extends_extendInRow _ _ items start stop reached with ⟨middle, begins, taken, takes, equal⟩
  rcases (Spans.mem_row_followedBy _ _ _ _).mp begins with ⟨first, anywhere, starts⟩
  rcases Spans.mem_row_emptyAt anywhere with ⟨rfl, -, -⟩
  rcases Spans.mem_row_emptyAt starts with ⟨rfl, -, atStart⟩
  rw [Subject.rest_of_before_isNone atStart, Subject.rest_of_after_isNone inside atEnd,
    List.append_nil] at equal
  rwa [equal]

/-! ### What the shape of an expression excludes -/

mutual

def avoids (avoided : Char) : Regex → Bool
  | empty => true
  | exactly character => character != avoided
  | characters set => !set.contains avoided
  | look _ => true
  | repetition inner _ _ => inner.avoids avoided
  | group _ inner => inner.avoids avoided
  | concat items => allAvoid avoided items
  | alternation choices => allAvoid avoided choices

def allAvoid (avoided : Char) : List Regex → Bool
  | [] => true
  | first :: others => first.avoids avoided && allAvoid avoided others

end

theorem allAvoid_iff {avoided : Char} {items : List Regex} :
    allAvoid avoided items = true ↔ ∀ item ∈ items, item.avoids avoided = true := by
  induction items with
  | nil => simp [allAvoid]
  | cons first others induction => simp [allAvoid, induction]

theorem avoids_ofItems {avoided : Char} {items : List Regex}
    (avoid : ∀ item ∈ items, item.avoids avoided = true) :
    (ofItems items).avoids avoided = true := by
  rw [ofItems.eq_def]
  split
  case h_1 => rfl
  case h_2 item => exact avoid item (List.mem_singleton_self item)
  case h_3 => exact allAvoid_iff.mpr avoid

theorem avoids_ofChoices {avoided : Char} {choices : List Regex}
    (avoid : ∀ choice ∈ choices, choice.avoids avoided = true) :
    (ofChoices choices).avoids avoided = true := by
  rw [ofChoices.eq_def]
  split
  case h_1 choice => exact avoid choice (List.mem_singleton_self choice)
  case h_2 => exact allAvoid_iff.mpr avoid

mutual

theorem notMem_of_takes {avoided : Char} : (regex : Regex) → regex.avoids avoided = true →
    ∀ taken, regex.Takes taken → avoided ∉ taken
  | empty => by
      intro _ taken takes
      simp [show taken = [] from takes]
  | exactly character => by
      intro avoids taken takes
      rw [show taken = [character] from takes, List.mem_singleton]
      intro same
      simp [Regex.avoids, same] at avoids
  | characters set => by
      intro avoids taken takes
      rcases takes with ⟨character, inSet, rfl⟩
      rw [List.mem_singleton]
      rintro rfl
      simp [Regex.avoids, inSet] at avoids
  | look _ => by
      intro _ taken takes
      simp [show taken = [] from takes]
  | repetition inner _ _ => by
      intro avoids taken takes
      rcases takes with ⟨parts, -, each, rfl⟩
      intro member
      rcases List.mem_flatten.mp member with ⟨part, inParts, inPart⟩
      exact notMem_of_takes inner avoids part (each part inParts) inPart
  | group _ inner => notMem_of_takes inner
  | concat items => notMem_of_takesInRow items
  | alternation choices => notMem_of_takesAny choices

theorem notMem_of_takesInRow {avoided : Char} : (items : List Regex) →
    allAvoid avoided items = true → ∀ taken, TakesInRow items taken → avoided ∉ taken
  | [] => by
      intro _ taken takes
      simp [show taken = [] from takes]
  | first :: others => by
      intro avoids taken takes
      rw [allAvoid, Bool.and_eq_true] at avoids
      rcases takes with ⟨left, right, takesLeft, takesRight, rfl⟩
      rw [List.mem_append, not_or]
      exact ⟨notMem_of_takes first avoids.1 left takesLeft,
        notMem_of_takesInRow others avoids.2 right takesRight⟩

theorem notMem_of_takesAny {avoided : Char} : (choices : List Regex) →
    allAvoid avoided choices = true → ∀ taken, TakesAny choices taken → avoided ∉ taken
  | [] => fun _ _ takes => takes.elim
  | first :: others => by
      intro avoids taken takes
      rw [allAvoid, Bool.and_eq_true] at avoids
      rcases takes with here | later
      · exact notMem_of_takes first avoids.1 taken here
      · exact notMem_of_takesAny others avoids.2 taken later

end

mutual

theorem admitsEmpty_of_takes_nil : (regex : Regex) → regex.Takes [] → regex.admitsEmpty = true
  | empty => fun _ => rfl
  | exactly _ => fun takes => nomatch takes
  | characters _ => fun ⟨_, _, equal⟩ => nomatch equal
  | look _ => fun _ => rfl
  | repetition inner least _ => by
      intro takes
      rcases takes with ⟨parts, required, each, equal⟩
      rw [admitsEmpty, Bool.or_eq_true, beq_iff_eq]
      rcases Nat.eq_zero_or_pos least with none | positive
      · exact .inl none
      · right
        rcases List.exists_mem_of_ne_nil parts (required positive) with ⟨part, member⟩
        have nothing := List.flatten_eq_nil_iff.mp equal.symm part member
        exact admitsEmpty_of_takes_nil inner (nothing ▸ each part member)
  | group _ inner => admitsEmpty_of_takes_nil inner
  | concat items => allAdmitEmpty_of_takesInRow_nil items
  | alternation choices => anyAdmitsEmpty_of_takesAny_nil choices

theorem allAdmitEmpty_of_takesInRow_nil : (items : List Regex) → TakesInRow items [] →
    allAdmitEmpty items = true
  | [] => fun _ => rfl
  | first :: others => by
      intro takes
      rcases takes with ⟨left, right, takesLeft, takesRight, equal⟩
      rcases List.append_eq_nil_iff.mp equal.symm with ⟨rfl, rfl⟩
      rw [allAdmitEmpty, admitsEmpty_of_takes_nil first takesLeft,
        allAdmitEmpty_of_takesInRow_nil others takesRight, Bool.and_self]

theorem anyAdmitsEmpty_of_takesAny_nil : (choices : List Regex) → TakesAny choices [] →
    anyAdmitsEmpty choices = true
  | [] => fun takes => takes.elim
  | first :: others => by
      intro takes
      rw [anyAdmitsEmpty, Bool.or_eq_true]
      rcases takes with here | later
      · exact .inl (admitsEmpty_of_takes_nil first here)
      · exact .inr (anyAdmitsEmpty_of_takesAny_nil others later)

end

end UrlRouting.Regex
