import Mathlib.Algebra.Order.BigOperators.Group.List
import Mathlib.Data.List.Perm.Subperm
import UrlRouting.Proofs.Path.Slices
import UrlRouting.Proofs.Tree.Folding

/-!
What the variables of a host stand for. Put in the place of the variables it makes the host again if
every variable fills its label. One that shares its label with other text is never captured so: the
template of the tree reads such a label as text, or as a capture whose name is longer than that of
the variable it begins with, a mark at its end aside. As no more labels capture than there are
variables, all are captured under their own names only if each stands alone or before a mark, and
then the mark is captured as well.
-/

namespace UrlRouting

open Template

theorem Pattern.Marks.name?_step {mark : List Char} {make : String → Segment}
    (marks : Pattern.Marks mark make) (name : String) : (make name).step.name? = some name := by
  cases marks <;> rfl

namespace Pattern

theorem Variable.Named.eq_of_append {parameter : Variable} (named : parameter.Named)
    {after name mark : List Char} {make : String → Segment} (marks : Marks mark make)
    (equal : parameter.name.toList ++ after = name ++ mark) :
    parameter.name.toList.length ≤ name.length ∧
      (name.length ≤ parameter.name.toList.length →
        name = parameter.name.toList ∧ after = mark) := by
  have notLonger : parameter.name.toList.length ≤ name.length := by
    by_contra longer
    have short : mark.length ≤ 1 := by cases marks <;> simp
    have lengths := congrArg List.length equal
    rw [List.length_append, List.length_append] at lengths
    have nothing : after = [] := List.length_eq_zero_iff.mp (by omega)
    rcases named.getLast? with ⟨last, ends, notOptional, notAny, notWildcard⟩
    rw [nothing, List.append_nil] at equal
    rw [equal] at ends longer
    cases marks with
    | capture => simp at longer
    | optional =>
        rw [List.getLast?_concat] at ends
        exact notOptional (Option.some.inj ends).symm
    | anyNumber =>
        rw [List.getLast?_concat] at ends
        exact notAny (Option.some.inj ends).symm
    | wildcard =>
        rw [List.getLast?_concat] at ends
        exact notWildcard (Option.some.inj ends).symm
  refine ⟨notLonger, fun short => ?_⟩
  rcases List.append_inj equal (Nat.le_antisymm notLonger short) with ⟨sameName, sameRest⟩
  exact ⟨sameName.symm, sameRest⟩

end Pattern

namespace Host

/-! ### Values put in the place of variables -/

def fill (values : String → String) (template : String) : String :=
  String.join <| (Pattern.tokenize template).map fun
    | .literal text => text
    | .placeholder parameter => values parameter.name

namespace Symbol

def fill (values : String → String) : Symbol → List Char
  | literal character => [character]
  | placeholder parameter => (values parameter.name).toList

end Symbol

theorem toList_fill (values : String → String) (template : String) :
    (fill values template).toList = (symbols template).flatMap (Symbol.fill values) := by
  apply toList_join_tokens
  · intro text
    simp [Symbol.fill]
  · intro parameter
    rfl

theorem parameter?_map_literal (text : List Char) :
    (text.map Symbol.literal).filterMap Symbol.parameter? = [] := by
  simp [Symbol.parameter?]

section

variable {labels : List (List Symbol)} {texts : List (List Char)}

theorem names_bindings (meant : List.Forall₂ Means labels texts) :
    (bindings labels texts).map Prod.fst =
      (labels.flatMap (List.filterMap Symbol.parameter?)).map Pattern.Variable.name := by
  induction meant with
  | nil => rfl
  | @cons label text labels texts means _ induction =>
      rw [List.flatMap_cons, List.map_append, ← induction]
      cases means with
      | placeholder parameter => rfl
      | literal => rw [bindings_cons_literal, parameter?_map_literal, List.map_nil, List.nil_append]

theorem fill_labels (meant : List.Forall₂ Means labels texts) {values : String → String}
    (bound : ∀ binding ∈ bindings labels texts, values binding.1 = binding.2) :
    labels.map (List.flatMap (Symbol.fill values)) = texts := by
  induction meant with
  | nil => rfl
  | @cons label text labels texts means _ induction =>
      cases means with
      | placeholder parameter =>
          rcases List.forall_mem_cons.mp bound with ⟨here, later⟩
          rw [List.map_cons, induction later, List.flatMap_singleton, Symbol.fill, here,
            String.toList_ofList]
      | literal =>
          rw [bindings_cons_literal] at bound
          rw [List.map_cons, induction bound, List.flatMap_map]
          simp [Symbol.fill]

end

theorem toList_fill_eq_joinFields (values : String → String) (template : String) :
    (fill values template).toList =
      Text.joinFields '.' ((labels template).map (List.flatMap (Symbol.fill values))) := by
  rw [toList_fill]
  apply Text.flatMap_eq_joinFields
  intro symbol dot
  rw [Symbol.isDot, beq_iff_eq] at dot
  rw [dot]
  rfl

theorem fill_eq_of_means {template host : String}
    (meant : List.Forall₂ Means (labels template) (labelTexts host)) {values : String → String}
    (bound : ∀ binding ∈ bindings (labels template) (labelTexts host),
      values binding.1 = binding.2) : fill values template = host := by
  apply String.toList_injective
  rw [toList_fill_eq_joinFields, fill_labels meant bound, labelTexts, Text.joinFields_fields]

/-! ### Labels that capture -/

def head? : List Symbol → Option Pattern.Variable
  | .placeholder parameter :: _ => some parameter
  | _ => none

def captures? (label : List Symbol) : Option String :=
  (reading label).step.name?

/-- Whether a label is a variable with at most a mark after it, so that it is captured under the
name of the variable. -/
def Marked (label : List Symbol) (parameter : Pattern.Variable) : Prop :=
  ∃ mark make, Pattern.Marks mark make ∧ label = .placeholder parameter :: mark.map .literal ∧
    reading label = make parameter.name

variable {template : String} {label : List Symbol}

theorem parameter_mem_of_label (member : label ∈ labels template) {parameter : Pattern.Variable}
    (inLabel : .placeholder parameter ∈ label) : parameter ∈ parameters template :=
  placeholder_mem_symbols_iff.mp ((Text.isInfix_of_mem_splitOnP member).1.subset inLabel)

theorem startsName_of_render (member : label ∈ labels template) (headless : head? label = none)
    {character : Char} {rest : List Char}
    (rendered : label.flatMap Symbol.render = ':' :: character :: rest) :
    Text.startsName character = false := by
  rcases Text.isInfix_of_mem_splitOnP member with ⟨⟨before, after, whole⟩, undotted⟩
  have renderLiteral : ∀ {first}, Symbol.literal first ∈ label →
      Symbol.render (.literal first) = [first] := by
    intro first inLabel
    have different := undotted _ inLabel
    rw [Symbol.isDot, beq_eq_false_iff_ne] at different
    rw [Symbol.render, if_neg fun dot : first = '.' => different (dot ▸ rfl)]
  cases label with
  | nil => cases rendered
  | cons symbol others =>
      cases symbol with
      | placeholder parameter => cases headless
      | literal first =>
          rw [List.flatMap_cons, renderLiteral List.mem_cons_self] at rendered
          rcases List.cons.inj rendered with ⟨rfl, later⟩
          cases others with
          | nil => cases later
          | cons second others =>
              cases second with
              | placeholder parameter =>
                  rw [← (List.cons.inj later).1]
                  decide
              | literal second =>
                  rw [List.flatMap_cons, renderLiteral (by simp)] at later
                  rw [← (List.cons.inj later).1]
                  apply @startsName_of_symbolsOf template.toList before (others ++ after)
                  rw [← symbols_eq, ← whole]
                  simp

theorem captures?_of_head?_eq_none (member : label ∈ labels template)
    (headless : head? label = none) : captures? label = none := by
  have static : ∃ text, reading label = .static text := by
    rw [reading, Segment.ofPiece.eq_def]
    split
    case h_2 => exact ⟨_, rfl⟩
    case h_1 character rest rendered =>
      rw [startsName_of_render member headless rendered]
      exact ⟨_, rfl⟩
  rcases static with ⟨text, isText⟩
  rw [captures?, isText]
  rfl

theorem eq_nil_of_render {rest : List Symbol} (rendered : rest.flatMap Symbol.render = []) :
    rest = [] := by
  cases rest with
  | nil => rfl
  | cons symbol others =>
      rw [List.flatMap_cons, List.append_eq_nil_iff] at rendered
      exact absurd rendered.1 (render_ne_nil symbol)

theorem eq_literal_of_render {rest : List Symbol} {character : Char}
    (plain : character ≠ ':' ∧ character ≠ '/')
    (rendered : rest.flatMap Symbol.render = [character]) : rest = [.literal character] := by
  cases rest with
  | nil => cases rendered
  | cons symbol others =>
      cases symbol with
      | placeholder parameter => exact absurd (List.cons.inj rendered).1.symm plain.1
      | literal first =>
          rcases List.cons.inj rendered with ⟨here, later⟩
          rw [eq_nil_of_render later]
          split at here
          case isTrue => exact absurd here.symm plain.2
          case isFalse => rw [here]

theorem eq_map_literal_of_render {rest : List Symbol} {mark : List Char}
    {make : String → Segment} (marks : Pattern.Marks mark make)
    (rendered : rest.flatMap Symbol.render = mark) : rest = mark.map .literal := by
  cases marks with
  | capture => exact eq_nil_of_render rendered
  | optional => exact eq_literal_of_render (by decide) rendered
  | anyNumber => exact eq_literal_of_render (by decide) rendered
  | wildcard => exact eq_literal_of_render (by decide) rendered

/-- A label that begins with a variable is captured under a name that is not shorter than that of
the variable, and as long only if at most a mark stands after it. -/
theorem captures?_of_head? (member : label ∈ labels template) {parameter : Pattern.Variable}
    (begins : head? label = some parameter) :
    ∃ name, captures? label = some name ∧ parameter.name.length ≤ name.length ∧
      (name.length ≤ parameter.name.length → Marked label parameter) := by
  rw [head?.eq_def] at begins
  split at begins
  case h_2 => cases begins
  case h_1 other rest =>
    cases begins
    have inside := (Text.isInfix_of_mem_splitOnP member).1.subset List.mem_cons_self
    have named := named_of_mem_symbols inside
    rcases named with ⟨first, others, spelled, starts, -⟩
    rcases Pattern.exists_marks_of_startsName starts (others ++ rest.flatMap Symbol.render) with
      ⟨name, mark, make, equal, marks, read⟩
    have rendered : reading (.placeholder parameter :: rest) = make (String.ofList name) := by
      rw [reading, List.flatMap_cons, Symbol.render, spelled]
      exact read
    rw [← List.cons_append, ← spelled] at equal
    rcases (named_of_mem_symbols inside).eq_of_append marks equal with ⟨notLonger, same⟩
    refine ⟨String.ofList name, by rw [captures?, rendered, marks.name?_step], ?_, ?_⟩
    · rwa [← String.length_toList, String.length_ofList]
    · intro short
      rw [String.length_ofList, ← String.length_toList] at short
      rcases same short with ⟨rfl, isMark⟩
      refine ⟨mark, make, marks, by rw [eq_map_literal_of_render marks isMark], ?_⟩
      rw [rendered, String.ofList_toList]

/-! ### Labels and variables counted -/

theorem eq_of_sum_le {α : Type} {first second : α → Nat} {items : List α}
    (le : ∀ item ∈ items, first item ≤ second item)
    (sums : (items.map second).sum ≤ (items.map first).sum) {item : α} (member : item ∈ items) :
    first item = second item := by
  by_contra different
  have less := List.sum_lt_sum first second le
    ⟨item, member, Nat.lt_of_le_of_ne (le item member) different⟩
  omega

theorem sum_map_flatMap {α β : Type} (parts : α → List β) (size : β → Nat) (items : List α) :
    ((items.flatMap parts).map size).sum =
      (items.map fun item => ((parts item).map size).sum).sum := by
  induction items with
  | nil => rfl
  | cons item others induction =>
      rw [List.flatMap_cons, List.map_append, List.sum_append, induction, List.map_cons,
        List.sum_cons]

theorem head?_toList_sublist (label : List Symbol) :
    (head? label).toList.Sublist (label.filterMap Symbol.parameter?) := by
  rw [head?.eq_def]
  split
  case h_1 parameter rest =>
    change [parameter].Sublist (parameter :: rest.filterMap Symbol.parameter?)
    exact (List.nil_sublist _).cons_cons _
  case h_2 => exact List.nil_sublist _

theorem length_captures? (member : label ∈ labels template) :
    (captures? label).toList.length = (head? label).toList.length := by
  cases begins : head? label with
  | none => rw [captures?_of_head?_eq_none member begins]; rfl
  | some parameter =>
      rcases captures?_of_head? member begins with ⟨name, captures, -⟩
      rw [captures]
      rfl

section

variable (distinct : ((parameters template).map Pattern.Variable.name).Nodup)
  (captured : ∀ parameter ∈ parameters template, ∃ label ∈ labels template,
    captures? label = some parameter.name)

include distinct captured

/-- As no label captures twice, variables with names of their own that are all captured are the
beginnings of their labels, and nothing else is captured. -/
theorem perm_captures? :
    (∀ label ∈ labels template, (head? label).toList = label.filterMap Symbol.parameter?) ∧
      ((parameters template).map Pattern.Variable.name).Perm
        ((labels template).filterMap captures?) := by
  have subset : (parameters template).map Pattern.Variable.name ⊆
      (labels template).filterMap captures? := by
    intro name member
    rcases List.mem_map.mp member with ⟨parameter, inTemplate, rfl⟩
    exact List.mem_filterMap.mpr (captured parameter inTemplate)
  have subperm := distinct.subperm subset
  have countNames : ((labels template).filterMap captures?).length =
      ((labels template).map fun label => (head? label).toList.length).sum := by
    rw [List.filterMap_eq_flatMap_toList, List.length_flatMap]
    exact congrArg List.sum (List.map_congr_left fun label => length_captures?)
  have countVariables : ((parameters template).map Pattern.Variable.name).length =
      ((labels template).map fun label => (label.filterMap Symbol.parameter?).length).sum := by
    rw [List.length_map, parameters_eq, List.length_flatMap]
  have counts := subperm.length_le
  rw [countNames, countVariables] at counts
  have alone : ∀ label ∈ labels template,
      (head? label).toList = label.filterMap Symbol.parameter? := fun label member =>
    (head?_toList_sublist label).eq_of_length
      (eq_of_sum_le (fun label _ => (head?_toList_sublist label).length_le) counts member)
  refine ⟨alone, subperm.perm_of_length_le ?_⟩
  rw [countNames, countVariables]
  exact Nat.le_of_eq (congrArg List.sum (List.map_congr_left fun label member =>
    congrArg List.length (alone label member)))

/-- If all variables of a template have names of their own and are captured under them, each fills
its label or has only a mark after it, and no name is captured twice. -/
theorem marked_of_captured :
    (∀ label ∈ labels template, ∀ parameter, .placeholder parameter ∈ label →
        Marked label parameter) ∧ ((labels template).filterMap captures?).Nodup := by
  rcases perm_captures? distinct captured with ⟨alone, permutes⟩
  refine ⟨?_, permutes.nodup_iff.mp distinct⟩
  -- The names that are captured are as long together as those of the variables, so none is longer.
  have lengths := (permutes.map String.length).sum_eq
  rw [parameters_eq, ← List.flatMap_congr alone, List.map_map, sum_map_flatMap,
    List.filterMap_eq_flatMap_toList, sum_map_flatMap] at lengths
  have notShorter : ∀ label ∈ labels template,
      ((head? label).toList.map (String.length ∘ Pattern.Variable.name)).sum ≤
        ((captures? label).toList.map String.length).sum := by
    intro label member
    cases begins : head? label with
    | none => simp
    | some parameter =>
        rcases captures?_of_head? member begins with ⟨name, captures, longer, -⟩
        simpa [captures] using longer
  intro label member parameter inLabel
  have begins : head? label = some parameter := by
    rw [← Option.mem_toList, alone label member]
    exact mem_filterMap_parameter?_iff.mpr inLabel
  rcases captures?_of_head? member begins with ⟨name, captures, -, marked⟩
  have same := eq_of_sum_le notShorter (Nat.le_of_eq lengths.symm) member
  rw [begins, captures] at same
  apply marked
  simpa using Nat.le_of_eq same.symm

end

/-! ### Labels that variables fill -/

theorem captured_of_marks {mark : List Char} {make : String → Segment}
    (marks : Pattern.Marks mark make) {name : String} {rest : List Segment} {all : List Step}
    (expanded : all ∈ expand (make name :: rest)) {path : String}
    {before others : List Path.Piece} {first : Path.Piece}
    (cut : Path.pieces path = before ++ first :: others)
    (fits : StepsFit all ((first :: others).map Path.Piece.text)) :
    ∃ later ∈ expand rest, names all = name :: names later ∧
      ∃ value remaining, Tree.captured path all (first :: others) = value :: remaining ∧
        ∃ more : List Char, value.toList = first.text.toList ++ more ∧
          (more = [] ∨ more.head? = some '/') := by
  rcases mem_expand_cons_iff.mp expanded with ⟨-, rfl⟩ | ⟨later, inRest, rfl⟩
  · cases stepsFit_nil_iff.mp fits
  · refine ⟨later, inRest, by cases marks <;> rfl, ?_⟩
    have piece : ∃ more : List Char, first.text.toList = first.text.toList ++ more ∧
        (more = [] ∨ more.head? = some '/') := ⟨[], (List.append_nil _).symm, .inl rfl⟩
    cases marks with
    | capture => exact ⟨_, _, rfl, piece⟩
    | optional => exact ⟨_, _, rfl, piece⟩
    | anyNumber => exact ⟨_, _, rfl, Path.exists_toList_sliceFrom cut⟩
    | wildcard => exact ⟨_, _, rfl, Path.exists_toList_sliceFrom cut⟩

section

variable {template text host path : String} {steps : List Step} {values : String → String}

theorem exists_captures?_of_bound (slashless : .literal '/' ∉ symbols template)
    (rooted : text.toList.head? = some '/')
    (expanded : steps ∈ expand (segments (pathTemplate template ++ text)))
    {texts : List String} {name value : String}
    (bound : (Table.ofList ((names steps).zip texts)).get? name = some value)
    (apart : ∀ rest ∈ expand (segments text), name ∉ names rest) :
    ∃ label ∈ labels template, captures? label = some name := by
  have inNames : name ∈ names steps := by
    by_contra absent
    rw [Table.get?_ofList_of_notMem (Table.notMem_map_fst_zip absent)] at bound
    cases bound
  rw [segments_append_reading slashless rooted] at expanded
  rcases exists_of_mem_names expanded inNames with
    ⟨segment, inLabels, named⟩ | ⟨rest, inRest, inText⟩
  · rcases List.mem_map.mp inLabels with ⟨label, member, rfl⟩
    exact ⟨label, (List.mem_filter.mp member).1, named⟩
  · exact absurd inText (apart rest inRest)

theorem joinFields_ne_of_mark {mark value more label : List Char} {make : String → Segment}
    (marks : Pattern.Marks mark make) (marked : mark ≠ []) (begins : value = label ++ more)
    (ends : more = [] ∨ more.head? = some '/') (firsts seconds : List (List Char)) :
    Text.joinFields '.' ((value ++ mark) :: firsts) ≠ Text.joinFields '.' (label :: seconds) := by
  intro equal
  rcases Text.exists_tail_of_joinFields '.' (value ++ mark) firsts with ⟨filled, whole, -⟩
  rcases Text.exists_tail_of_joinFields '.' label seconds with ⟨tail, wholeHost, separated⟩
  rw [whole, wholeHost, begins, List.append_assoc, List.append_assoc] at equal
  have after := congrArg List.head? (List.append_cancel_left equal)
  have next : (more ++ (mark ++ filled)).head? = some '/' ∨ ∃ character ∈ mark,
      (more ++ (mark ++ filled)).head? = some character := by
    rcases ends with rfl | slash
    · cases mark with
      | nil => exact absurd rfl marked
      | cons character others => exact .inr ⟨character, List.mem_cons_self, rfl⟩
    · rw [List.head?_append, slash]
      exact .inl rfl
  have different : ∀ character ∈ mark, character ≠ '.' := by
    cases marks <;> simp
  rcases separated with rfl | dot
  · rw [after] at next
    simp at next
  · rw [after, dot] at next
    rcases next with slash | ⟨character, member, same⟩
    · simp at slash
    · exact different character member (Option.some.inj same).symm

/-- A label of a template with its text in a host, where variables fill all labels before it and
these mean those of the host. -/
structure Reached (template host : String) (before : List (List Symbol)) (label : List Symbol)
    (after : List (List Symbol)) (textsBefore : List (List Char)) (labelText : List Char) :
    Prop where
  cutTemplate : labels template = before ++ label :: after
  cutHost : ∃ textsAfter, labelTexts host = textsBefore ++ labelText :: textsAfter
  nonempty : labelText ≠ []
  meant : List.Forall₂ Means before textsBefore
  whole : ∀ other ∈ before, ∀ parameter, .placeholder parameter ∈ other →
    other = [.placeholder parameter]

variable {before after : List (List Symbol)} {label : List Symbol}
  {textsBefore : List (List Char)} {labelText : List Char}

theorem exists_shared_label
    (plain : ∀ parameter ∈ parameters template, parameter.regex = Pattern.segmentRegex)
    {texts : List (List Char)} (spelled : List.Forall₂ Symbol.Spells (symbols template) texts)
    (equal : host.toList = texts.flatten) (shared : ¬ Whole template) :
    ∃ before label after textsBefore labelText,
      Reached template host before label after textsBefore labelText ∧
      ∃ parameter, .placeholder parameter ∈ label ∧ label ≠ [.placeholder parameter] := by
  classical
  rcases exists_parts_of_spelling spelled equal with ⟨parts, labelsEqual, textsEqual, each⟩
  cases found : parts.find? fun part => ∃ parameter, .placeholder parameter ∈ part.map Prod.fst ∧
      part.map Prod.fst ≠ [.placeholder parameter] with
  | none =>
      apply absurd _ shared
      intro label member parameter inLabel
      rw [labelsEqual] at member
      rcases List.mem_map.mp member with ⟨part, inParts, rfl⟩
      by_contra notWhole
      have unshared := List.find?_eq_none.mp found part inParts
      exact unshared (decide_eq_true ⟨parameter, inLabel, notWhole⟩)
  | some part =>
      rcases List.find?_eq_some_iff_append.mp found with ⟨holds, before, after, rfl, none⟩
      rcases of_decide_eq_true holds with ⟨parameter, inLabel, notWhole⟩
      have wholeBefore : ∀ other ∈ before, ∀ parameter,
          .placeholder parameter ∈ other.map Prod.fst →
            other.map Prod.fst = [.placeholder parameter] := by
        intro other member parameter inOther
        by_contra notWhole
        have unshared := none other member
        rw [Bool.not_eq_true', decide_eq_false_iff_not] at unshared
        exact unshared ⟨parameter, inOther, notWhole⟩
      have meant := means_of_parts (fun other member => each other (by simp [member])) wholeBefore
        fun parameter text member => ne_nil_of_parts labelsEqual textsEqual each (.inl plain)
          (List.mem_append_left _ member)
      have nonempty : part.flatMap Prod.snd ≠ [] := by
        rcases List.mem_map.mp inLabel with ⟨⟨symbol, text⟩, inPart, rfl⟩
        have inLabels : part.map Prod.fst ∈ labels template := by
          rw [labelsEqual]
          exact List.mem_map_of_mem (by simp)
        have inTemplate := parameter_mem_of_label inLabels inLabel
        rw [Ne, List.flatMap_eq_nil_iff]
        intro nothing
        exact (each part (by simp) _ inPart).2 (plain parameter inTemplate) (nothing _ inPart)
      rw [List.map_append, List.map_cons] at labelsEqual textsEqual
      exact ⟨_, _, _, _, _, ⟨labelsEqual, ⟨_, textsEqual⟩, nonempty, meant,
        List.forall_mem_map.mpr wholeBefore⟩, parameter, inLabel, notWhole⟩

theorem Reached.exists_capture
    (reached : Reached template host before label after textsBefore labelText)
    (slashlessTemplate : .literal '/' ∉ symbols template) (slashless : '/' ∉ host.toList)
    (rootedText : text.toList.head? = some '/') (rooted : path.toList.head? = some '/')
    (expanded : steps ∈ expand (segments (pathTemplate template ++ text)))
    (fits : StepsFit steps (Path.texts (foldedPath host path))) {name : String}
    {mark : List Char} {make : String → Segment} (marks : Pattern.Marks mark make)
    (read : reading label = make name) :
    ∃ later ∈ expand ((after.filter (!·.isEmpty)).map reading ++ segments text),
      ∃ value remaining, (names steps).zip (Tree.captured (foldedPath host path) steps
          (Path.pieces (foldedPath host path))) =
        (bindings before textsBefore ++ [(name, value)]) ++ (names later).zip remaining ∧
        ∃ more : List Char, value.toList = labelText ++ more ∧
          (more = [] ∨ more.head? = some '/') := by
  rcases reached.cutHost with ⟨textsAfter, textsEqual⟩
  have undotted : ∀ text ∈ textsBefore, '.' ∉ text := fun text member =>
    @Text.separator_notMem_of_mem_fields _ host.toList _ (by
      rw [← labelTexts, textsEqual]
      exact List.mem_append_left _ member)
  have readBefore : (before.filter (!·.isEmpty)).map reading =
      (before.filter (!·.isEmpty)).map segment := by
    apply List.map_congr_left
    intro other member
    have inBefore := (List.mem_filter.mp member).1
    exact reading_eq_segment (by rw [reached.cutTemplate]; exact List.mem_append_left _ inBefore)
      (reached.whole other inBefore)
  have kept : label.isEmpty = false := by
    cases label with
    | nil =>
        have captures := marks.name?_step name
        rw [← read] at captures
        cases captures
    | cons symbol others => rfl
  rw [segments_append_reading slashlessTemplate rootedText, reached.cutTemplate, List.filter_append,
    List.filter_cons_of_pos (by simp [kept]), List.map_append, readBefore, List.map_cons,
    List.append_assoc, List.cons_append, read, expand_append] at expanded
  rcases List.mem_map.mp expanded with ⟨others, inOthers, rfl⟩
  have taken := Path.texts_pieces (foldedPath host path)
  rw [texts_foldedPath slashless rooted, textsEqual, List.filter_append,
    List.filter_cons_of_pos (by simpa using reached.nonempty), List.map_append, List.append_assoc,
    List.map_cons, List.cons_append] at taken fits
  rcases List.map_eq_append_iff.mp taken with
    ⟨piecesBefore, piecesAfter, cut, sameBefore, sameAfter⟩
  rcases List.map_eq_cons_iff.mp sameAfter with ⟨first, following, rfl, firstText, -⟩
  rw [stepsFit_append_iff reached.meant undotted, ← sameAfter] at fits
  rcases captured_of_marks marks inOthers cut fits with
    ⟨later, inLater, named, value, remaining, takenHere, more, begins, ends⟩
  rcases captures_append reached.meant undotted (foldedPath host path) others (first :: following)
    sameBefore with ⟨namesBefore, capturedAll⟩
  refine ⟨later, inLater, value, remaining, ?_, more, ?_, ends⟩
  · rw [cut, capturedAll, takenHere, names, List.filterMap_append, ← names, ← names, namesBefore,
      named, List.zip_append (by simp), List.zip_map', List.zip_cons_cons, List.append_assoc,
      List.singleton_append]
    exact congrArg (· ++ _) (List.map_id _)
  · rw [begins, firstText, String.toList_ofList]

theorem Reached.notMem_names
    (reached : Reached template host before label after textsBefore labelText)
    (marked : ∀ label ∈ labels template, ∀ parameter, .placeholder parameter ∈ label →
      Marked label parameter)
    (nodup : ((labels template).filterMap captures?).Nodup)
    (apart : ∀ parameter ∈ parameters template, ∀ rest ∈ expand (segments text),
      parameter.name ∉ names rest) {other : List Symbol} (member : other ∈ before ++ [label])
    {parameter : Pattern.Variable} (inOther : .placeholder parameter ∈ other) {later : List Step}
    (inLater : later ∈ expand ((after.filter (!·.isEmpty)).map reading ++ segments text)) :
    parameter ∈ parameters template ∧ parameter.name ∉ names later := by
  have cut : labels template = (before ++ [label]) ++ after := by
    rw [reached.cutTemplate, List.append_assoc, List.singleton_append]
  have inLabels : other ∈ labels template := by
    rw [cut]
    exact List.mem_append_left _ member
  have inTemplate := parameter_mem_of_label inLabels inOther
  rcases marked other inLabels parameter inOther with ⟨_, _, marks, -, read⟩
  have captures : captures? other = some parameter.name := by
    rw [captures?, read, marks.name?_step]
  refine ⟨inTemplate, fun inNames => ?_⟩
  rcases exists_of_mem_names inLater inNames with
    ⟨segment, inAfter, named⟩ | ⟨rest, inRest, inText⟩
  · rcases List.mem_map.mp inAfter with ⟨following, inFiltered, rfl⟩
    rw [cut, List.filterMap_append, List.nodup_append] at nodup
    exact nodup.2.2 _ (List.mem_filterMap.mpr ⟨other, member, captures⟩) _
      (List.mem_filterMap.mpr ⟨following, (List.mem_filter.mp inFiltered).1, named⟩) rfl
  · exact apart parameter inTemplate rest inRest inText

theorem Reached.values_of_bound
    (reached : Reached template host before label after textsBefore labelText)
    (distinct : ((parameters template).map Pattern.Variable.name).Nodup)
    {parameter : Pattern.Variable} {mark : List Char}
    (shape : label = .placeholder parameter :: mark.map .literal) {value : String}
    {tail : List (String × String)}
    (unnamed : ∀ earlier ∈ before ++ [label], ∀ other, .placeholder other ∈ earlier →
      other ∈ parameters template ∧ other.name ∉ tail.map Prod.fst)
    (bound : ∀ other ∈ parameters template,
      (Table.ofList ((bindings before textsBefore ++ [(parameter.name, value)]) ++ tail)).get?
        other.name = some (values other.name)) :
    ∀ entry ∈ bindings before textsBefore ++ [(parameter.name, value)],
      values entry.1 = entry.2 := by
  have named : (bindings before textsBefore ++ [(parameter.name, value)]).map Prod.fst =
      ((before ++ [label]).flatMap (List.filterMap Symbol.parameter?)).map
        Pattern.Variable.name := by
    rw [List.map_append, names_bindings reached.meant, List.flatMap_append, List.map_append,
      List.flatMap_singleton, shape]
    change _ = _ ++ (parameter :: (mark.map Symbol.literal).filterMap Symbol.parameter?).map _
    rw [parameter?_map_literal]
    rfl
  have once : ((bindings before textsBefore ++ [(parameter.name, value)]).map Prod.fst).Nodup := by
    rw [parameters_eq, reached.cutTemplate, ← List.singleton_append, ← List.append_assoc,
      List.flatMap_append, List.map_append, List.nodup_append] at distinct
    rw [named]
    exact distinct.1
  rintro ⟨name, taken⟩ member
  have inNames : name ∈ (bindings before textsBefore ++ [(parameter.name, value)]).map Prod.fst :=
    List.mem_map_of_mem member
  rw [named] at inNames
  rcases List.mem_map.mp inNames with ⟨other, inFlat, rfl⟩
  rcases List.mem_flatMap.mp inFlat with ⟨otherLabel, inBefore, inOther⟩
  rcases unnamed otherLabel inBefore other (mem_filterMap_parameter?_iff.mp inOther) with
    ⟨inTemplate, absent⟩
  have here := bound other inTemplate
  rw [Table.get?_ofList_append, Table.get?_ofList_of_notMem absent, Option.none_or,
    Table.get?_ofList_of_mem once member] at here
  exact (Option.some.inj here).symm

theorem Reached.eq_singleton_of_bound
    (reached : Reached template host before label after textsBefore labelText)
    (distinct : ((parameters template).map Pattern.Variable.name).Nodup)
    (marked : ∀ label ∈ labels template, ∀ parameter, .placeholder parameter ∈ label →
      Marked label parameter)
    (nodup : ((labels template).filterMap captures?).Nodup)
    (slashlessTemplate : .literal '/' ∉ symbols template) (slashless : '/' ∉ host.toList)
    (rootedText : text.toList.head? = some '/') (rooted : path.toList.head? = some '/')
    (expanded : steps ∈ expand (segments (pathTemplate template ++ text)))
    (fits : StepsFit steps (Path.texts (foldedPath host path)))
    (apart : ∀ parameter ∈ parameters template, ∀ rest ∈ expand (segments text),
      parameter.name ∉ names rest)
    (bound : ∀ parameter ∈ parameters template,
      (Table.ofList ((names steps).zip (Tree.captured (foldedPath host path) steps
        (Path.pieces (foldedPath host path))))).get? parameter.name =
          some (values parameter.name))
    (filled : fill values template = host) {parameter : Pattern.Variable}
    (inLabel : .placeholder parameter ∈ label) : label = [.placeholder parameter] := by
  have inLabels : label ∈ labels template := by
    rw [reached.cutTemplate]
    simp
  rcases marked label inLabels parameter inLabel with ⟨mark, make, marks, shape, read⟩
  by_contra notWhole
  have notBare : mark ≠ [] := by
    rintro rfl
    exact notWhole shape
  rcases reached.exists_capture slashlessTemplate slashless rootedText rooted expanded fits marks
    read with ⟨later, inLater, value, remaining, entries, more, begins, ends⟩
  rw [entries] at bound
  have unnamed : ∀ earlier ∈ before ++ [label], ∀ other, .placeholder other ∈ earlier →
      other ∈ parameters template ∧ other.name ∉ ((names later).zip remaining).map Prod.fst := by
    intro earlier member other inOther
    have absent := reached.notMem_names marked nodup apart member inOther inLater
    exact ⟨absent.1, Table.notMem_map_fst_zip absent.2⟩
  have known := reached.values_of_bound distinct shape unnamed bound
  rcases List.forall_mem_append.mp known with ⟨valuesBefore, valueHere⟩
  rw [List.forall_mem_singleton] at valueHere
  -- The filled template goes on with the mark where the host is at the end of a label.
  have filledLabels := congrArg String.toList filled
  rcases reached.cutHost with ⟨textsAfter, textsEqual⟩
  rw [toList_fill_eq_joinFields, ← Text.joinFields_fields '.' host.toList, ← labelTexts,
    reached.cutTemplate, textsEqual, List.map_append, List.map_cons,
    fill_labels reached.meant valuesBefore] at filledLabels
  have next := Text.joinFields_append_cancel filledLabels
  rw [shape, List.flatMap_cons, List.flatMap_map, Symbol.fill, valueHere] at next
  exact joinFields_ne_of_mark marks notBare begins ends _ _ (by simpa [Symbol.fill] using next)

/-- If every variable of a template is captured from a folded request, and what is captured makes
the host when it is put in the place of the variables, every variable fills its label. -/
theorem whole_of_bound
    (plain : ∀ parameter ∈ parameters template, parameter.regex = Pattern.segmentRegex)
    (distinct : ((parameters template).map Pattern.Variable.name).Nodup)
    (slashless : '/' ∉ host.toList) (accepted : accepts template host = true)
    (rootedText : text.toList.head? = some '/') (rooted : path.toList.head? = some '/')
    (expanded : steps ∈ expand (segments (pathTemplate template ++ text)))
    (fits : StepsFit steps (Path.texts (foldedPath host path)))
    (apart : ∀ parameter ∈ parameters template, ∀ rest ∈ expand (segments text),
      parameter.name ∉ names rest)
    (bound : ∀ parameter ∈ parameters template,
      (Table.ofList ((names steps).zip (Tree.captured (foldedPath host path) steps
        (Path.pieces (foldedPath host path))))).get? parameter.name =
          some (values parameter.name))
    (filled : fill values template = host) : Whole template := by
  rcases exists_spelling_of_accepts (fun parameter member =>
    confined_of_plain (plain parameter member)) accepted with ⟨texts, spelled, equal⟩
  have slashlessTemplate := slash_notMem_of_spelling slashless spelled equal
  rcases marked_of_captured distinct fun parameter member => exists_captures?_of_bound
    slashlessTemplate rootedText expanded (bound parameter member) (apart parameter member) with
    ⟨marked, nodup⟩
  by_contra shared
  rcases exists_shared_label plain spelled equal shared with
    ⟨before, label, after, textsBefore, labelText, reached, parameter, inLabel, notWhole⟩
  exact notWhole (reached.eq_singleton_of_bound distinct marked nodup slashlessTemplate slashless
    rootedText rooted expanded fits apart bound filled inLabel)

end

end Host

end UrlRouting
