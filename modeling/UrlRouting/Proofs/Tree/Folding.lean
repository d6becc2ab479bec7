import Mathlib.Algebra.GroupWithZero.Nat
import UrlRouting.Proofs.Host
import UrlRouting.Proofs.Tree.Lookup

/-!
Hosts within paths. A folded request has a piece for each label of the host that is not empty, and
then those of its path; a template of hosts with variables begins with a step for each label of the
host. Where as many steps as labels stand before the rest, the labels are captured by them alone and
the path by the rest.
-/

namespace UrlRouting

open Template

/-! ### Paths put after other text -/

namespace Path

open String (utf8Len)

def Piece.shift (count : Nat) (piece : Piece) : Piece :=
  { piece with offset := piece.offset + count }

theorem piecesFrom_append (offset : Nat) (first second : List (List Char)) :
    piecesFrom offset (first ++ second) = piecesFrom offset first ++
      piecesFrom (offset + (first.map fun field => utf8Len field + 1).sum) second := by
  induction first generalizing offset with
  | nil => rfl
  | cons field others induction =>
      rw [List.cons_append, List.map_cons, List.sum_cons]
      by_cases empty : field = []
      · rw [empty, piecesFrom, piecesFrom, induction, Nat.add_assoc]
        rfl
      · rw [piecesFrom_cons empty, piecesFrom_cons empty, induction, List.cons_append,
          Nat.add_assoc, Nat.add_assoc, Nat.add_assoc]

theorem piecesFrom_add (offset count : Nat) (fields : List (List Char)) :
    piecesFrom (offset + count) fields = (piecesFrom offset fields).map (Piece.shift count) := by
  induction fields generalizing offset with
  | nil => rfl
  | cons field others induction =>
      by_cases empty : field = []
      · rw [empty, piecesFrom, piecesFrom, ← induction, Nat.add_right_comm]
      · have start : offset + count + utf8Len field + 1 = offset + utf8Len field + 1 + count := by
          omega
        rw [piecesFrom_cons empty, piecesFrom_cons empty, start, induction, List.map_cons,
          Piece.shift]

theorem sum_utf8Len_fields (text : List Char) :
    ((Text.fields '/' text).map fun field => utf8Len field + 1).sum = utf8Len text + 1 := by
  induction text with
  | nil => rfl
  | cons character rest induction =>
      rw [Text.fields]
      split
      case isTrue slash =>
        rw [slash, utf8Len_slash_cons, List.map_cons, List.sum_cons, induction, String.utf8Len_nil]
        omega
      case isFalse =>
        cases cut : Text.fields '/' rest with
        | nil => exact absurd cut (Text.fields_ne_nil '/' rest)
        | cons first others =>
            rw [cut, List.map_cons, List.sum_cons] at induction
            rw [List.map_cons, List.sum_cons, String.utf8Len_cons, String.utf8Len_cons]
            omega

variable {before path : String}

theorem pieces_append (rooted : path.toList.head? = some '/') :
    pieces (before ++ path) =
      pieces before ++ (pieces path).map (Piece.shift before.utf8ByteSize) := by
  rcases List.head?_eq_some_iff.mp rooted with ⟨rest, equal⟩
  have alone : pieces path = piecesFrom 1 (Text.fields '/' rest) := by
    rw [pieces, equal, Text.fields_cons_separator]
    rfl
  rw [alone, ← piecesFrom_add, pieces, String.toList_append, equal, Text.fields_append,
    piecesFrom_append, sum_utf8Len_fields, pieces, String.utf8Len_toList]
  congr 2
  omega

theorem texts_append (rooted : path.toList.head? = some '/') :
    texts (before ++ path) = texts before ++ texts path := by
  rw [texts, String.toList_append,
    pieceTexts_append_of_endsPiece (.inr (List.head?_eq_some_iff.mp rooted)), List.map_append]
  rfl

/-- What is cut out of a path does not depend on what stands before it. -/
theorem slice_append (start stop : Nat) :
    slice (before ++ path) (start + before.utf8ByteSize) (stop + before.utf8ByteSize) =
      slice path start stop := by
  have shifted (text : List Char) :
      slice (String.ofList (text ++ path.toList)) (start + utf8Len text) (stop + utf8Len text) =
        slice path start stop := by
    induction text with
    | nil =>
        rw [List.nil_append, String.ofList_toList, String.utf8Len_nil, Nat.add_zero, Nat.add_zero]
    | cons character others induction =>
        rw [← induction, String.utf8Len_cons, ← Nat.add_assoc, ← Nat.add_assoc]
        exact String.extract_cons_addChar character (others ++ path.toList)
          ⟨start + utf8Len others⟩ ⟨stop + utf8Len others⟩
  have whole := shifted before.toList
  rwa [← String.toList_append, String.ofList_toList, String.utf8Len_toList] at whole

theorem sliceFrom_shift (first : Piece) (others : List Piece) :
    sliceFrom (before ++ path) (first.shift before.utf8ByteSize)
        (others.map (Piece.shift before.utf8ByteSize)) = sliceFrom path first others := by
  have last : ((first :: others).map (Piece.shift before.utf8ByteSize)).getLast (by simp) =
      ((first :: others).getLast (by simp)).shift before.utf8ByteSize :=
    List.getLast_map _
  have stop : ∀ piece : Piece, (piece.shift before.utf8ByteSize).stop =
      piece.stop + before.utf8ByteSize := by
    intro piece
    rw [Piece.stop, Piece.stop, Piece.shift, Nat.add_right_comm]
  simp only [List.map_cons] at last
  rw [sliceFrom, sliceFrom, last, stop]
  exact slice_append _ _

end Path

namespace Tree

theorem captured_shift (before path : String) (steps : List Step) (pieces : List Path.Piece) :
    captured (before ++ path) steps (pieces.map (Path.Piece.shift before.utf8ByteSize)) =
      captured path steps pieces := by
  induction steps generalizing pieces with
  | nil => cases pieces <;> rfl
  | cons step rest induction =>
      cases pieces with
      | nil => cases step <;> rfl
      | cons piece others =>
          cases step with
          | static text => exact induction others
          | capture name => exact congrArg (piece.text :: ·) (induction others)
          | wildcard name => exact congrArg (fun text => [text]) (Path.sliceFrom_shift piece others)

end Tree

namespace Host

/-! ### Labels as steps -/

theorem texts_foldedPath {host path : String} (slashless : '/' ∉ host.toList)
    (rooted : path.toList.head? = some '/') :
    Path.texts (foldedPath host path) =
      ((labelTexts host).filter (!·.isEmpty)).map String.ofList ++ Path.texts path := by
  rw [foldedPath, Path.texts_append rooted, texts_foldedHost slashless]

def step (label : List Symbol) : Step :=
  (segment label).step

def steps (labels : List (List Symbol)) : List Step :=
  (labels.filter (!·.isEmpty)).map step

theorem isOptional_segment (label : List Symbol) : (segment label).isOptional = false := by
  rw [segment.eq_def]
  split <;> rfl

theorem expand_append (labels : List (List Symbol)) (rest : List Segment) :
    expand ((labels.filter (!·.isEmpty)).map segment ++ rest) =
      (expand rest).map (steps labels ++ ·) := by
  rw [steps]
  induction labels.filter (!·.isEmpty) with
  | nil => simp
  | cons label others induction =>
      rw [List.map_cons, List.cons_append, expand, isOptional_segment, induction, List.map_map]
      rfl

/-- What the variables among some labels stand for in a host of so many labels. -/
def bindings (labels : List (List Symbol)) (texts : List (List Char)) : List (String × String) :=
  (labels.zip texts).filterMap fun
    | ([.placeholder parameter], text) => some (parameter.name, String.ofList text)
    | _ => none

theorem bindings_cons_literal (text first : List Char) (labels : List (List Symbol))
    (texts : List (List Char)) :
    bindings (text.map .literal :: labels) (first :: texts) = bindings labels texts := by
  cases text with
  | nil => rfl
  | cons character rest => cases rest <;> rfl

theorem step_map_literal {text : List Char} (undotted : '.' ∉ text) :
    step (text.map .literal) = .static (String.ofList text) := by
  rw [step, segment_map_literal, render_map_literal undotted]
  rfl

section

variable {labels : List (List Symbol)} {texts : List (List Char)}

theorem stepsFit_append_iff (meant : List.Forall₂ Means labels texts)
    (undotted : ∀ text ∈ texts, '.' ∉ text) (rest : List Step) (others : List String) :
    StepsFit (steps labels ++ rest)
        ((texts.filter (!·.isEmpty)).map String.ofList ++ others) ↔ StepsFit rest others := by
  induction meant with
  | nil => rfl
  | @cons label text labels texts means _ induction =>
      rw [List.forall_mem_cons] at undotted
      have later := induction undotted.2
      cases means with
      | placeholder parameter nonempty =>
          have kept : steps ([.placeholder parameter] :: labels) =
              .capture parameter.name :: steps labels := rfl
          rw [kept, List.filter_cons_of_pos (by simpa using nonempty), List.map_cons,
            List.cons_append, List.cons_append, stepsFit_capture_iff]
          simpa using later
      | literal =>
          cases text with
          | nil => exact later
          | cons character tail =>
              have kept : steps ((character :: tail).map .literal :: labels) =
                  .static (String.ofList (character :: tail)) :: steps labels := by
                rw [← step_map_literal undotted.1]
                rfl
              rw [kept, List.filter_cons_of_pos rfl, List.map_cons, List.cons_append,
                List.cons_append, stepsFit_static_iff]
              simpa using later

theorem captures_append (meant : List.Forall₂ Means labels texts)
    (undotted : ∀ text ∈ texts, '.' ∉ text) (path : String) (rest : List Step)
    {pieces : List Path.Piece} (others : List Path.Piece)
    (same : pieces.map Path.Piece.text = (texts.filter (!·.isEmpty)).map String.ofList) :
    names (steps labels) = (bindings labels texts).map Prod.fst ∧
      Tree.captured path (steps labels ++ rest) (pieces ++ others) =
        (bindings labels texts).map Prod.snd ++ Tree.captured path rest others := by
  induction meant generalizing pieces with
  | nil =>
      rw [List.map_eq_nil_iff.mp same]
      exact ⟨rfl, rfl⟩
  | @cons label text labels texts means _ induction =>
      rw [List.forall_mem_cons] at undotted
      cases means with
      | placeholder parameter nonempty =>
          rw [List.filter_cons_of_pos (by simpa using nonempty), List.map_cons] at same
          rcases List.map_eq_cons_iff.mp same with ⟨piece, tail, rfl, here, later⟩
          rcases induction undotted.2 later with ⟨named, captured⟩
          exact ⟨congrArg (parameter.name :: ·) named, congrArg₂ List.cons here captured⟩
      | literal =>
          rw [bindings_cons_literal]
          cases text with
          | nil => exact induction undotted.2 same
          | cons character tail =>
              rw [List.filter_cons_of_pos rfl, List.map_cons] at same
              rcases List.map_eq_cons_iff.mp same with ⟨piece, following, rfl, -, later⟩
              rcases induction undotted.2 later with ⟨named, captured⟩
              have kept : steps ((character :: tail).map .literal :: labels) =
                  .static (String.ofList (character :: tail)) :: steps labels := by
                rw [← step_map_literal undotted.1]
                rfl
              rw [kept]
              exact ⟨named, captured⟩

theorem means_of_stepsFit
    (whole : ∀ label ∈ labels, ∀ parameter, .placeholder parameter ∈ label →
      label = [.placeholder parameter])
    (nonempty : [] ∉ labels) (labelled : [] ∉ texts) (undotted : ∀ label ∈ labels,
      ∀ symbol ∈ label, Symbol.isDot symbol = false)
    (sameLength : labels.length = texts.length) {rest : List Step} {others : List String}
    (fits : StepsFit (steps labels ++ rest) (texts.map String.ofList ++ others)) :
    List.Forall₂ Means labels texts := by
  induction labels generalizing texts with
  | nil =>
      cases texts with
      | nil => exact .nil
      | cons => cases sameLength
  | cons label labels induction =>
      cases texts with
      | nil => cases sameLength
      | cons text texts =>
          rw [List.forall_mem_cons] at whole undotted
          rw [List.mem_cons, not_or] at nonempty labelled
          have kept : steps (label :: labels) = step label :: steps labels := by
            rw [steps, List.filter_cons_of_pos (by simpa using Ne.symm nonempty.1)]
            rfl
          have later := @induction texts whole.2 nonempty.2 labelled.2 undotted.2
            (Nat.succ.inj sameLength)
          rw [kept, List.cons_append, List.map_cons, List.cons_append] at fits
          by_cases parameterized : ∃ parameter, Symbol.placeholder parameter ∈ label
          · rcases parameterized with ⟨parameter, inLabel⟩
            rw [whole.1 parameter inLabel] at fits ⊢
            rcases stepsFit_capture_iff.mp fits with ⟨piece, pieces, equal, fitsRest⟩
            cases equal
            exact .cons (.placeholder parameter (Ne.symm labelled.1)) (later fitsRest)
          · rcases exists_eq_map_literal (not_exists.mp parameterized) with ⟨own, rfl⟩
            have ownUndotted : '.' ∉ own := by
              intro dot
              have isDot := undotted.1 (.literal '.') (List.mem_map_of_mem dot)
              simp [Symbol.isDot] at isDot
            rw [step_map_literal ownUndotted, stepsFit_static_iff] at fits
            rcases fits with ⟨pieces, equal, fitsRest⟩
            rcases List.cons.inj equal with ⟨same, rfl⟩
            rw [String.ofList_injective same]
            exact .cons (.literal own) (later fitsRest)

end

/-- A template of hosts with variables that fits a folded request captures from the host what its
variables mean there, and the rest of it fits the path and captures from the path alone. -/
theorem split_of_means {template text host path : String} (whole : Whole template)
    (slashlessTemplate : .literal '/' ∉ symbols template)
    (meant : List.Forall₂ Means (labels template) (labelTexts host))
    (slashless : '/' ∉ host.toList) (rootedText : text.toList.head? = some '/')
    (rooted : path.toList.head? = some '/') {all : List Step}
    (expanded : all ∈ expand (segments (pathTemplate template ++ text)))
    (fits : StepsFit all (Path.texts (foldedPath host path))) :
    ∃ rest ∈ expand (segments text), StepsFit rest (Path.texts path) ∧
      (names all).zip (Tree.captured (foldedPath host path) all
          (Path.pieces (foldedPath host path))) =
        bindings (labels template) (labelTexts host) ++
          (names rest).zip (Tree.captured path rest (Path.pieces path)) := by
  have undotted : ∀ text ∈ labelTexts host, '.' ∉ text :=
    fun text => Text.separator_notMem_of_mem_fields
  rw [segments_append whole slashlessTemplate rootedText, expand_append] at expanded
  rcases List.mem_map.mp expanded with ⟨rest, inExpand, rfl⟩
  rw [texts_foldedPath slashless rooted, stepsFit_append_iff meant undotted] at fits
  refine ⟨rest, inExpand, fits, ?_⟩
  have taken := texts_foldedHost slashless
  rw [← Path.texts_pieces] at taken
  rcases captures_append meant undotted (foldedPath host path) rest
    ((Path.pieces path).map (Path.Piece.shift _)) taken with ⟨named, captured⟩
  rw [foldedPath] at captured ⊢
  rw [Path.pieces_append rooted, captured, Tree.captured_shift, names, List.filterMap_append,
    ← names, ← names, named, List.zip_append (by simp), List.zip_map']
  exact congrArg (· ++ _) (List.map_id _)

end Host

end UrlRouting
