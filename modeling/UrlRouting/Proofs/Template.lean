import UrlRouting.Template
import UrlRouting.Proofs.Path

/-!
What templates mean. `Fits` says when a template fits the pieces of a path; a template fits exactly
when one of the step sequences does that it stands for. All sequences that fit some pieces, capture
names aside, can be listed: `fitting` lists them with static text before a captured piece before a
captured rest, which is the order in which a tree prefers them.
-/

namespace UrlRouting.Template

inductive Fits : List Segment → List String → Prop
  /-- No piece is left, and nothing that is left of the template must be there. -/
  | absent {segments : List Segment} (optional : ∀ segment ∈ segments, segment.isOptional = true) :
      Fits segments []
  | static {text : String} {rest : List Segment} {pieces : List String} :
      Fits rest pieces → Fits (.static text :: rest) (text :: pieces)
  | capture {name piece : String} {rest : List Segment} {pieces : List String} :
      Fits rest pieces → Fits (.capture name :: rest) (piece :: pieces)
  | optional {name piece : String} {rest : List Segment} {pieces : List String} :
      Fits rest pieces → Fits (.optional name :: rest) (piece :: pieces)
  | wildcard {name piece : String} {pieces : List String} :
      Fits [.wildcard name] (piece :: pieces)
  | anyNumber {name piece : String} {pieces : List String} :
      Fits [.anyNumber name] (piece :: pieces)

namespace Step

def segment : Step → Segment
  | static text => .static text
  | capture name => .capture name
  | wildcard name => .wildcard name

/-- The step without the name it captures under, which plays no part in where it leads. -/
def nameless : Step → Step
  | static text => static text
  | capture _ => capture ""
  | wildcard _ => wildcard ""

/-- The rank of the kind of a step; a lower one is preferred. -/
def rank : Step → Nat
  | static _ => 0
  | capture _ => 1
  | wildcard _ => 2

@[simp] theorem rank_nameless (step : Step) : step.nameless.rank = step.rank := by
  cases step <;> rfl

@[simp] theorem nameless_nameless (step : Step) : step.nameless.nameless = step.nameless := by
  cases step <;> rfl

end Step

def StepsFit (steps : List Step) (pieces : List String) : Prop :=
  Fits (steps.map Step.segment) pieces

def nameless (steps : List Step) : List Step :=
  steps.map Step.nameless

def ranks (steps : List Step) : List Nat :=
  steps.map Step.rank

@[simp] theorem ranks_nameless (steps : List Step) : ranks (nameless steps) = ranks steps := by
  simp [ranks, nameless, Function.comp_def]

/-- Whether the kinds of some steps come before those of others in lexicographic order. -/
def Precedes (left right : List Step) : Prop :=
  List.Lex (· < ·) (ranks left) (ranks right)

@[simp] theorem precedes_nameless_iff {left right : List Step} :
    Precedes (nameless left) (nameless right) ↔ Precedes left right := by
  simp [Precedes]

theorem Precedes.asymm {left right : List Step} (less : Precedes left right) :
    ¬ Precedes right left :=
  List.lt_asymm less

theorem precedes_cons {step : Step} {left right : List Step} (less : Precedes left right) :
    Precedes (step :: left) (step :: right) :=
  .cons less

theorem precedes_of_rank {first second : Step} (less : first.rank < second.rank)
    (left right : List Step) : Precedes (first :: left) (second :: right) :=
  .rel less

@[simp] theorem nameless_nameless (steps : List Step) :
    nameless (nameless steps) = nameless steps := by
  simp [nameless, Function.comp_def]

def Proper (steps : List Step) : Prop :=
  ∀ text, .static text ∈ steps → Path.IsPiece text

/-! ### Sequences without captures -/

theorem names_map_static (texts : List String) : names (texts.map Step.static) = [] := by
  simp [names, Step.name?]

theorem exists_static_of_names_eq_nil {steps : List Step} (capturing : names steps = []) :
    ∃ texts : List String, steps = texts.map Step.static := by
  induction steps with
  | nil => exact ⟨[], rfl⟩
  | cons step rest induction =>
      cases step with
      | static text =>
          rcases induction (by simpa [names, Step.name?] using capturing) with ⟨texts, rfl⟩
          exact ⟨text :: texts, rfl⟩
      | capture name => simp [names, Step.name?] at capturing
      | wildcard name => simp [names, Step.name?] at capturing

theorem names_nameless_eq_nil_iff (steps : List Step) :
    names (nameless steps) = [] ↔ names steps = [] := by
  induction steps with
  | nil => exact Iff.rfl
  | cons step rest induction =>
      cases step with
      | static text => simpa [names, nameless, Step.nameless, Step.name?] using induction
      | capture name => simp [names, nameless, Step.nameless, Step.name?]
      | wildcard name => simp [names, nameless, Step.nameless, Step.name?]

theorem names_eq_nil_congr {left right : List Step} (same : nameless left = nameless right) :
    names left = [] ↔ names right = [] := by
  rw [← names_nameless_eq_nil_iff left, same, names_nameless_eq_nil_iff]

theorem nameless_of_names_eq_nil {steps : List Step} (capturing : names steps = []) :
    nameless steps = steps := by
  rcases exists_static_of_names_eq_nil capturing with ⟨texts, rfl⟩
  simp [nameless, Function.comp_def, Step.nameless]

theorem render_map_static (texts : List String) :
    render (texts.map Step.static) = Path.ofPieces texts := by
  cases texts with
  | nil => rfl
  | cons text others => simp [render, Path.ofPieces, Step.render, Function.comp_def]

/-- Sequences without captures are told apart by the paths that they write. -/
theorem eq_of_render_eq {left right : List Step} (leftNames : names left = [])
    (rightNames : names right = []) (leftProper : Proper left) (rightProper : Proper right)
    (equal : render left = render right) : left = right := by
  rcases exists_static_of_names_eq_nil leftNames with ⟨leftTexts, rfl⟩
  rcases exists_static_of_names_eq_nil rightNames with ⟨rightTexts, rfl⟩
  rw [render_map_static, render_map_static] at equal
  rw [Path.ofPieces_injective (fun text member => leftProper text (List.mem_map_of_mem member))
    (fun text member => rightProper text (List.mem_map_of_mem member)) equal]

/-! ### Templates and the step sequences they stand for -/

theorem eq_of_ofPiece_eq_static {piece : List Char} {text : String}
    (read : Segment.ofPiece piece = .static text) : text = String.ofList piece := by
  unfold Segment.ofPiece at read
  split at read
  · split at read
    · dsimp only at read
      split at read <;> cases read
    · cases read
      rfl
  · cases read
    rfl

theorem segments_append {text : String} (beginning : String)
    (rooted : text.toList.head? = some '/') :
    segments (beginning ++ text) = segments beginning ++ segments text := by
  have ends : Path.EndsPiece text.toList := .inr (List.head?_eq_some_iff.mp rooted)
  rw [segments, ← Path.pieceTexts, String.toList_append,
    Path.pieceTexts_append_of_endsPiece ends, List.map_append]
  rfl

theorem isPiece_of_static_mem_segments {template text : String}
    (member : Segment.static text ∈ segments template) : Path.IsPiece text := by
  rcases List.mem_map.mp member with ⟨piece, pieceMem, equal⟩
  rw [eq_of_ofPiece_eq_static equal]
  refine ⟨fun empty => Path.ne_nil_of_mem_pieceTexts pieceMem ?_, ?_⟩
  · simpa using empty
  · simpa using Path.slash_notMem_of_mem_pieceTexts pieceMem

theorem mem_expand_cons_iff {segment : Segment} {rest : List Segment} {steps : List Step} :
    steps ∈ expand (segment :: rest) ↔
      segment.isOptional = true ∧ steps = [] ∨
        ∃ others ∈ expand rest, segment.step :: others = steps := by
  rw [expand]
  split
  case isTrue optional => simp [optional]
  case isFalse required => simp [required]

theorem static_mem_of_mem_expand {segments : List Segment} {steps : List Step}
    (member : steps ∈ expand segments) {text : String} (static : .static text ∈ steps) :
    .static text ∈ segments := by
  induction segments generalizing steps with
  | nil =>
      rw [expand, List.mem_singleton] at member
      simp [member] at static
  | cons segment rest induction =>
      rcases mem_expand_cons_iff.mp member with ⟨-, rfl⟩ | ⟨others, inRest, rfl⟩
      · simp at static
      · rcases List.mem_cons.mp static with first | later
        · cases segment <;> simp [Segment.step] at first
          simp [first]
        · exact List.mem_cons_of_mem _ (induction inRest later)

theorem exists_of_mem_names {first second : List Segment} {steps : List Step}
    (member : steps ∈ expand (first ++ second)) {name : String} (captured : name ∈ names steps) :
    (∃ segment ∈ first, segment.step.name? = some name) ∨
      ∃ rest ∈ expand second, name ∈ names rest := by
  induction first generalizing steps with
  | nil => exact .inr ⟨steps, member, captured⟩
  | cons segment others induction =>
      rcases mem_expand_cons_iff.mp member with ⟨-, rfl⟩ | ⟨later, inRest, rfl⟩
      · cases captured
      · rcases List.mem_filterMap.mp captured with ⟨step, inSteps, named⟩
        rcases List.mem_cons.mp inSteps with rfl | inLater
        · exact .inl ⟨segment, List.mem_cons_self, named⟩
        · rcases induction inRest (List.mem_filterMap.mpr ⟨step, inLater, named⟩) with
            ⟨other, inOthers, same⟩ | after
          · exact .inl ⟨other, List.mem_cons_of_mem _ inOthers, same⟩
          · exact .inr after

theorem proper_of_mem_expand {template : String} {steps : List Step}
    (member : steps ∈ expand (segments template)) : Proper steps :=
  fun _ static => isPiece_of_static_mem_segments (static_mem_of_mem_expand member static)

theorem segments_of_parse {template : String} {parsed : List Segment}
    (read : parse template = .ok parsed) : parsed = segments template := by
  cases order : checkOrder template false (segments template) with
  | error error =>
      rw [parse, order] at read
      cases read
  | ok =>
      rw [parse, order] at read
      cases read
      rfl

theorem isInvalidPath_of_checkOrder {template : String} {afterOptional : Bool}
    {segments : List Segment} {error : TreeError}
    (refused : checkOrder template afterOptional segments = .error error) :
    error.isInvalidPath = true := by
  fun_induction checkOrder template afterOptional segments with
  | case1 => cases refused
  | case2 => cases refused; rfl
  | case3 => cases refused; rfl
  | case4 afterOptional name rest induction => exact induction refused
  | case5 => cases refused; rfl
  | case6 afterOptional segment rest _ _ _ _ induction => exact induction refused

theorem isInvalidPath_of_parse {template : String} {error : TreeError}
    (refused : parse template = .error error) : error.isInvalidPath = true := by
  cases order : checkOrder template false (segments template) with
  | error reason =>
      rw [parse, order] at refused
      cases refused
      exact isInvalidPath_of_checkOrder order
  | ok =>
      rw [parse, order] at refused
      cases refused

theorem stepsFit_nil_iff {pieces : List String} : StepsFit [] pieces ↔ pieces = [] := by
  constructor
  · intro fits
    cases fits
    rfl
  · intro equal
    subst equal
    exact .absent (by simp)

theorem stepsFit_static_iff {text : String} {steps : List Step} {pieces : List String} :
    StepsFit (.static text :: steps) pieces ↔
      ∃ rest, pieces = text :: rest ∧ StepsFit steps rest := by
  constructor
  · intro fits
    cases fits with
    | absent optional => simp [Step.segment, Segment.isOptional] at optional
    | static fits => exact ⟨_, rfl, fits⟩
  · intro given
    rcases given with ⟨rest, rfl, fits⟩
    exact .static fits

theorem stepsFit_capture_iff {name : String} {steps : List Step} {pieces : List String} :
    StepsFit (.capture name :: steps) pieces ↔
      ∃ piece rest, pieces = piece :: rest ∧ StepsFit steps rest := by
  constructor
  · intro fits
    cases fits with
    | absent optional => simp [Step.segment, Segment.isOptional] at optional
    | capture fits => exact ⟨_, _, rfl, fits⟩
  · intro given
    rcases given with ⟨piece, rest, rfl, fits⟩
    exact .capture fits

theorem stepsFit_wildcard_iff {name : String} {steps : List Step} {pieces : List String} :
    StepsFit (.wildcard name :: steps) pieces ↔ steps = [] ∧ pieces ≠ [] := by
  constructor
  · intro fits
    cases steps with
    | nil =>
        cases fits with
        | absent optional => simp [Step.segment, Segment.isOptional] at optional
        | wildcard => simp
    | cons step rest =>
        cases fits with
        | absent optional => simp [Step.segment, Segment.isOptional] at optional
  · intro given
    rcases given with ⟨rfl, nonempty⟩
    cases pieces with
    | nil => exact absurd rfl nonempty
    | cons piece rest => exact .wildcard

/-! ### Segments that take the rest -/

def Segment.isWildcard : Segment → Bool
  | wildcard _ => true
  | anyNumber _ => true
  | _ => false

theorem eq_nil_of_checkOrder {template : String} {afterOptional : Bool} {segment : Segment}
    {rest : List Segment} (wildcard : segment.isWildcard = true)
    (ordered : checkOrder template afterOptional (segment :: rest) = .ok ()) : rest = [] := by
  cases rest with
  | nil => rfl
  | cons second others =>
      cases segment with
      | wildcard name => cases ordered
      | anyNumber name => cases ordered
      | static text => cases wildcard
      | capture name => cases wildcard
      | optional name => cases wildcard

theorem checkOrder_tail {template : String} {afterOptional : Bool} {segment : Segment}
    {rest : List Segment} (ordered : checkOrder template afterOptional (segment :: rest) = .ok ()) :
    ∃ afterHead, checkOrder template afterHead rest = .ok () := by
  rw [checkOrder.eq_def] at ordered
  split at ordered
  case h_1 impossible => cases impossible
  case h_2 => cases ordered
  case h_3 => cases ordered
  case h_4 same =>
    cases same
    exact ⟨true, ordered⟩
  case h_5 same =>
    cases same
    split at ordered
    · cases ordered
    · exact ⟨_, ordered⟩

theorem fits_of_isWildcard {segment : Segment} (wildcard : segment.isWildcard = true)
    (piece : String) (pieces : List String) : Fits [segment] (piece :: pieces) := by
  cases segment with
  | wildcard name => exact .wildcard
  | anyNumber name => exact .anyNumber
  | static text => cases wildcard
  | capture name => cases wildcard
  | optional name => cases wildcard

theorem fits_cons {segment : Segment} {rest : List Segment} {piece : String}
    {pieces : List String} (single : segment.isWildcard = false)
    (literal : ∀ text, segment = .static text → text = piece) (later : Fits rest pieces) :
    Fits (segment :: rest) (piece :: pieces) := by
  cases segment with
  | static text =>
      rw [literal text rfl]
      exact .static later
  | capture name => exact .capture later
  | optional name => exact .optional later
  | wildcard name => cases single
  | anyNumber name => cases single

theorem stepsFit_of_single {segment : Segment} {others : List Step} {pieces : List String}
    (single : segment.isWildcard = false) (fits : StepsFit (segment.step :: others) pieces) :
    ∃ piece rest, pieces = piece :: rest ∧ (∀ text, segment = .static text → text = piece) ∧
      StepsFit others rest := by
  cases segment with
  | static text =>
      rcases stepsFit_static_iff.mp fits with ⟨rest, equal, later⟩
      refine ⟨text, rest, equal, fun other same => ?_, later⟩
      cases same
      rfl
  | capture name =>
      rcases stepsFit_capture_iff.mp fits with ⟨piece, rest, equal, later⟩
      exact ⟨piece, rest, equal, by simp, later⟩
  | optional name =>
      rcases stepsFit_capture_iff.mp fits with ⟨piece, rest, equal, later⟩
      exact ⟨piece, rest, equal, by simp, later⟩
  | wildcard name => cases single
  | anyNumber name => cases single

theorem ne_nil_of_stepsFit {step : Step} {others : List Step} {pieces : List String}
    (fits : StepsFit (step :: others) pieces) : pieces ≠ [] := by
  cases step with
  | static text =>
      rcases stepsFit_static_iff.mp fits with ⟨rest, rfl, -⟩
      simp
  | capture name =>
      rcases stepsFit_capture_iff.mp fits with ⟨piece, rest, rfl, -⟩
      simp
  | wildcard name => exact (stepsFit_wildcard_iff.mp fits).2

/-! ### Fitting a template and fitting one of its step sequences -/

theorem isOptional_of_checkOrder {template : String} {segments : List Segment}
    (ordered : checkOrder template true segments = .ok ()) :
    ∀ segment ∈ segments, segment.isOptional = true := by
  induction segments with
  | nil => simp
  | cons segment rest induction =>
      cases segment with
      | optional name =>
          intro segment member
          rcases List.mem_cons.mp member with rfl | later
          · rfl
          · exact induction ordered segment later
      | static text => simp [checkOrder] at ordered
      | capture name => simp [checkOrder] at ordered
      | wildcard name => cases rest <;> simp [checkOrder] at ordered
      | anyNumber name => cases rest <;> simp [checkOrder] at ordered

theorem isOptional_of_checkOrder_cons {template : String} {afterOptional : Bool}
    {segment : Segment} {rest : List Segment} (optional : segment.isOptional = true)
    (ordered : checkOrder template afterOptional (segment :: rest) = .ok ()) :
    ∀ segment ∈ rest, segment.isOptional = true := by
  cases segment with
  | optional name => exact isOptional_of_checkOrder ordered
  | anyNumber name =>
      rw [eq_nil_of_checkOrder rfl ordered]
      simp
  | static text => cases optional
  | capture name => cases optional
  | wildcard name => cases optional

theorem exists_mem_expand_of_fits {segments : List Segment} {pieces : List String}
    (fits : Fits segments pieces) : ∃ steps ∈ expand segments, StepsFit steps pieces := by
  induction fits with
  | @absent segments optional =>
      refine ⟨[], ?_, stepsFit_nil_iff.mpr rfl⟩
      cases segments with
      | nil => simp [expand]
      | cons segment rest => simp [expand, optional segment (by simp)]
  | @static text rest pieces _ induction =>
      rcases induction with ⟨steps, member, fits⟩
      exact ⟨.static text :: steps, mem_expand_cons_iff.mpr (.inr ⟨steps, member, rfl⟩),
        stepsFit_static_iff.mpr ⟨pieces, rfl, fits⟩⟩
  | @capture name piece rest pieces _ induction =>
      rcases induction with ⟨steps, member, fits⟩
      exact ⟨.capture name :: steps, mem_expand_cons_iff.mpr (.inr ⟨steps, member, rfl⟩),
        stepsFit_capture_iff.mpr ⟨piece, pieces, rfl, fits⟩⟩
  | @optional name piece rest pieces _ induction =>
      rcases induction with ⟨steps, member, fits⟩
      exact ⟨.capture name :: steps, mem_expand_cons_iff.mpr (.inr ⟨steps, member, rfl⟩),
        stepsFit_capture_iff.mpr ⟨piece, pieces, rfl, fits⟩⟩
  | @wildcard name piece pieces =>
      exact ⟨[.wildcard name], by simp [expand, Segment.isOptional, Segment.step],
        stepsFit_wildcard_iff.mpr ⟨rfl, by simp⟩⟩
  | @anyNumber name piece pieces =>
      exact ⟨[.wildcard name], by simp [expand, Segment.isOptional, Segment.step],
        stepsFit_wildcard_iff.mpr ⟨rfl, by simp⟩⟩

theorem fits_of_mem_expand {template : String} {afterOptional : Bool} {segments : List Segment}
    (ordered : checkOrder template afterOptional segments = .ok ()) {steps : List Step}
    (member : steps ∈ expand segments) {pieces : List String} (fits : StepsFit steps pieces) :
    Fits segments pieces := by
  induction segments generalizing afterOptional steps pieces with
  | nil =>
      rw [expand, List.mem_singleton] at member
      subst member
      exact fits
  | cons segment rest induction =>
      rcases mem_expand_cons_iff.mp member with ⟨optional, rfl⟩ | ⟨others, inRest, rfl⟩
      · rw [stepsFit_nil_iff.mp fits]
        exact .absent (List.forall_mem_cons.mpr
          ⟨optional, isOptional_of_checkOrder_cons optional ordered⟩)
      · cases wildcard : segment.isWildcard with
        | true =>
            rw [eq_nil_of_checkOrder wildcard ordered]
            cases pieces with
            | nil => exact absurd rfl (ne_nil_of_stepsFit fits)
            | cons piece pieces => exact fits_of_isWildcard wildcard piece pieces
        | false =>
            rcases checkOrder_tail ordered with ⟨_, later⟩
            rcases stepsFit_of_single wildcard fits with ⟨piece, pieces, rfl, literal, fitsRest⟩
            exact fits_cons wildcard literal (induction later inRest fitsRest)

/-- A template whose segments stand in order fits just what one of its step sequences fits. -/
theorem fits_iff_exists_mem_expand {template : String} {segments : List Segment}
    (ordered : checkOrder template false segments = .ok ()) {pieces : List String} :
    Fits segments pieces ↔ ∃ steps ∈ expand segments, StepsFit steps pieces :=
  ⟨exists_mem_expand_of_fits, fun ⟨_, member, fits⟩ => fits_of_mem_expand ordered member fits⟩

/-! ### All step sequences that fit -/

/-- The nameless step sequences that fit the pieces of a path, the preferred ones first. -/
def fitting : List String → List (List Step)
  | [] => [[]]
  | piece :: rest =>
      (fitting rest).map (.static piece :: ·) ++ (fitting rest).map (.capture "" :: ·) ++
        [[.wildcard ""]]

theorem stepsFit_iff_mem_fitting {steps : List Step} {pieces : List String} :
    StepsFit steps pieces ↔ nameless steps ∈ fitting pieces := by
  induction pieces generalizing steps with
  | nil =>
      cases steps with
      | nil => simp [stepsFit_nil_iff, fitting, nameless]
      | cons step rest =>
          cases step <;>
            simp [stepsFit_static_iff, stepsFit_capture_iff, stepsFit_wildcard_iff, fitting,
              nameless]
  | cons piece rest induction =>
      cases steps with
      | nil => simp [stepsFit_nil_iff, fitting, nameless]
      | cons step others =>
          have later := @induction others
          rw [nameless] at later
          cases step with
          | static text =>
              rw [stepsFit_static_iff]
              simp only [fitting, nameless, Step.nameless, List.map_cons, List.mem_append,
                List.mem_map, List.cons.injEq, List.mem_singleton, reduceCtorEq, false_and,
                and_false, exists_false, or_false]
              constructor
              · intro given
                rcases given with ⟨pieces, ⟨rfl, rfl⟩, fits⟩
                exact ⟨_, later.mp fits, rfl, rfl⟩
              · intro given
                rcases given with ⟨steps, member, equal, rfl⟩
                cases equal
                exact ⟨rest, ⟨rfl, rfl⟩, later.mpr member⟩
          | capture name =>
              rw [stepsFit_capture_iff]
              simp only [fitting, nameless, Step.nameless, List.map_cons, List.mem_append,
                List.mem_map, List.cons.injEq, List.mem_singleton, reduceCtorEq, false_and,
                and_false, exists_false, or_false, false_or]
              constructor
              · intro given
                rcases given with ⟨first, pieces, ⟨rfl, rfl⟩, fits⟩
                exact ⟨_, later.mp fits, trivial, rfl⟩
              · intro given
                rcases given with ⟨steps, member, -, rfl⟩
                exact ⟨piece, rest, ⟨rfl, rfl⟩, later.mpr member⟩
          | wildcard name =>
              simp [stepsFit_wildcard_iff, fitting, nameless, Step.nameless]

theorem nameless_of_mem_fitting {pieces : List String} {steps : List Step}
    (member : steps ∈ fitting pieces) : nameless steps = steps := by
  induction pieces generalizing steps with
  | nil =>
      rw [fitting, List.mem_singleton] at member
      subst member
      rfl
  | cons piece rest induction =>
      simp only [fitting, List.mem_append, List.mem_map, List.mem_singleton] at member
      rcases member with (⟨steps, inRest, rfl⟩ | ⟨steps, inRest, rfl⟩) | rfl
      · exact congrArg (Step.static piece :: ·) (induction inRest)
      · exact congrArg (Step.capture "" :: ·) (induction inRest)
      · rfl

theorem proper_of_mem_fitting {pieces : List String}
    (each : ∀ piece ∈ pieces, Path.IsPiece piece) {steps : List Step}
    (member : steps ∈ fitting pieces) : Proper steps := by
  intro text static
  induction pieces generalizing steps with
  | nil =>
      rw [fitting, List.mem_singleton] at member
      simp [member] at static
  | cons piece rest induction =>
      have later : ∀ steps ∈ fitting rest, .static text ∈ steps → Path.IsPiece text :=
        fun steps => induction fun piece member => each piece (by simp [member])
      simp only [fitting, List.mem_append, List.mem_map, List.mem_singleton] at member
      rcases member with (⟨steps, inRest, rfl⟩ | ⟨steps, inRest, rfl⟩) | rfl
      · rcases List.mem_cons.mp static with equal | inSteps
        · cases equal
          exact each text (by simp)
        · exact later steps inRest inSteps
      · exact later steps inRest (by simpa using static)
      · simp at static

theorem fitting_sorted (pieces : List String) :
    (fitting pieces).Pairwise Precedes := by
  induction pieces with
  | nil => simp [fitting]
  | cons piece rest induction =>
      have below : ∀ step : Step, ((fitting rest).map (step :: ·)).Pairwise Precedes :=
        fun step => List.pairwise_map.mpr (induction.imp precedes_cons)
      rw [fitting, List.pairwise_append]
      refine ⟨List.pairwise_append.mpr ⟨below _, below _, ?_⟩, by simp, ?_⟩
      · intro left leftMem right rightMem
        rcases List.mem_map.mp leftMem with ⟨left, -, rfl⟩
        rcases List.mem_map.mp rightMem with ⟨right, -, rfl⟩
        exact precedes_of_rank (by simp [Step.rank]) left right
      · intro left leftMem right rightMem
        rw [List.mem_singleton] at rightMem
        subst rightMem
        rcases List.mem_append.mp leftMem with member | member
        · rcases List.mem_map.mp member with ⟨left, -, rfl⟩
          exact precedes_of_rank (by simp [Step.rank]) left []
        · rcases List.mem_map.mp member with ⟨left, -, rfl⟩
          exact precedes_of_rank (by simp [Step.rank]) left []

/-- The first sequence takes every piece literally, and it is the only one without captures. -/
theorem fitting_eq_cons (pieces : List String) :
    ∃ others, fitting pieces = pieces.map Step.static :: others ∧
      ∀ steps ∈ others, names steps ≠ [] := by
  induction pieces with
  | nil => exact ⟨[], rfl, by simp⟩
  | cons piece rest induction =>
      rcases induction with ⟨others, equal, capturing⟩
      refine ⟨others.map (.static piece :: ·) ++ (fitting rest).map (.capture "" :: ·) ++
        [[.wildcard ""]], by rw [fitting, equal]; rfl, ?_⟩
      intro steps member
      simp only [List.mem_append, List.mem_map, List.mem_singleton] at member
      rcases member with (⟨steps, inOthers, rfl⟩ | ⟨steps, -, rfl⟩) | rfl
      · simpa [names, Step.name?] using capturing steps inOthers
      · simp [names, Step.name?]
      · simp [names, Step.name?]

end UrlRouting.Template
