import UrlRouting.Proofs.Path.Slices
import UrlRouting.Proofs.Pattern.Lexeme
import UrlRouting.Proofs.Tree.Refusals

/-!
What a lookup captures. The pattern of an endpoint reads back as the steps that lead to its place,
and each of its captures has a value: a piece of the path, or all of the path from a piece on. With
the values in their places the pattern is the path again, up to slashes.
-/

namespace UrlRouting

namespace Template

def Segment.fill (value? : String → Option String) : Segment → String
  | .static text => text
  | .capture name => (value? name).getD ""
  | .optional name => (value? name).getD ""
  | .wildcard name => (value? name).getD ""
  | .anyNumber name => (value? name).getD ""

def fill (value? : String → Option String) (template : String) : String :=
  Path.ofPieces ((segments template).map (Segment.fill value?))

def captureNames (template : String) : List String :=
  names ((segments template).map Segment.step)

/-- Whether a name holds none of the marks that can follow a name. -/
def Unmarked (name : String) : Prop :=
  ∀ mark ∈ ['?', '*', '+'], mark ∉ name.toList

/-! ### Step sequences written and read again -/

structure Step.Legible (step : Step) : Prop where
  piece : Path.IsPiece step.render
  reads : Segment.ofPiece step.render.toList = step.segment

theorem toList_render {first : Char} {rest : List Char} {name : String}
    (written : name.toList = first :: rest) :
    (Step.capture name).render.toList = ':' :: first :: rest ∧
      (Step.wildcard name).render.toList = ':' :: first :: (rest ++ ['+']) := by
  simp [Step.render, written]

theorem legible_capture {name : String} {first : Char} {rest : List Char}
    (written : name.toList = first :: rest) (starts : Text.startsName first = true)
    (whole : '/' ∉ name.toList) (unmarked : Unmarked name) : (Step.capture name).Legible := by
  have text := (toList_render written).1
  constructor
  · refine ⟨fun empty => ?_, ?_⟩
    · rw [empty] at text
      cases text
    · rw [text, List.mem_cons, not_or, ← written]
      exact ⟨by decide, whole⟩
  · rcases Pattern.exists_marks_of_startsName starts rest with
      ⟨read, mark, make, split, marks, reads⟩
    rw [text, reads]
    rw [← written] at split
    cases marks with
    | capture =>
        rw [List.append_nil] at split
        rw [← split, String.ofList_toList]
        rfl
    | optional => exact absurd (by simp [split]) (unmarked '?' (by simp))
    | anyNumber => exact absurd (by simp [split]) (unmarked '*' (by simp))
    | wildcard => exact absurd (by simp [split]) (unmarked '+' (by simp))

theorem legible_wildcard {name : String} {first : Char} {rest : List Char}
    (written : name.toList = first :: rest) (starts : Text.startsName first = true)
    (whole : '/' ∉ name.toList) : (Step.wildcard name).Legible := by
  have text := (toList_render written).2
  constructor
  · refine ⟨fun empty => ?_, ?_⟩
    · rw [empty] at text
      cases text
    · rw [text, List.mem_cons, not_or, ← List.cons_append, ← written, List.mem_append, not_or]
      exact ⟨by decide, whole, by decide⟩
  · rw [text, Pattern.ofPiece_of_startsName starts, ← List.cons_append, List.getLast?_concat,
      List.dropLast_concat, ← written, String.ofList_toList]
    rfl

theorem legible_static {piece : List Char} {text : String} (nonempty : piece ≠ [])
    (whole : '/' ∉ piece) (reads : Segment.ofPiece piece = .static text) :
    (Step.static text).Legible := by
  have same := eq_of_ofPiece_eq_static reads
  subst same
  refine ⟨⟨fun empty => nonempty (by simpa [Step.render] using empty), ?_⟩, ?_⟩
  · rwa [Step.render, String.toList_ofList]
  · rwa [Step.render, String.toList_ofList]

theorem exists_name_of_ofPiece {piece : List Char} {name : String}
    (named : (Segment.ofPiece piece).step.name? = some name) :
    ∃ first rest, name.toList = first :: rest ∧ Text.startsName first = true ∧
      ∀ character ∈ name.toList, character ∈ piece := by
  rw [Segment.ofPiece.eq_def] at named
  split at named
  case h_2 => cases named
  case h_1 first rest =>
    by_cases starts : Text.startsName first = true
    · rcases Pattern.exists_marks_of_startsName starts rest with
        ⟨read, mark, make, split, marks, reads⟩
      rw [Segment.ofPiece.eq_def] at reads
      simp only at reads
      rw [reads] at named
      have same : name = String.ofList read := by cases marks <;> cases named <;> rfl
      rw [same, String.toList_ofList]
      cases read with
      | nil =>
          -- A mark begins no name.
          cases marks <;> cases split <;> cases starts
      | cons other more =>
          rcases List.cons.inj split with ⟨rfl, rfl⟩
          exact ⟨first, more, rfl, starts, fun character member =>
            List.mem_cons_of_mem ':' (List.mem_append_left mark member)⟩
    · rw [if_neg starts] at named
      cases named

theorem legible_of_mem_expand {template : String} {steps : List Step}
    (expanded : steps ∈ expand (segments template)) (unmarked : ∀ name ∈ names steps, Unmarked name)
    {step : Step} (member : step ∈ steps) : step.Legible := by
  rcases List.mem_map.mp ((prefix_of_mem_expand expanded).subset member) with
    ⟨segment, inTemplate, rfl⟩
  rcases List.mem_map.mp inTemplate with ⟨piece, inPieces, reads⟩
  have nonempty := Path.ne_nil_of_mem_pieceTexts inPieces
  have whole := Path.slash_notMem_of_mem_pieceTexts inPieces
  have named : ∀ name, segment.step.name? = some name →
      ∃ first rest, name.toList = first :: rest ∧ Text.startsName first = true ∧
        '/' ∉ name.toList := by
    intro name captures
    rw [← reads] at captures
    rcases exists_name_of_ofPiece captures with ⟨first, rest, written, starts, inside⟩
    exact ⟨first, rest, written, starts, fun slash => whole (inside '/' slash)⟩
  cases kind : segment.step with
  | static text =>
      have static : segment = .static text := by
        cases segment <;> cases kind
        rfl
      exact legible_static nonempty whole (reads.trans static)
  | capture name =>
      rcases named name (by rw [kind]; rfl) with ⟨first, rest, written, starts, noSlash⟩
      rw [kind] at member
      exact legible_capture written starts noSlash
        (unmarked name (List.mem_filterMap.mpr ⟨_, member, rfl⟩))
  | wildcard name =>
      rcases named name (by rw [kind]; rfl) with ⟨first, rest, written, starts, noSlash⟩
      exact legible_wildcard written starts noSlash

theorem segments_render {steps : List Step} (legible : ∀ step ∈ steps, step.Legible) :
    segments (render steps) = steps.map Step.segment := by
  have written : render steps = Path.ofPieces (steps.map Step.render) := by
    cases steps with
    | nil => rfl
    | cons step rest => simp [render, Path.ofPieces, Function.comp_def]
  have pieces : Path.texts (render steps) = steps.map Step.render := by
    rw [written]
    apply Path.texts_ofPieces
    intro piece member
    rcases List.mem_map.mp member with ⟨step, inSteps, rfl⟩
    exact (legible step inSteps).piece
  have read : segments (render steps) =
      (Path.texts (render steps)).map fun text => Segment.ofPiece text.toList := by
    rw [segments, Path.texts, List.map_map]
    exact List.map_congr_left fun piece _ => by rw [Function.comp_apply, String.toList_ofList]
  rw [read, pieces, List.map_map]
  exact List.map_congr_left fun step member => (legible step member).reads

@[simp] theorem Step.step_segment (step : Step) : step.segment.step = step := by
  cases step <;> rfl

end Template

namespace Tree

open Template

/-! ### What the captures take -/

/-- What step sequences take from pieces of a path under the names that they capture under: a
capture takes one piece, a wildcard the path from a piece on. -/
inductive Takes (path : String) : List Step → List String → List (String × String) → Prop
  | nil : Takes path [] [] []
  | static {text : String} {steps : List Step} {texts : List String}
      {bindings : List (String × String)} :
      text ∈ Path.texts path → Takes path steps texts bindings →
      Takes path (.static text :: steps) (text :: texts) bindings
  | capture {name text : String} {steps : List Step} {texts : List String}
      {bindings : List (String × String)} :
      text ∈ Path.texts path → Takes path steps texts bindings →
      Takes path (.capture name :: steps) (text :: texts) ((name, text) :: bindings)
  | wildcard {name value : String} :
      Path.IsRest path value → Takes path [.wildcard name] (Path.texts value) [(name, value)]

theorem takes_captured {path : String} {steps : List Step} {before pieces : List Path.Piece}
    (cut : Path.pieces path = before ++ pieces)
    (fits : StepsFit steps (pieces.map Path.Piece.text)) :
    Takes path steps (pieces.map Path.Piece.text)
      ((names steps).zip (captured path steps pieces)) := by
  induction steps generalizing before pieces with
  | nil =>
      rw [stepsFit_nil_iff.mp fits]
      exact .nil
  | cons step rest induction =>
      cases pieces with
      | nil =>
          cases step with
          | static text => rcases stepsFit_static_iff.mp fits with ⟨_, none, -⟩; cases none
          | capture name => rcases stepsFit_capture_iff.mp fits with ⟨_, _, none, -⟩; cases none
          | wildcard name => exact absurd rfl (stepsFit_wildcard_iff.mp fits).2
      | cons piece pieces =>
          have inPath : piece.text ∈ Path.texts path := by
            rw [← Path.texts_pieces, cut]
            exact List.mem_map_of_mem (by simp)
          have later : Path.pieces path = (before ++ [piece]) ++ pieces := by
            rw [cut, List.append_assoc, List.singleton_append]
          cases step with
          | static text =>
              rcases stepsFit_static_iff.mp fits with ⟨_, equal, fitsRest⟩
              rcases List.cons.inj equal with ⟨rfl, rfl⟩
              exact .static inPath (induction later fitsRest)
          | capture name =>
              rcases stepsFit_capture_iff.mp fits with ⟨_, _, equal, fitsRest⟩
              rcases List.cons.inj equal with ⟨-, rfl⟩
              exact .capture inPath (induction later fitsRest)
          | wildcard name =>
              rcases stepsFit_wildcard_iff.mp fits with ⟨rfl, -⟩
              rcases Path.isRest_sliceFrom cut with ⟨rest, texts⟩
              rw [← texts]
              exact .wildcard rest

variable {path : String} {steps : List Step} {texts : List String}
  {bindings : List (String × String)}

theorem Takes.names_eq (takes : Takes path steps texts bindings) :
    bindings.map Prod.fst = names steps := by
  induction takes with
  | nil => rfl
  | static _ _ induction => exact induction
  | capture _ _ induction => exact congrArg (_ :: ·) induction
  | wildcard => rfl

theorem Takes.exists_capture (takes : Takes path steps texts bindings) {name : String}
    (member : .capture name ∈ steps) :
    ∃ value ∈ Path.texts path, (name, value) ∈ bindings := by
  induction takes with
  | nil => cases member
  | static _ _ induction => exact induction (by simpa using member)
  | @capture other text _ _ _ inPath _ induction =>
      rcases List.mem_cons.mp member with same | later
      · cases same
        exact ⟨text, inPath, List.mem_cons_self⟩
      · rcases induction later with ⟨value, inTexts, known⟩
        exact ⟨value, inTexts, List.mem_cons_of_mem _ known⟩
  | wildcard => simp at member

theorem Takes.exists_wildcard (takes : Takes path steps texts bindings) {name : String}
    (member : .wildcard name ∈ steps) :
    ∃ value, Path.IsRest path value ∧ (name, value) ∈ bindings := by
  induction takes with
  | nil => cases member
  | static _ _ induction => exact induction (by simpa using member)
  | capture _ _ induction =>
      rcases induction (by simpa using member) with ⟨value, rest, known⟩
      exact ⟨value, rest, List.mem_cons_of_mem _ known⟩
  | @wildcard other value rest =>
      cases List.mem_singleton.mp member
      exact ⟨value, rest, List.mem_cons_self⟩

theorem Takes.flatMap_fill (takes : Takes path steps texts bindings)
    {value? : String → Option String}
    (agrees : ∀ binding ∈ bindings, value? binding.1 = some binding.2) :
    (steps.flatMap fun step => Path.texts (step.segment.fill value?)) = texts := by
  induction takes with
  | nil => rfl
  | static inPath _ induction =>
      rw [List.flatMap_cons, induction agrees, Step.segment, Segment.fill,
        Path.texts_of_isPiece (Path.isPiece_of_mem_texts inPath)]
      rfl
  | capture inPath _ induction =>
      rw [List.forall_mem_cons] at agrees
      rw [List.flatMap_cons, induction agrees.2, Step.segment, Segment.fill, agrees.1,
        Option.getD_some, Path.texts_of_isPiece (Path.isPiece_of_mem_texts inPath)]
      rfl
  | wildcard =>
      rw [List.forall_mem_singleton] at agrees
      rw [List.flatMap_singleton, Step.segment, Segment.fill, agrees, Option.getD_some]

/-! ### Where endpoints come from -/

theorem exists_claim_of_bound?_add {tree : Tree} {addition : Addition} {steps : List Step}
    (proper : Proper steps) {method : Method} {endpoint : Endpoint}
    (bound : (tree.add addition.methods addition.template addition.handler).1.bound? steps method =
      some endpoint) :
    tree.bound? steps method = some endpoint ∨
      ∃ claim ∈ addition.claims, isAt steps method claim.place = true ∧
        claim.endpoint = endpoint := by
  by_cases wellformed : addition.Wellformed
  · rw [add_of_wellformed tree wellformed,
      bound?_bindAll (proper_of_mem_places addition.methods addition.template) proper] at bound
    rcases Option.or_eq_some_iff.mp bound with earlier | ⟨-, new⟩
    · exact .inl earlier
    · rcases Option.map_eq_some_iff.mp new with ⟨place, first, rfl⟩
      have member := (List.takeWhile_sublist _).subset (List.mem_of_find?_eq_some first)
      exact .inr ⟨⟨place, addition.handler⟩, List.mem_map_of_mem member,
        List.find?_some first, rfl⟩
  · rcases add_of_malformed tree wellformed with ⟨error, -, failed⟩
    rw [failed] at bound
    exact .inl bound

theorem exists_claim_of_bound?_addEach {tree : Tree} {additions : List Addition}
    {steps : List Step} (proper : Proper steps) {method : Method} {endpoint : Endpoint}
    (bound : (tree.addEach additions).bound? steps method = some endpoint) :
    tree.bound? steps method = some endpoint ∨
      ∃ addition ∈ additions, ∃ claim ∈ addition.claims,
        isAt steps method claim.place = true ∧ claim.endpoint = endpoint := by
  induction additions generalizing tree with
  | nil => exact .inl bound
  | cons addition rest induction =>
      rcases induction bound with before | ⟨other, inRest, claimed⟩
      · rcases exists_claim_of_bound?_add proper before with earlier | claimed
        · exact .inl earlier
        · exact .inr ⟨addition, List.mem_cons_self, claimed⟩
      · exact .inr ⟨other, List.mem_cons_of_mem _ inRest, claimed⟩

theorem exists_claim_of_mem_fitting {additions : List Addition} {path : String}
    {steps : List Step} (fits : steps ∈ fitting (Path.texts path)) {method : Method}
    {endpoint : Endpoint} (bound : (empty.addEach additions).bound? steps method = some endpoint) :
    ∃ addition ∈ additions, ∃ claim ∈ addition.claims,
      claim.endpoint = endpoint ∧ claim.place.2 = method ∧
      nameless steps = nameless claim.place.1 ∧ StepsFit claim.place.1 (Path.texts path) := by
  rcases exists_claim_of_bound?_addEach (proper_fitting fits) bound with
    none | ⟨addition, inAdditions, claim, inClaims, here, rfl⟩
  · rw [bound?_empty] at none
    cases none
  · rcases isAt_iff.mp here with ⟨same, answers⟩
    refine ⟨addition, inAdditions, claim, inClaims, rfl, answers, same, ?_⟩
    rw [stepsFit_iff_mem_fitting, ← same, nameless_of_mem_fitting fits]
    exact fits

theorem exists_takes_of_found {additions : List Addition} {method path : String}
    {endpoint : Endpoint} {parameters : Table String}
    (found : (empty.addEach additions).lookup method path = .found endpoint parameters) :
    ∃ addition ∈ additions, ∃ claim ∈ addition.claims,
      claim.endpoint = endpoint ∧ endpoint.method.name = method ∧
      ∃ bindings, Takes path claim.place.1 (Path.texts path) bindings ∧
        parameters = .ofList bindings := by
  have divided := (grows_addEach empty additions).divided divided_empty
  rcases lookup_eq_found divided found with ⟨asked, steps, named, fits, bound, rfl, -⟩
  rcases exists_claim_of_mem_fitting fits bound with
    ⟨addition, inAdditions, claim, inClaims, rfl, rfl, same, fitsClaim⟩
  rw [← Path.texts_pieces] at fitsClaim ⊢
  refine ⟨addition, inAdditions, claim, inClaims, rfl, named, _,
    takes_captured (List.nil_append _).symm fitsClaim, ?_⟩
  rw [captured_congr path same]
  rfl

/-! ### What a lookup captures -/

/-- An endpoint found stems from one of the additions, whether or not others of them failed. If the
names it captures under are distinct and hold no marks (letters, digits, underscores and hyphens are
none), then its pattern has just the captures that the parameters have values for: a capture of one
piece has a piece of the path, a capture of many the path from a piece on to the last one; and the
pattern with the values in place of the captures has the pieces of the path. -/
theorem found_rebuilds {additions : List Addition} {method path : String}
    {endpoint : Endpoint} {parameters : Table String}
    (found : (empty.addEach additions).lookup method path = .found endpoint parameters) :
    (∃ addition ∈ additions, ∃ claim ∈ addition.claims,
      claim.endpoint = endpoint ∧ endpoint.method.name = method ∧
        endpoint.captures <+: captureNames addition.template) ∧
    (endpoint.captures.Nodup → (∀ name ∈ endpoint.captures, Unmarked name) →
      parameters.names = captureNames endpoint.pattern ∧
      (∀ segment ∈ segments endpoint.pattern, segment.isOptional = false) ∧
      (∀ name, .capture name ∈ segments endpoint.pattern →
        ∃ value ∈ Path.texts path, parameters.get? name = some value) ∧
      (∀ name, .wildcard name ∈ segments endpoint.pattern →
        ∃ value, parameters.get? name = some value ∧ Path.IsRest path value) ∧
      Path.texts (fill parameters.get? endpoint.pattern) = Path.texts path) := by
  rcases exists_takes_of_found found with
    ⟨addition, inAdditions, claim, inClaims, rfl, named, bindings, takes, rfl⟩
  have expanded := (Addition.mem_claims_iff.mp inClaims).1
  refine ⟨⟨addition, inAdditions, claim, inClaims, rfl, named, ?_⟩, ?_⟩
  · exact (prefix_of_mem_expand expanded).filterMap Step.name?
  intro nodup unmarked
  have distinct : (bindings.map Prod.fst).Nodup := by
    rw [takes.names_eq]
    exact nodup
  have read : segments claim.endpoint.pattern = claim.place.1.map Step.segment :=
    segments_render fun step member => legible_of_mem_expand expanded unmarked member
  have value : ∀ binding ∈ bindings, (Table.ofList bindings).get? binding.1 = some binding.2 :=
    fun binding member => Table.get?_ofList_of_mem distinct member
  refine ⟨?_, ?_, ?_, ?_, ?_⟩
  · rw [Table.names, Table.entries_ofList distinct, takes.names_eq, captureNames, read]
    simp [Function.comp_def]
  · rw [read]
    intro segment member
    rcases List.mem_map.mp member with ⟨step, -, rfl⟩
    cases step <;> rfl
  · rw [read]
    intro name member
    rcases List.mem_map.mp member with ⟨step, inSteps, same⟩
    cases step <;> cases same
    rcases takes.exists_capture inSteps with ⟨text, inPath, known⟩
    exact ⟨text, inPath, value _ known⟩
  · rw [read]
    intro name member
    rcases List.mem_map.mp member with ⟨step, inSteps, same⟩
    cases step <;> cases same
    rcases takes.exists_wildcard inSteps with ⟨text, rest, known⟩
    exact ⟨text, value _ known, rest⟩
  · rw [fill, Path.texts_ofPieces_flatMap, read, List.map_map, List.flatMap_map]
    exact takes.flatMap_fill value

theorem found_rebuilds_files :
    let additions : List Addition :=
      [⟨[.get], "/users/:name/files/new", "form"⟩, ⟨[.get], "/:any/:id/files/:rest*", "show"⟩]
    let parameters : Table String := .ofList [("any", "users"), ("id", "7"), ("rest", "new//b")]
    ∃ endpoint, (empty.addEach additions).lookup "GET" "/users//7/files/new//b/" =
        .found endpoint parameters ∧
      endpoint.captures.Nodup ∧ (∀ name ∈ endpoint.captures, Unmarked name) ∧
      parameters.names = captureNames endpoint.pattern ∧
      Path.texts (fill parameters.get? endpoint.pattern) =
        Path.texts "/users//7/files/new//b/" := by
  have found : (empty.addEach
        [⟨[.get], "/users/:name/files/new", "form"⟩, ⟨[.get], "/:any/:id/files/:rest*", "show"⟩]
        ).lookup "GET" "/users//7/files/new//b/" =
      .found ⟨.get, "show", ["any", "id", "rest"], "/:any/:id/files/:rest+"⟩
        (.ofList [("any", "users"), ("id", "7"), ("rest", "new//b")]) := by
    decide +kernel
  have distinct : ["any", "id", "rest"].Nodup := by decide
  have unmarked : ∀ name ∈ ["any", "id", "rest"], Unmarked name := by simp [Unmarked]
  rcases (found_rebuilds found).2 distinct unmarked with ⟨names, -, -, -, rebuilt⟩
  exact ⟨_, found, distinct, unmarked, names, rebuilt⟩

end Tree

end UrlRouting
