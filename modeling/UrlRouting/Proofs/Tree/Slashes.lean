import UrlRouting.Proofs.Tree.Captures

/-!
Slashes mean nothing to a tree but that they stand between pieces. A path leads where the one
written from its pieces leads, and the answers differ only in the slashes within what a capture of
many pieces takes. A template with slashes added makes the same tree.
-/

namespace UrlRouting

namespace Path

def squeezed (text : String) : String :=
  String.ofList (squeeze text.toList)

/-- Whether a text is another one with slashes added: before it, after it or beside a slash. -/
inductive Padded (text : List Char) : List Char → Prop
  | same : Padded text text
  | leading {padded : List Char} : Padded text padded → Padded text ('/' :: padded)
  | trailing {padded : List Char} : Padded text padded → Padded text (padded ++ ['/'])
  | doubled {before after : List Char} :
      Padded text (before ++ '/' :: after) → Padded text (before ++ '/' :: '/' :: after)

theorem Padded.pieceTexts_eq {text other : List Char} (padded : Padded text other) :
    pieceTexts other = pieceTexts text := by
  induction padded with
  | same => rfl
  | leading _ induction => rw [pieceTexts_cons_slash, induction]
  | trailing _ induction =>
      rw [pieceTexts_append, induction]
      exact List.append_nil _
  | doubled _ induction =>
      rw [← induction, pieceTexts_append, pieceTexts_append, pieceTexts_cons_slash]

/-! ### Runs of slashes -/

theorem toList_squeezed_sliceFrom {path : String} {before rest : List Piece} {first : Piece}
    (cut : pieces path = before ++ first :: rest) :
    (squeezed (sliceFrom path first rest)).toList =
      Text.joinFields '/' ((first :: rest).map fun piece => piece.text.toList) := by
  rw [squeezed, String.toList_ofList, squeeze_sliceFrom cut]

theorem joined_ofPieces {parts : List String} (each : ∀ part ∈ parts, IsPiece part) :
    Joined (ofPieces parts) (pieces (ofPieces parts)) := by
  have isPiece : ∀ part ∈ parts.map String.toList, part ≠ [] ∧ '/' ∉ part := by
    intro text member
    rcases List.mem_map.mp member with ⟨part, inParts, rfl⟩
    exact ⟨fun empty => (each part inParts).1 (String.toList_eq_nil_iff.mp empty),
      (each part inParts).2⟩
  apply joined_pieces (.inr rfl) isPiece
  by_cases none : parts = []
  · subst none
    rfl
  · rw [toList_ofPieces none, rooted_eq_joinFields (by simpa using none)]
    rfl

end Path

namespace Tree

open Template

/-! ### What is captured -/

/-- What steps capture, beside the same with runs of slashes made one slash: a capture of one piece
takes the same, a capture of many may take fewer slashes. -/
inductive Tidies : List Step → List (String × String) → List (String × String) → Prop
  | nil : Tidies [] [] []
  | static {text : String} {steps : List Step} {bindings tidied : List (String × String)} :
      Tidies steps bindings tidied → Tidies (.static text :: steps) bindings tidied
  | capture {name value : String} {steps : List Step} {bindings tidied : List (String × String)} :
      Tidies steps bindings tidied →
        Tidies (.capture name :: steps) ((name, value) :: bindings) ((name, value) :: tidied)
  | wildcard {name value : String} :
      Tidies [.wildcard name] [(name, value)] [(name, Path.squeezed value)]

theorem tidies_captured {path tidy : String} {steps : List Step}
    {before pieces tidyPieces : List Path.Piece} (cut : Path.pieces path = before ++ pieces)
    (joined : Path.Joined tidy tidyPieces)
    (same : tidyPieces.map Path.Piece.text = pieces.map Path.Piece.text)
    (fits : StepsFit steps (pieces.map Path.Piece.text)) :
    Tidies steps ((names steps).zip (captured path steps pieces))
      ((names steps).zip (captured tidy steps tidyPieces)) := by
  induction steps generalizing before pieces tidyPieces with
  | nil => exact .nil
  | cons step rest induction =>
      have nonempty := ne_nil_of_stepsFit fits
      cases pieces with
      | nil => exact absurd rfl nonempty
      | cons piece pieces =>
          cases tidyPieces with
          | nil => cases same
          | cons tidyPiece tidyPieces =>
              rcases List.cons.inj same with ⟨sameText, sameRest⟩
              have later : Path.pieces path = (before ++ [piece]) ++ pieces := by
                rw [cut, List.append_assoc, List.singleton_append]
              cases step with
              | static text =>
                  rcases stepsFit_static_iff.mp fits with ⟨_, equal, fitsRest⟩
                  rcases List.cons.inj equal with ⟨-, rfl⟩
                  exact .static (induction later joined.tail sameRest fitsRest)
              | capture name =>
                  rcases stepsFit_capture_iff.mp fits with ⟨_, _, equal, fitsRest⟩
                  rcases List.cons.inj equal with ⟨-, rfl⟩
                  rw [captured, captured, sameText]
                  exact .capture (induction later joined.tail sameRest fitsRest)
              | wildcard name =>
                  rcases stepsFit_wildcard_iff.mp fits with ⟨rfl, -⟩
                  have value : Path.sliceFrom tidy tidyPiece tidyPieces =
                      Path.squeezed (Path.sliceFrom path piece pieces) := by
                    apply String.toList_injective
                    rw [Path.toList_squeezed_sliceFrom cut, joined [] _ _ rfl, List.map_cons,
                      List.map_cons, sameText]
                    have texts := congrArg (List.map String.toList) sameRest
                    rw [List.map_map, List.map_map] at texts
                    exact congrArg _ (congrArg _ texts)
                  rw [captured, captured, value]
                  exact .wildcard

end Tree

/-- An answer, beside the one for the same path without needless slashes: the same endpoint with
what its captures take from both, or the same refusal. -/
inductive Lookup.Tidied : Lookup → Lookup → Prop
  | found {endpoint : Endpoint} {steps : List Template.Step}
      {bindings tidied : List (String × String)} :
      endpoint.pattern = Template.render steps → endpoint.captures = Template.names steps →
      Tree.Tidies steps bindings tidied →
        Tidied (.found endpoint (.ofList bindings)) (.found endpoint (.ofList tidied))
  | methodNotAllowed {allowed : List Method} :
      Tidied (.methodNotAllowed allowed) (.methodNotAllowed allowed)
  | notFound : Tidied .notFound .notFound

namespace Tree

open Template

/-! ### Lookups -/

theorem methodsAt_congr {tree : Tree} (divided : tree.Divided) {path other : String}
    (same : Path.texts path = Path.texts other) : tree.methodsAt path = tree.methodsAt other := by
  have endpoints : ∀ path : String, (tree.candidates path).map Candidate.endpoints =
      (fitting (Path.texts path)).flatMap fun steps =>
        (Candidate.ofEndpoints (tree.endpointsAt steps) []).map Candidate.endpoints := by
    intro path
    rw [candidates_eq divided, List.map_flatMap]
    congr 1
    funext steps
    rw [Candidate.ofEndpoints, Candidate.ofEndpoints]
    split <;> rfl
  have folded : ∀ candidates : List Candidate, allowed candidates =
      (candidates.map Candidate.endpoints).foldl (fun methods endpoints =>
        Method.addMissing methods (endpoints.map Endpoint.method)) [] := by
    intro candidates
    rw [List.foldl_map, allowed]
  rw [methodsAt, methodsAt, folded, folded, endpoints, endpoints, same]

theorem tidied_lookup (additions : List Addition) (method path : String) :
    ((empty.addEach additions).lookup method path).Tidied
      ((empty.addEach additions).lookup method (Path.ofPieces (Path.texts path))) := by
  have divided := (grows_addEach empty additions).divided divided_empty
  have isPiece : ∀ text ∈ Path.texts path, Path.IsPiece text :=
    fun _ member => Path.isPiece_of_mem_texts member
  have sameTexts : Path.texts (Path.ofPieces (Path.texts path)) = Path.texts path :=
    Path.texts_ofPieces isPiece
  have sameMethods := methodsAt_congr divided sameTexts
  cases answer : (empty.addEach additions).lookup method path with
  | notFound =>
      rw [lookup_eq_notFound_iff, ← sameMethods] at answer
      rw [lookup_eq_notFound_iff.mpr answer]
      exact .notFound
  | methodNotAllowed allowed =>
      rw [lookup_eq_methodNotAllowed_iff, ← sameMethods] at answer
      rw [lookup_eq_methodNotAllowed_iff.mpr answer]
      exact .methodNotAllowed
  | found endpoint parameters =>
      have answers := lookup_isFound_iff.mp ⟨endpoint, parameters, answer⟩
      rw [← sameMethods] at answers
      rcases lookup_isFound_iff.mpr answers with ⟨other, tidied, answerToo⟩
      rcases lookup_eq_found divided answer with
        ⟨asked, steps, named, fits, bound, rfl, preferred⟩
      rcases lookup_eq_found divided answerToo with
        ⟨askedToo, stepsToo, namedToo, fitsToo, boundToo, rfl, preferredToo⟩
      rw [sameTexts] at fitsToo preferredToo
      have sameMethod : askedToo = asked := by
        have first := Method.ofName?_eq_some_iff.mpr named
        have second := Method.ofName?_eq_some_iff.mpr namedToo
        exact Option.some.inj (second.symm.trans first)
      subst sameMethod
      -- Both are the preferred place that answers the method, so they are one.
      have sameSteps : stepsToo = steps := by
        rcases preferred stepsToo fitsToo (Option.isSome_of_eq_some boundToo) with same | before
        · exact same
        · rcases preferredToo steps fits (Option.isSome_of_eq_some bound) with same | beforeToo
          · exact same.symm
          · exact absurd beforeToo before.asymm
      subst sameSteps
      cases bound.symm.trans boundToo
      rcases exists_claim_of_mem_fitting fits bound with
        ⟨addition, -, claim, -, rfl, -, same, fitsClaim⟩
      rw [answerToo, captured_congr path same, captured_congr _ same]
      rw [← Path.texts_pieces] at fitsClaim
      apply Lookup.Tidied.found rfl rfl
      apply tidies_captured (List.nil_append _).symm (Path.joined_ofPieces isPiece) _ fitsClaim
      rw [Path.texts_pieces, Path.texts_pieces, sameTexts]

end Tree

/-! ### Templates -/

structure Addition.Padded (addition padded : Addition) : Prop where
  methods : padded.methods = addition.methods
  template : Path.Padded addition.template.toList padded.template.toList
  handler : padded.handler = addition.handler

theorem Template.checkOrder_of_checkOrder {template : String} (other : String)
    {afterOptional : Bool} {segments : List Segment}
    (ordered : checkOrder template afterOptional segments = .ok ()) :
    checkOrder other afterOptional segments = .ok () := by
  fun_induction checkOrder template afterOptional segments with
  | case1 => rfl
  | case2 => cases ordered
  | case3 => cases ordered
  | case4 afterOptional name rest induction => exact induction ordered
  | case5 => cases ordered
  | case6 afterOptional segment rest notWildcard notAnyNumber notOptional notAfter induction =>
      rw [checkOrder, if_neg notAfter]
      · exact induction ordered
      · exact notWildcard
      · exact notAnyNumber
      · exact notOptional

namespace Addition.Padded

open Template

variable {addition padded : Addition}

theorem segments_eq (same : addition.Padded padded) :
    segments padded.template = segments addition.template :=
  congrArg (List.map Segment.ofPiece) same.template.pieceTexts_eq

theorem wellformed_iff (same : addition.Padded padded) :
    padded.Wellformed ↔ addition.Wellformed := by
  rw [Wellformed, Wellformed, same.methods, same.segments_eq]
  exact and_congr_right fun _ => ⟨checkOrder_of_checkOrder _, checkOrder_of_checkOrder _⟩

end Addition.Padded

namespace Tree

theorem add_padded (tree : Tree) {addition padded : Addition} (same : addition.Padded padded) :
    (tree.add padded.methods padded.template padded.handler).1 =
      (tree.add addition.methods addition.template addition.handler).1 := by
  by_cases wellformed : addition.Wellformed
  · rw [add_of_wellformed tree wellformed,
      add_of_wellformed tree (same.wellformed_iff.mpr wellformed), same.segments_eq, same.methods,
      same.handler]
  · rcases add_of_malformed tree wellformed with ⟨error, -, failed⟩
    rcases add_of_malformed tree (mt same.wellformed_iff.mp wellformed) with
      ⟨errorToo, -, failedToo⟩
    rw [failed, failedToo]

theorem addEach_padded (tree : Tree) {additions padded : List Addition}
    (same : List.Forall₂ Addition.Padded additions padded) :
    tree.addEach padded = tree.addEach additions := by
  induction same generalizing tree with
  | nil => rfl
  | cons here _ induction =>
      rw [addEach, addEach, List.foldl_cons, List.foldl_cons, add_padded tree here]
      exact induction _

/-- Slashes mean nothing to a tree. With slashes added before, after or beside those of templates,
the same tree is made. Any path is answered as the one with a slash before each of its pieces: by
the same endpoint, or with the same refusal; captures of one piece take the same, and a capture of
many takes the text with one slash for each run of them. -/
theorem lookup_ignores_slashes {additions padded : List Addition}
    (same : List.Forall₂ Addition.Padded additions padded) :
    empty.addEach padded = empty.addEach additions ∧
    ∀ method path, ((empty.addEach additions).lookup method path).Tidied
      ((empty.addEach additions).lookup method (Path.ofPieces (Path.texts path))) :=
  ⟨addEach_padded empty same, tidied_lookup additions⟩

theorem lookup_ignores_slashes_files :
    let tree := empty.addEach [⟨[.get], "/users/:id/files/:rest*", "show"⟩]
    let endpoint : Endpoint := ⟨.get, "show", ["id", "rest"], "/users/:id/files/:rest+"⟩
    List.Forall₂ Addition.Padded [⟨[.get], "/users/:id/files/:rest*", "show"⟩]
        [⟨[.get], "//users/:id//files/:rest*/", "show"⟩] ∧
      empty.addEach [⟨[.get], "//users/:id//files/:rest*/", "show"⟩] = tree ∧
      tree.lookup "GET" "users//7/files/new///b/" =
        .found endpoint (.ofList [("id", "7"), ("rest", "new///b")]) ∧
      tree.lookup "GET" "/users/7/files/new/b" =
        .found endpoint (.ofList [("id", "7"), ("rest", "new/b")]) ∧
      (tree.lookup "GET" "users//7/files/new///b/").Tidied
        (tree.lookup "GET" "/users/7/files/new/b") := by
  have padded : Path.Padded "/users/:id/files/:rest*".toList "//users/:id//files/:rest*/".toList :=
    .trailing (.leading (@Path.Padded.doubled _ "/users/:id".toList "files/:rest*".toList .same))
  have same : List.Forall₂ Addition.Padded [⟨[.get], "/users/:id/files/:rest*", "show"⟩]
      [⟨[.get], "//users/:id//files/:rest*/", "show"⟩] :=
    .cons ⟨rfl, padded, rfl⟩ .nil
  have canonical : Path.ofPieces (Path.texts "users//7/files/new///b/") =
      "/users/7/files/new/b" := by decide +kernel
  have answered := (lookup_ignores_slashes same).2 "GET" "users//7/files/new///b/"
  rw [canonical] at answered
  exact ⟨same, (lookup_ignores_slashes same).1, by decide +kernel, by decide +kernel, answered⟩

end Tree

end UrlRouting
