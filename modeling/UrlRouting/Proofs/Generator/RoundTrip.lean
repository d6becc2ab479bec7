import UrlRouting.Proofs.Generator.Choice
import UrlRouting.Proofs.Generator.Tokens
import UrlRouting.Proofs.Registration.Alone
import UrlRouting.Proofs.Registry

/-!
Generated URLs are answered by the route that they were generated for. The tokens of a variant give
its template and the generated path at once, so the pieces of both correspond; a matcher for that
route alone reads the path back, finds that it fits the template, and takes the values out of it.
-/

namespace UrlRouting

open Pattern (Variable Token Variant CaptureFree)
open Template

/-! ### Reading a generated path -/

theorem Generator.Written.decode_collapse {encoding : Encoding} {literal : List Char → Prop}
    {template plain : List (List Char)} {taken : List (Variable × String)} {path : String}
    (given : Written encoding literal template (Path.pieceTexts path.toList) plain taken) :
    Path.texts (encoding.decode (Path.collapse path)) = plain.map String.ofList ∧
      Path.Joined (encoding.decode (Path.collapse path))
        (Path.pieces (encoding.decode (Path.collapse path))) := by
  rcases Path.exists_toList_collapse path with ⟨lead, short, tidy⟩
  have read : encoding.decode (Path.collapse path) =
      String.ofList (lead ++ Text.joinFields '/' plain) := by
    rw [← String.ofList_toList (s := Path.collapse path), tidy]
    exact (given.spells short).decode_eq
  rw [read]
  constructor
  · rw [Path.texts, String.toList_ofList,
      Path.pieceTexts_lead_joinFields short given.isPiece_plain]
  · exact Path.joined_pieces short given.isPiece_plain String.toList_ofList

/-! ### What is generated -/

namespace Registry

theorem route_of_ofRoutes {registry : Registry} {route : Route}
    (alone : ofRoutes [route] = .ok registry) :
    registry.route route.name = .ok route ∧ route.methods ≠ [] := by
  have holds := holds_of_ofRoutes alone
  exact ⟨holds.route_eq_ok_iff.mpr ⟨List.mem_singleton_self route, rfl⟩,
    holds.answers route (List.mem_singleton_self route)⟩

end Registry

namespace Generator

def chosen? (pattern : String) (arguments : Arguments) : Option Variant :=
  (Pattern.compile pattern).toOption.bind fun variants =>
    variants.find? (isSatisfied arguments.withoutNulls)

theorem queryPairs_eq_nil {variant : Variant} {arguments : Arguments}
    (used : ∀ name ∈ arguments.names, name ∈ variant.names) :
    queryPairs variant arguments .empty = [] := by
  have none : (variant.names.foldl Arguments.erase arguments).names = [] := by
    apply List.eq_nil_iff_forall_not_mem.mpr
    intro name member
    rcases arguments.mem_names_eraseAll_iff.mp member with ⟨known, unused⟩
    exact unused (used name known)
  rw [queryPairs, Arguments.pairs_eq_nil none]
  rfl

theorem generate_eq {generator : Generator} {shared : Shared} {route : Route}
    {arguments : Arguments} {variant : Variant} (faithful : shared.memo.Faithful)
    (known : generator.registry.route route.name = .ok route)
    (noDefaults : generator.defaults = .empty) (noPrefix : generator.pathPrefix = "")
    (chosen : chosen? route.pattern arguments = some variant)
    (used : ∀ name ∈ arguments.withoutNulls.names, name ∈ variant.names) :
    (generator.generate shared route.name { arguments }).1 =
      (pathText generator.encoding route.pattern arguments.withoutNulls variant.tokens).map
        Path.collapse := by
  have merged : generator.mergedArguments arguments = arguments.withoutNulls := by
    rw [mergedArguments, noDefaults, Arguments.empty_merge]
  cases compiled : Pattern.compile route.pattern with
  | error error => simp [chosen?, compiled, Except.toOption] at chosen
  | ok variants =>
      simp only [chosen?, compiled, Except.toOption, Option.bind_some] at chosen
      rw [generate_eq_write faithful known compiled, merged, write, chosen]
      dsimp only
      cases pathText generator.encoding route.pattern arguments.withoutNulls variant.tokens with
      | error error => rfl
      | ok path =>
          simp [queryPairs_eq_nil used, noPrefix, fragmentText, Bind.bind, Except.bind, pure,
            Except.pure, Except.map]

theorem pathText_of_generate {generator : Generator} {shared : Shared} {route : Route}
    {arguments : Arguments} {variant : Variant} {url : String} (faithful : shared.memo.Faithful)
    (known : generator.registry.route route.name = .ok route)
    (noDefaults : generator.defaults = .empty) (noPrefix : generator.pathPrefix = "")
    (chosen : chosen? route.pattern arguments = some variant)
    (used : ∀ name ∈ arguments.withoutNulls.names, name ∈ variant.names)
    (generated : (generator.generate shared route.name { arguments }).1 = .ok url) :
    ∃ path, pathText generator.encoding route.pattern arguments.withoutNulls variant.tokens =
      .ok path ∧ url = Path.collapse path := by
  rw [generate_eq faithful known noDefaults noPrefix chosen used] at generated
  cases wrote : pathText generator.encoding route.pattern arguments.withoutNulls
      variant.tokens with
  | error error =>
      rw [wrote] at generated
      cases generated
  | ok path =>
      rw [wrote] at generated
      cases generated
      exact ⟨path, rfl, rfl⟩

/-! ### What is matched -/

variable {encoding : Encoding} {literal : List Char → Prop} {arguments : Arguments}
  {variant : Variant} {pattern template path : String}

theorem exists_written (suits : Suits encoding literal arguments variant.tokens)
    (read : variant.template = .ok template)
    (wrote : pathText encoding pattern arguments variant.tokens = .ok path) :
    ∃ pieces plain, segments template = pieces.map Segment.ofPiece ∧
      Written encoding literal pieces (Path.pieceTexts path.toList) plain
        (takenBy arguments variant.tokens) := by
  rcases Pattern.segments_of_template read with ⟨text, inner, cut⟩
  rcases written_of_tokens suits inner wrote with ⟨plain, given⟩
  exact ⟨_, plain, cut, given⟩

theorem fits_decode (suits : Suits encoding literal arguments variant.tokens)
    (read : variant.template = .ok template)
    (wrote : pathText encoding pattern arguments variant.tokens = .ok path)
    (ordered : checkOrder template false (segments template) = .ok ()) :
    Fits (segments template) (Path.texts (encoding.decode (Path.collapse path))) := by
  rcases exists_written suits read wrote with ⟨pieces, plain, cut, given⟩
  rw [cut] at ordered ⊢
  rw [given.decode_collapse.1]
  exact given.fits ordered

/-- Where literal text holds no captures, just the values are taken out of a generated path. -/
theorem captured_decode (suits : Suits encoding CaptureFree arguments variant.tokens)
    (read : variant.template = .ok template)
    (wrote : pathText encoding pattern arguments variant.tokens = .ok path)
    (ordered : checkOrder template false (segments template) = .ok ())
    {steps : List Step} (expanded : steps ∈ expand (segments template))
    (fits : StepsFit steps (Path.texts (encoding.decode (Path.collapse path)))) :
    (names steps).zip (Tree.captured (encoding.decode (Path.collapse path)) steps
        (Path.pieces (encoding.decode (Path.collapse path)))) =
      variant.names.map fun name => (name, (arguments.get? name).getD "") := by
  rcases exists_written suits read wrote with ⟨pieces, plain, cut, given⟩
  rcases given.decode_collapse with ⟨texts, joined⟩
  rw [cut] at ordered expanded
  rw [texts] at fits
  rcases given.captured_eq ordered expanded fits ((Path.texts_pieces _).trans texts) joined with
    ⟨sameNames, sameValues⟩
  rw [sameNames, sameValues, List.zip_map', takenBy, Variant.names, Variant.parameters,
    List.map_map, List.map_map]
  rfl

theorem suits_of_compile {variants : List Variant}
    (compiled : Pattern.compile pattern = .ok variants) (member : variant ∈ variants)
    (satisfied : isSatisfied arguments.withoutNulls variant = true)
    (plain : ∀ text, .literal text ∈ variant.tokens → encoding.IsPlain text.toList)
    (takes : ∀ parameter ∈ variant.parameters, ∀ value,
      arguments.get? parameter.name = some value → parameter.Takes value) :
    Suits encoding (fun _ => True) arguments.withoutNulls variant.tokens where
  separated := Pattern.separated_of_compile compiled member
  named := fun parameter inTokens => Pattern.named_of_compile compiled member inTokens
  plain := plain
  literal := fun _ _ _ _ => trivial
  takes := by
    intro parameter inTokens
    have inParameters : parameter ∈ variant.parameters :=
      List.mem_filterMap.mpr ⟨_, inTokens, rfl⟩
    have present := List.all_eq_true.mp satisfied parameter.name
      (List.mem_map_of_mem inParameters)
    rw [Arguments.contains_withoutNulls] at present
    rcases Option.isSome_iff_exists.mp present with ⟨value, known⟩
    rw [Arguments.get?_withoutNulls]
    exact ⟨value, known, takes parameter inParameters value known⟩

theorem Suits.captureFree {tokens : List Token} (suits : Suits encoding literal arguments tokens)
    (free : ∀ text, .literal text ∈ tokens → CaptureFree text.toList) :
    Suits encoding CaptureFree arguments tokens :=
  { suits with
    literal := fun text member _ inPieces =>
      (free text member).within (Path.isInfix_of_mem_pieceTexts inPieces) }

end Generator

theorem Matcher.result_matchRequest {matcher : Matcher Id} {shared : Shared} {set : DispatchSet}
    {memo : Pattern.Memo}
    (registered : Registration.register shared.memo matcher.routes = (.ok set, memo))
    (built : matcher.dispatchSet = none ∨ matcher.dispatchSet = some set)
    (host method path : String) :
    (Id.run (matcher.matchRequest shared host method path)).result =
      .ok (set.lookup host method (matcher.encoding.decode path)) := by
  rw [matchRequest, dispatch]
  rcases built with unbuilt | known
  · rw [unbuilt, registered]
    rfl
  · rw [known]
    rfl

/-- A matcher and a generator of one encoding for a route of any host and no other route. The
generator adds nothing of its own to the arguments and paths that it writes. -/
structure Mirrors (route : Route) (generator : Generator) (matcher : Matcher Id) : Prop where
  dispatchable : route.dispatchable = true
  anyHost : route.hosts = []
  generates : Registry.ofRoutes [route] = .ok generator.registry
  answers : matcher.routes = [route]
  sameEncoding : matcher.encoding = generator.encoding
  noDefaults : generator.defaults = .empty
  noPrefix : generator.pathPrefix = ""

/-- A generated URL is answered by the route it was generated for, if no argument was left over, the
literal text of the variant written has no marks of the encoding, and each variable takes its value.
Where the pattern has no groups and no name twice, the arguments that come back are the default ones
with those of the variables laid over them. -/
theorem matchRequest_generate {route : Route} {generator : Generator} {matcher : Matcher Id}
    (mirrors : Mirrors route generator matcher) {earlier others : List String}
    {current otherCurrent : Option CurrentRoute} {arguments : Arguments} {url : String}
    (generated : (generator.generate ⟨.after earlier, current⟩ route.name { arguments }).1 =
      .ok url)
    {variant : Variant} (chosen : Generator.chosen? route.pattern arguments = some variant)
    (used : ∀ name ∈ arguments.withoutNulls.names, name ∈ variant.names)
    (plain : ∀ text, .literal text ∈ variant.tokens → generator.encoding.IsPlain text.toList)
    (takes : ∀ parameter ∈ variant.parameters, ∀ value,
      arguments.get? parameter.name = some value → parameter.Takes value)
    {set : DispatchSet} {memo : Pattern.Memo}
    (registered : Registration.register (.after others) [route] = (.ok set, memo))
    (built : matcher.dispatchSet = none ∨ matcher.dispatchSet = some set) (host : String)
    {method : Method} (known : method ∈ route.methods) :
    ∃ matched,
      (Id.run (matcher.matchRequest ⟨.after others, otherCurrent⟩ host method.name url)).result =
        .ok (.success route.name matched) ∧
      (Pattern.Ungrouped route.pattern → variant.names.Nodup →
        matched = route.defaults.setAll
          (variant.names.map fun name => (name, (arguments.get? name).getD ""))) := by
  rcases Registry.route_of_ofRoutes mirrors.generates with ⟨found, answers⟩
  rcases Registration.register_alone (Pattern.Memo.faithful_after others) mirrors.dispatchable
    mirrors.anyHost registered with ⟨variants, tree, compiled, templates, added, rfl⟩
  rcases Generator.pathText_of_generate (Pattern.Memo.faithful_after earlier) found
    mirrors.noDefaults mirrors.noPrefix chosen used generated with ⟨path, wrote, rfl⟩
  rw [Generator.chosen?, compiled] at chosen
  have member : variant ∈ variants := List.mem_of_find?_eq_some chosen
  have satisfied := List.find?_some chosen
  have suits := Generator.suits_of_compile compiled member satisfied plain takes
  have answered : Registration.answeredMethods route.methods ≠ [] :=
    List.ne_nil_of_mem (Registration.subset_answeredMethods route.methods known)
  rcases templates variant member with ⟨template, read⟩
  have ordered := Registration.checkOrder_of_addAll answered added member read
  have fits := Generator.fits_decode suits read wrote ordered
  rcases Registration.lookup_alone method added
      (Registration.subset_answeredMethods route.methods known) member read fits host with
    ⟨other, inVariants, text, otherRead, steps, expanded, stepsFit, success⟩
  rw [Matcher.result_matchRequest (by rw [mirrors.answers]; exact registered) built,
    mirrors.sameEncoding, success]
  refine ⟨_, rfl, fun ungrouped distinct => ?_⟩
  -- The pattern has one variant only, so it is the one that answers.
  have only := Pattern.compile_of_ungrouped ungrouped
  rw [compiled] at only
  cases only
  rw [List.mem_singleton] at member inVariants
  subst member inVariants
  rw [read] at otherRead
  cases otherRead
  have free := suits.captureFree fun text inTokens =>
    Pattern.captureFree_of_ungrouped ungrouped compiled (by simp) inTokens
  rw [Generator.captured_decode free read wrote ordered expanded stepsFit, Table.entries_ofList]
  · simp only [Arguments.get?_withoutNulls]
  · rwa [List.map_map, Function.comp_def, List.map_id']

theorem matchRequest_generate_page :
    (Generator.generate
        { registry :=
            { routes := [(Route.new [.get] "/a/\x7brest+\x7d").withName "page"]
              index := Table.empty.set "page" 0 }
          scheme := none, host := none, defaults := .empty, encoding := .raw, pathPrefix := "" }
        ⟨.after [], none⟩ "page" { arguments := .ofPairs [("rest", "b c/d")] }).1 =
      .ok "/a/b%20c/d" ∧
    (Id.run (Matcher.matchRequest
        { routes := [(Route.new [.get] "/a/\x7brest+\x7d").withName "page"]
          store := none, encoding := .raw, dispatchSet := none }
        ⟨.after [], none⟩ "example.com" "GET" "/a/b%20c/d")).result =
      .ok (.success "page" (.ofList [("rest", "b c/d")])) := by
  let route := (Route.new [.get] "/a/\x7brest+\x7d").withName "page"
  let generator : Generator :=
    { registry := { routes := [route], index := Table.empty.set "page" 0 }, scheme := none,
      host := none, defaults := .empty, encoding := .raw, pathPrefix := "" }
  let matcher : Matcher Id :=
    { routes := [route], store := none, encoding := .raw, dispatchSet := none }
  let arguments := Arguments.ofPairs [("rest", "b c/d")]
  let variant : Variant :=
    { tokens := [.literal "/a/", .placeholder ⟨"rest", ".+", .oneOrMore⟩] }
  have mirrors : Mirrors route generator matcher :=
    ⟨rfl, rfl, by cbv, rfl, rfl, rfl, rfl⟩
  have chosen : Generator.chosen? route.pattern arguments = some variant := by cbv
  have used : ∀ name ∈ arguments.withoutNulls.names, name ∈ variant.names := by decide
  have wrote : Generator.pathText .raw route.pattern arguments.withoutNulls variant.tokens =
      .ok "/a/b%20c/d" := by cbv
  have generated : (generator.generate ⟨.after [], none⟩ route.name { arguments }).1 =
      .ok "/a/b%20c/d" := by
    rw [Generator.generate_eq (Pattern.Memo.faithful_after []) (by cbv) rfl rfl chosen used, wrote]
    decide +kernel
  have made : (Registration.register (.after []) [route]).1.isOk = true := by cbv
  have ungrouped : Pattern.Ungrouped route.pattern := by
    have cut : Pattern.lexemes true route.pattern.toList =
        [.literal "/a/".toList, .placeholder ⟨"rest", ".+", .oneOrMore⟩] := by cbv
    simp [Pattern.Ungrouped, cut, Pattern.Lexeme.IsUngrouped]
  have plain : ∀ text, .literal text ∈ variant.tokens → Encoding.raw.IsPlain text.toList := by
    intro text member
    rcases List.mem_cons.mp member with equal | later
    · cases equal
      exact ⟨by decide, by simp⟩
    · simp at later
  have takes : ∀ parameter ∈ variant.parameters, ∀ value,
      arguments.get? parameter.name = some value → parameter.Takes value := by
    intro parameter member value known
    rw [List.mem_singleton.mp member] at known ⊢
    cases known
    exact ⟨by decide, fun single => absurd single (by decide), by decide⟩
  cases registered : Registration.register (.after []) [route] with
  | mk outcome memo =>
      rw [registered] at made
      cases outcome with
      | error error => cases made
      | ok set =>
          have known : Method.get ∈ route.methods := by decide
          rcases matchRequest_generate mirrors generated chosen used plain takes registered
            (.inl rfl) "example.com" known with ⟨matched, answered, same⟩
          rw [same ungrouped (by decide)] at answered
          exact ⟨generated, answered⟩

end UrlRouting
