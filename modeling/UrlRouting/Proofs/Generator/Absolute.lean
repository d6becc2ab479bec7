import Mathlib.Data.List.DropRight
import UrlRouting.Proofs.Generator.Queries
import UrlRouting.Proofs.Generator.RoundTrip
import UrlRouting.Proofs.Pattern.Printing
import UrlRouting.Proofs.Pattern.Template

/-!
Absolute URLs. A URL on a plain host consists of a scheme, if there is one, of the host and of the
URL of the route, one after the other. The host stands apart from what comes after it just where
the path of the route is rooted: behind the prefix, it is empty or begins with a slash.
-/

namespace UrlRouting

namespace Path

/-- Whether a path is empty or begins with a slash. -/
def Rooted (path : String) : Prop :=
  ∀ first ∈ path.toList.head?, first = '/'

theorem Rooted.append {first second : String} (rooted : Rooted first) (later : Rooted second) :
    Rooted (first ++ second) := by
  intro character here
  rw [String.toList_append] at here
  cases letters : first.toList with
  | nil =>
      rw [letters] at here
      exact later character here
  | cons letter rest =>
      rw [letters] at here
      cases here
      exact rooted character (by rw [letters]; rfl)

theorem head?_collapse (path : String) :
    ∃ first, (collapse path).toList.head? = some first ∧ (first = '/' ↔ Rooted path) := by
  have start : Text.trimEnd (· == '/') (squeeze path.toList) <+: squeeze path.toList :=
    List.rdropWhile_prefix (· == '/') _
  rw [collapse]
  cases trimmed : Text.trimEnd (· == '/') (squeeze path.toList) with
  | nil =>
      refine ⟨'/', rfl, ?_⟩
      have slashes := List.rdropWhile_eq_nil_iff.mp trimmed
      rw [eq_self_iff_true, true_iff]
      intro first here
      rw [← head?_squeeze] at here
      simpa using slashes first (List.mem_of_head? here)
  | cons first rest =>
      rw [trimmed] at start
      rcases start with ⟨others, whole⟩
      have begins : path.toList.head? = some first := by
        rw [← head?_squeeze, ← whole]
        rfl
      refine ⟨first, by simp, ?_⟩
      rw [Rooted, begins]
      simp

end Path

namespace Pattern

theorem exists_literal_of_compile {pattern : String} {variants : List Variant}
    (compiled : compile pattern = .ok variants) (rooted : pattern.toList.head? = some '/')
    {variant : Variant} (member : variant ∈ variants) :
    ∃ text rest, variant.tokens = .literal text :: rest ∧ text.toList.head? = some '/' := by
  rcases exists_parts_of_compile compiled with ⟨parts, nested, rfl⟩
  rcases List.mem_map.mp (List.mem_reverse.mp member) with ⟨tokens, expanded, rfl⟩
  rcases List.head?_eq_some_iff.mp rooted with ⟨others, letters⟩
  have cut : lexemes true pattern.toList = addCharacter '/' (lexemes true others) := by
    rw [letters]
    exact lexemes_append_of_plain (by simp : ∀ character ∈ ['/'], _) others
  have literal : ∃ text rest, lexemes true pattern.toList = .literal ('/' :: text) :: rest := by
    rw [cut, addCharacter.eq_def]
    split
    case h_1 _ text rest _ => exact ⟨text, rest, rfl⟩
    case h_2 => exact ⟨[], _, rfl⟩
  rcases literal with ⟨text, rest, first⟩
  have written := nests_of_nest? nested (.nothing .nil)
  rw [List.nil_append, first] at written
  have nonempty := empty_notMem_mergeLiterals (empty_notMem_of_mem_expand nested expanded)
  cases written with
  | literal later =>
      rw [expand] at expanded
      rcases List.mem_map.mp expanded with ⟨after, -, rfl⟩
      apply exists_literal_cons_of_symbols nonempty
      rw [symbols_mergeLiterals, List.flatMap_cons, Token.symbols, String.toList_ofList]
      rfl

end Pattern

namespace Generator

open Pattern (Variant)

/-! ### What is written of a route -/

/-- Whether a path is written for a route: it is that of the first variant that has an argument for
each of its variables. -/
structure WritesPath (generator : Generator) (declared : Route) (parts : UrlParts)
    (variant : Variant) (path : String) : Prop where
  chosen : ∃ variants, Pattern.compile declared.pattern = .ok variants ∧
    variants.find? (isSatisfied (generator.mergedArguments parts.arguments)) = some variant
  wrote : pathText generator.encoding declared.pattern
    (generator.mergedArguments parts.arguments) variant.tokens = .ok path

variable {generator : Generator} {route : String} {declared : Route} {parts : UrlParts}
  {earlier : List String} {current : Option CurrentRoute} {url : String}

theorem exists_writesPath (known : generator.registry.route route = .ok declared)
    (generated : (generator.generate ⟨.after earlier, current⟩ route parts).1 = .ok url) :
    ∃ variant path rest, generator.WritesPath declared parts variant path ∧
      url = Path.collapse (generator.pathPrefix ++ path) ++ rest := by
  rcases exists_of_generate (Pattern.Memo.faithful_after earlier) generated with
    ⟨_, variants, variant, path, knownToo, compiled, chosen, wrote, whole⟩
  cases known.symm.trans knownToo
  exact ⟨variant, path, _, ⟨⟨variants, compiled, chosen⟩, wrote⟩,
    whole.trans String.append_assoc⟩

theorem WritesPath.rooted {variant : Variant} {path : String}
    (writes : generator.WritesPath declared parts variant path)
    (begins : declared.pattern.toList.head? = some '/') : Path.Rooted path := by
  rcases writes.chosen with ⟨variants, compiled, chosen⟩
  have member := List.mem_of_find?_eq_some chosen
  rcases Pattern.exists_literal_of_compile compiled begins member with ⟨text, rest, tokens, first⟩
  have wrote := writes.wrote
  rw [tokens] at wrote
  rcases pathText_cons wrote with ⟨here, later, literal, -, rfl⟩
  cases literal
  intro character head
  rw [String.toList_append, List.head?_append, first] at head
  cases head
  rfl

/-! ### The host in front -/

def schemePart : Option String → String
  | none => ""
  | some scheme => if scheme = "" then "" else scheme ++ ":"

theorem cutBeforeMark?_eq_none {text : List Char} (slashless : '/' ∉ text) :
    cutBeforeMark? text = none := by
  fun_induction cutBeforeMark? text with
  | case1 => rfl
  | case2 => simp at slashless
  | case3 character rest _ induction =>
      rw [induction fun member => slashless (List.mem_cons_of_mem _ member)]
      rfl

theorem isRelative_of_slashless {authority : String} (slashless : '/' ∉ authority.toList) :
    isRelative authority = true := by
  have noHost : startsWithHost authority = false := by
    rw [startsWithHost, beq_eq_false_iff_ne]
    intro slashes
    apply slashless
    exact List.mem_of_mem_take (slashes ▸ List.mem_cons_self)
  rw [isRelative, noHost, cutBeforeMark?_eq_none slashless]
  rfl

theorem onHost_eq {authority : String} (nonempty : authority ≠ "")
    (slashless : '/' ∉ authority.toList) (url : String) (scheme fallback : Option String) :
    onHost authority url scheme fallback =
      schemePart (scheme.or fallback) ++ "//" ++ authority ++ url := by
  have letters : authority.toList ≠ [] := by simpa using nonempty
  have kept : Text.trimEnd (· == '/') ("//" ++ authority).toList = ("//" ++ authority).toList := by
    apply Text.trimEnd_eq_self
    intro last ends
    rw [String.toList_append, List.getLast?_append_of_ne_nil _ letters] at ends
    rw [beq_eq_false_iff_ne]
    rintro rfl
    exact slashless (List.mem_of_getLast? ends)
  have marked : startsWithHost ("//" ++ authority ++ url) = true := by
    rw [startsWithHost, String.toList_append, String.toList_append]
    rfl
  simp only [onHost, isRelative_of_slashless slashless, nonempty, ne_eq, not_false_eq_true,
    and_self, if_true, kept, String.ofList_toList, Option.orElse_eq_orElse, Option.orElse_eq_or]
  cases scheme.or fallback with
  | none => simp [withScheme, schemePart]
  | some chosen =>
      simp only [withScheme, marked, schemePart, if_true]
      split
      · simp only [String.empty_append]
      · simp only [String.append_assoc]

theorem current_generate (generator : Generator) (shared : Shared) (route : String)
    (parts : UrlParts) : (generator.generate shared route parts).2.current = shared.current := by
  rw [generate]
  split
  · rfl
  · dsimp only
    split <;> rfl

theorem routeHost?_eq (known : generator.registry.route route = .ok declared) :
    generator.routeHost? route = declared.host?.filter (!Pattern.hasVariables ·) := by
  rw [Registry.route] at known
  split at known
  case h_1 found =>
    cases known
    rw [routeHost?, found]
    rfl
  case h_2 => cases known

theorem generateAbsolute_eq {authority : String} (shared : Shared) (parts : UrlParts)
    (scheme : Option String) {host : Option String}
    (known : generator.registry.route route = .ok declared)
    (resolved : host.or ((declared.host?.filter (!Pattern.hasVariables ·)).or generator.host) =
      some authority)
    (nonempty : authority ≠ "") (slashless : '/' ∉ authority.toList) :
    (generator.generateAbsolute shared route parts scheme host).1 =
      (generator.generate shared route parts).1.map fun url =>
        schemePart (scheme.or (generator.scheme.or ((shared.current.bind CurrentRoute.uri).bind
          Uri.scheme))) ++ "//" ++ authority ++ url := by
  have same := current_generate generator shared route parts
  rw [generateAbsolute]
  simp only [same, routeHost?_eq known, Option.orElse_eq_orElse, Option.orElse_eq_or, resolved,
    onHost_eq nonempty slashless]

/-- The absolute URL of a route on a plain host, be it given, declared or configured, consists of
the scheme, the host and the URL of the route. What comes after the host begins with a slash just
where the path behind the prefix is rooted, such as that of a pattern that begins with a slash. -/
theorem generateAbsolute_on_host {authority : String} (scheme host : Option String)
    (known : generator.registry.route route = .ok declared)
    (generated : (generator.generate ⟨.after earlier, current⟩ route parts).1 = .ok url)
    (resolved : host.or ((declared.host?.filter (!Pattern.hasVariables ·)).or generator.host) =
      some authority)
    (nonempty : authority ≠ "") (slashless : '/' ∉ authority.toList) :
    (generator.generateAbsolute ⟨.after earlier, current⟩ route parts scheme host).1 =
        .ok (schemePart (scheme.or (generator.scheme.or ((current.bind CurrentRoute.uri).bind
          Uri.scheme))) ++ "//" ++ authority ++ url) ∧
      ∃ variant path, generator.WritesPath declared parts variant path ∧
        (url.toList.head? = some '/' ↔ Path.Rooted (generator.pathPrefix ++ path)) ∧
        (declared.pattern.toList.head? = some '/' → Path.Rooted generator.pathPrefix →
          url.toList.head? = some '/') := by
  constructor
  · rw [generateAbsolute_eq _ _ _ known resolved nonempty slashless, generated]
    rfl
  · rcases exists_writesPath known generated with ⟨variant, path, rest, writes, rfl⟩
    rcases Path.head?_collapse (generator.pathPrefix ++ path) with ⟨first, begins, rooted⟩
    have head : (Path.collapse (generator.pathPrefix ++ path) ++ rest).toList.head? =
        some first := by
      rw [String.toList_append, List.head?_append, begins]
      rfl
    refine ⟨variant, path, writes, ?_, ?_⟩
    · rw [head, Option.some_inj, rooted]
    · intro slash leads
      rw [head, Option.some_inj, rooted]
      exact leads.append (writes.rooted slash)

theorem generateAbsolute_on_host_post :
    (generateAbsolute
        { registry :=
            { routes := [(Route.new [.get] "/post/{id}").withName "post"]
              index := Table.empty.set "post" 0 }
          scheme := some "http", host := some "example.com", defaults := .empty, encoding := .raw,
          pathPrefix := "" }
        ⟨.after [], none⟩ "post" { arguments := .ofPairs [("id", "1")] } (some "https") none).1 =
      .ok "https://example.com/post/1" := by
  let route := (Route.new [.get] "/post/{id}").withName "post"
  let generator : Generator :=
    { registry := { routes := [route], index := Table.empty.set "post" 0 }
      scheme := some "http", host := some "example.com", defaults := .empty, encoding := .raw,
      pathPrefix := "" }
  let arguments := Arguments.ofPairs [("id", "1")]
  let variant : Variant := { tokens := [.literal "/post/", .placeholder ⟨"id", "[^/]+", .one⟩] }
  have known : generator.registry.route route.name = .ok route := by cbv
  have chosen : chosen? route.pattern arguments = some variant := by cbv
  have wrote : pathText .raw route.pattern arguments.withoutNulls variant.tokens =
      .ok "/post/1" := by cbv
  have generated : (generator.generate ⟨.after [], none⟩ route.name { arguments }).1 =
      .ok "/post/1" := by
    rw [generate_eq (Pattern.Memo.faithful_after []) known rfl rfl chosen (by decide), wrote]
    decide +kernel
  have resolved : (none : Option String).or
      ((route.host?.filter (!Pattern.hasVariables ·)).or generator.host) = some "example.com" := rfl
  have whole := (generateAbsolute_on_host (some "https") none known generated resolved (by decide)
    (by decide)).1
  exact whole.trans (by decide)

/-- Where a pattern begins with a variable, the path runs into the host, although the route answers
requests for the rooted path. -/
theorem generateAbsolute_runs_into_host :
    (∃ variant, Pattern.compile ":locale/home/index" = .ok [variant] ∧
      variant.template = .ok "/:locale/home/index") ∧
    (generate
        { registry :=
            { routes := [(Route.new [.get] ":locale/home/index").withName "index"]
              index := Table.empty.set "index" 0 }
          scheme := none, host := none, defaults := .empty, encoding := .raw, pathPrefix := "" }
        ⟨.after [], none⟩ "index" { arguments := .ofPairs [("locale", "uz")] }).1 =
      .ok "uz/home/index" ∧
    (generateAbsolute
        { registry :=
            { routes := [(Route.new [.get] ":locale/home/index").withName "index"]
              index := Table.empty.set "index" 0 }
          scheme := none, host := none, defaults := .empty, encoding := .raw, pathPrefix := "" }
        ⟨.after [], none⟩ "index" { arguments := .ofPairs [("locale", "uz")] } none
        (some "example.com")).1 =
      .ok "//example.comuz/home/index" ∧
    ∀ rest : String, "//example.comuz/home/index" = "//" ++ "example.com" ++ rest →
      rest.toList.head? ≠ some '/' := by
  let route := (Route.new [.get] ":locale/home/index").withName "index"
  let generator : Generator :=
    { registry := { routes := [route], index := Table.empty.set "index" 0 }
      scheme := none, host := none, defaults := .empty, encoding := .raw, pathPrefix := "" }
  let arguments := Arguments.ofPairs [("locale", "uz")]
  let variant : Variant :=
    { tokens := [.placeholder ⟨"locale", "[^/]+", .one⟩, .literal "/home/index"] }
  have known : generator.registry.route route.name = .ok route := by cbv
  have chosen : chosen? route.pattern arguments = some variant := by cbv
  have wrote : pathText .raw route.pattern arguments.withoutNulls variant.tokens =
      .ok "uz/home/index" := by cbv
  have generated : (generator.generate ⟨.after [], none⟩ route.name { arguments }).1 =
      .ok "uz/home/index" := by
    rw [generate_eq (Pattern.Memo.faithful_after []) known rfl rfl chosen (by decide), wrote]
    decide +kernel
  refine ⟨⟨variant, by cbv, by decide +kernel⟩, generated, ?_, ?_⟩
  · have absolute := generateAbsolute_eq ⟨.after [], none⟩ { arguments } none known
      (show (some "example.com").or _ = some "example.com" from rfl) (by decide) (by decide)
    rw [generated] at absolute
    exact absolute.trans (by decide)
  · intro rest equal
    have split : "//example.comuz/home/index" = "//" ++ "example.com" ++ "uz/home/index" := by
      decide
    rw [split, String.append_right_inj] at equal
    rw [← equal]
    decide

end Generator

end UrlRouting
