import UrlRouting.Proofs.Registration.Labels
import UrlRouting.Proofs.Registration.Preference
import UrlRouting.Proofs.Tree.HostValues

/-!
What a route of hosts with variables captures. A route that is registered alone owns all its places,
so it answers whatever host its template means and whatever path one of its variants fits. Where
each variable fills a label, the arguments hold for each variable what it means in the host; where
one shares its label with other text, no answer has a value of it that makes the host again.
-/

namespace UrlRouting

open Template

/-! ### A route alone -/

def Route.Captures (route : Route) (name : String) : Prop :=
  ∃ variants, Pattern.compile route.pattern = .ok variants ∧
    ∃ variant ∈ variants, ∃ text, variant.template = .ok text ∧
      ∃ steps ∈ expand (segments text), name ∈ names steps

theorem Route.Separates.exists_values {route : Route} {template host path : String}
    {arguments : Table String} (separates : route.Separates template host path arguments)
    (distinct : ((Host.parameters template).map Pattern.Variable.name).Nodup)
    (apart : ∀ parameter ∈ Host.parameters template, ¬ route.Captures parameter.name) :
    ∃ values, (∀ parameter ∈ Host.parameters template,
        arguments.get? parameter.name = some (values parameter.name)) ∧
      Host.fill values template = host := by
  have named := Host.names_bindings separates.meant
  rw [← Host.parameters_eq] at named
  rw [← named] at distinct
  have known := @Table.get?_ofList_of_mem _ _ distinct
  refine ⟨fun name => ((Table.ofList (Host.bindings (Host.labels template)
    (Host.labelTexts host))).get? name).getD "", ?_, ?_⟩
  · intro parameter member
    have inNames : parameter.name ∈ _ := named ▸ List.mem_map_of_mem member
    rcases List.mem_map.mp inNames with ⟨⟨name, value⟩, inBindings, same⟩
    rcases separates.fits with
      ⟨variants, compiled, variant, inVariants, text, written, -, steps, expanded, -, given⟩
    have unnamed : parameter.name ∉ names steps := fun captured =>
      apart parameter member
        ⟨variants, compiled, variant, inVariants, text, written, steps, expanded, captured⟩
    rw [given, Table.get?_ofList_append,
      Table.get?_ofList_of_notMem (Table.notMem_map_fst_zip unnamed), Option.none_or]
    rw [← show name = parameter.name from same]
    simp only [known inBindings, Option.some_or, Option.getD_some]
  · apply Host.fill_eq_of_means separates.meant
    intro binding member
    rw [known member, Option.getD_some]

/-- Whether a request is answered by a route with values of its host variables that make the host
when they are put in the place of the variables. -/
def DispatchSet.BindsHost (set : DispatchSet) (route : Route) (template host method path : String) :
    Prop :=
  ∃ arguments values, set.lookup host method path = .success route.name arguments ∧
    (∀ parameter ∈ Host.parameters template,
      arguments.get? parameter.name = some (values parameter.name)) ∧
    Host.fill values template = host

namespace Registration

variable {earlier : List String} {set : DispatchSet} {memo : Pattern.Memo} {route : Route}

theorem owners_register_alone
    (registered : register (.after earlier) [route] = (.ok set, memo)) {binding : Binding}
    (asked : binding ∈ route.bindings) {position : Position}
    (claimed : position ∈ binding.positions) : set.owners position = some route.name := by
  rw [owners_register registered (Binding.proper_of_mem_positions claimed), bindings,
    List.flatMap_singleton]
  exact Owners.takeAll_of_route (fun _ => route_of_mem_bindings) asked claimed

theorem hosts_register_alone (registered : register (.after earlier) [route] = (.ok set, memo))
    {template : String} (declared : route.hostTemplate? = some template) (host : String) :
    set.hosts.get? host = none := by
  rw [Route.hostTemplate?_eq_some_iff] at declared
  cases registers_of_registerAll registered with
  | hidden _ later =>
      cases later
      rfl
  | bound _ _ made later =>
      cases later
      rw [recordDefaults]
      cases binds_of_bindRoute made with
      | anyHost read _ => cases declared.symm.trans read
      | exact read _ => cases declared.symm.trans read
      | parameterized _ _ _ => split <;> rfl

theorem found_register_alone (registered : register (.after earlier) [route] = (.ok set, memo))
    {binding : Binding} (asked : binding ∈ route.bindings) {steps : List Step}
    (expanded : steps ∈ expand (segments binding.template)) {path : String}
    (fits : StepsFit steps (Path.texts path)) :
    ∃ endpoint captured, endpoint.handler = route.name ∧
      DispatchSet.lookupTree (set.tree? binding.tier) binding.method.name path =
        .found endpoint captured := by
  have stems := Forest.stemsFrom_empty.run (run_register registered)
  rw [List.nil_append] at stems
  have owned := owners_register_alone registered asked (List.mem_map_of_mem expanded)
  rcases DispatchSet.found_of_owned stems (stepsFit_iff_mem_fitting.mp fits) owned with
    ⟨endpoint, captured, found⟩
  rcases DispatchSet.source_of_found stems found with ⟨source, inBindings, -, handled, -⟩
  rw [bindings, List.flatMap_singleton] at inBindings
  exact ⟨endpoint, captured, handled.symm.trans (route_of_mem_bindings inBindings), found⟩

/-- A lone route whose variables fill their labels binds them in every host that its template means,
for every path that a variant of it fits. -/
theorem bindsHost_of_whole (registered : register (.after earlier) [route] = (.ok set, memo))
    (dispatchable : route.dispatchable = true) {template : String}
    (declared : route.hostTemplate? = some template)
    (plain : ∀ parameter ∈ Host.parameters template, parameter.regex = Pattern.segmentRegex)
    (distinct : ((Host.parameters template).map Pattern.Variable.name).Nodup)
    (apart : ∀ parameter ∈ Host.parameters template, ¬ route.Captures parameter.name)
    {host path : String} (slashless : '/' ∉ host.toList)
    (accepted : Host.accepts template host = true) {asked : Method}
    (answers : asked ∈ answeredMethods route.methods) (rooted : path.toList.head? = some '/')
    {variants : List Pattern.Variant} (compiled : Pattern.compile route.pattern = .ok variants)
    {variant : Pattern.Variant} (member : variant ∈ variants) {text : String}
    (written : variant.template = .ok text) (fits : Fits (segments text) (Path.texts path))
    (whole : Host.Whole template) : set.BindsHost route template host asked.name path := by
  have confined : ∀ parameter ∈ Host.parameters template, Host.Confined parameter :=
    fun parameter inTemplate => Host.confined_of_plain (plain parameter inTemplate)
  rcases Host.exists_spelling_of_accepts confined accepted with ⟨texts, spelled, equal⟩
  have slashlessTemplate := Host.slash_notMem_of_spelling slashless spelled equal
  have meant := Host.means_of_spelling whole spelled equal (.inl plain)
  have undotted : ∀ text ∈ Host.labelTexts host, '.' ∉ text :=
    fun text => Text.separator_notMem_of_mem_fields
  -- The steps of the host and those of the variant fit the folded path.
  rcases exists_mem_expand_of_fits fits with ⟨rest, inRest, fitsRest⟩
  have inBindings : ⟨.parameterized, route.name, Host.pathTemplate template ++ text, asked⟩ ∈
      route.bindings :=
    mem_bindings_iff.mpr ⟨dispatchable, variants, compiled, .parameterized template,
      Route.hostTemplate?_eq_some_iff.mp declared, .parameterized, List.mem_singleton_self _,
      variant, member, text, written, asked, answers, rfl⟩
  have expanded : Host.steps (Host.labels template) ++ rest ∈
      expand (segments (Host.pathTemplate template ++ text)) := by
    rw [Host.segments_append whole slashlessTemplate (Pattern.Variant.head?_of_template written),
      Host.expand_append]
    exact List.mem_map_of_mem inRest
  have fitsAll : StepsFit (Host.steps (Host.labels template) ++ rest)
      (Path.texts (Host.foldedPath host path)) := by
    rw [Host.texts_foldedPath slashless rooted]
    exact (Host.stepsFit_append_iff meant undotted rest _).mpr fitsRest
  rcases found_register_alone registered inBindings expanded fitsAll with
    ⟨endpoint, captured, handled, found⟩
  have alone : ([route].map Route.name).Nodup := List.nodup_singleton _
  have validated : set.hostAccepted endpoint.handler host = true := by
    rw [handled, hostAccepted_eq alone registered (List.mem_singleton_self _) dispatchable declared,
      accepted]
  have unknown : set.lookupExact host asked.name path = .notFound := by
    rw [DispatchSet.lookupExact, hosts_register_alone registered declared]
  have named : ∃ arguments, set.success endpoint.handler captured = .success route.name arguments :=
    ⟨_, by rw [DispatchSet.success, handled]⟩
  rcases named with ⟨arguments, answer⟩
  have separates := separates_of_means registered alone (List.mem_singleton_self _) declared whole
    slashless slashlessTemplate rooted found handled meant answer
  rcases separates.exists_values distinct apart with ⟨values, bound, filled⟩
  refine ⟨arguments, values, ?_, bound, filled⟩
  rw [DispatchSet.lookup_of_unknown unknown, show DispatchSet.lookupTree set.parameterized _ _ = _
    from found, ← answer]
  exact if_pos validated

/-- A lone route that binds its variables in some host has no variable that shares its label, unless
it has a default of the same name. -/
theorem whole_of_bindsHost (registered : register (.after earlier) [route] = (.ok set, memo))
    {template : String} (declared : route.hostTemplate? = some template)
    (plain : ∀ parameter ∈ Host.parameters template, parameter.regex = Pattern.segmentRegex)
    (distinct : ((Host.parameters template).map Pattern.Variable.name).Nodup)
    (apart : ∀ parameter ∈ Host.parameters template, ¬ route.Captures parameter.name)
    (undefaulted : ∀ parameter ∈ Host.parameters template,
      route.defaults.get? parameter.name = none)
    {host method path : String} (slashless : '/' ∉ host.toList)
    (accepted : Host.accepts template host = true) (rooted : path.toList.head? = some '/')
    (binds : set.BindsHost route template host method path) : Host.Whole template := by
  rcases binds with ⟨arguments, values, answered, bound, filled⟩
  rcases DispatchSet.found_of_lookup answered with
    ⟨tier, request, endpoint, captured, asks, found, answer⟩
  have stems := Forest.stemsFrom_empty.run (run_register registered)
  rw [List.nil_append] at stems
  rcases DispatchSet.source_of_found stems found with ⟨source, inBindings, sameTier, handled, -⟩
  rw [bindings, List.flatMap_singleton] at inBindings
  have sameName := handled.symm.trans (route_of_mem_bindings inBindings)
  rcases mem_bindings_iff.mp inBindings with
    ⟨dispatchable, _, -, hostBinding, read, own, inTiers, _, -, _, -, _, -, rfl⟩
  rw [Route.hostTemplate?_eq_some_iff.mp declared, Except.ok.injEq] at read
  rw [← read, HostBinding.tiers, List.mem_singleton] at inTiers
  cases sameTier.symm.trans inTiers
  cases asks
  have alone : ([route].map Route.name).Nodup := List.nodup_singleton _
  rcases variant_of_found registered alone (List.mem_singleton_self _) declared found sameName with
    ⟨-, variants, compiled, variant, inVariants, text, written, -, steps, expanded, fits, rfl⟩
  have defaults := (registers_of_registerAll registered).defaults alone (fun _ _ => rfl) route
    (List.mem_singleton_self _) dispatchable
  rw [DispatchSet.success, MatchResult.success.injEq, sameName, defaults] at answer
  apply Host.whole_of_bound plain distinct slashless accepted
    (Pattern.Variant.head?_of_template written) rooted expanded fits ?_ ?_ filled
  · intro parameter member rest inRest inNames
    exact apart parameter member
      ⟨variants, compiled, variant, inVariants, text, written, rest, inRest, inNames⟩
  · intro parameter member
    have here := bound parameter member
    rwa [← answer.2, Table.get?_setAll_entries, undefaulted parameter member, Option.or_none]
      at here

/-- A route of hosts with variables that is registered alone answers a host that its template
accepts, for a path that a variant of it fits, with arguments that make the host again, just if
every variable fills a label. The variables have no expressions of their own, and nothing in the
path has the name of one. A default argument may stand in for a variable that shares its label. -/
theorem register_binds_host_variables
    (registered : register (.after earlier) [route] = (.ok set, memo))
    (dispatchable : route.dispatchable = true) {template : String}
    (declared : route.hostTemplate? = some template)
    (plain : ∀ parameter ∈ Host.parameters template, parameter.regex = Pattern.segmentRegex)
    (distinct : ((Host.parameters template).map Pattern.Variable.name).Nodup)
    (apart : ∀ parameter ∈ Host.parameters template, ¬ route.Captures parameter.name)
    {host path : String} (slashless : '/' ∉ host.toList)
    (accepted : Host.accepts template host = true) {asked : Method}
    (answers : asked ∈ answeredMethods route.methods) (rooted : path.toList.head? = some '/')
    {variants : List Pattern.Variant} (compiled : Pattern.compile route.pattern = .ok variants)
    {variant : Pattern.Variant} (member : variant ∈ variants) {text : String}
    (written : variant.template = .ok text) (fits : Fits (segments text) (Path.texts path)) :
    (Host.Whole template → set.BindsHost route template host asked.name path) ∧
      ((∀ parameter ∈ Host.parameters template, route.defaults.get? parameter.name = none) →
        set.BindsHost route template host asked.name path → Host.Whole template) :=
  ⟨bindsHost_of_whole registered dispatchable declared plain distinct apart slashless accepted
      answers rooted compiled member written fits,
    fun undefaulted => whole_of_bindsHost registered declared plain distinct apart undefaulted
      slashless accepted rooted⟩

theorem register_binds_host_variables_label :
    ∃ set memo arguments values,
      register (.after []) [((Route.new [.get] "/page").withName "page").withHosts ["{n}"]] =
        (.ok set, memo) ∧
      set.lookup "v1" "GET" "/page" = .success "page" arguments ∧
      (∀ parameter ∈ Host.parameters "{n}",
        arguments.get? parameter.name = some (values parameter.name)) ∧
      Host.fill values "{n}" = "v1" := by
  have made : (register (.after [])
      [((Route.new [.get] "/page").withName "page").withHosts ["{n}"]]).1.isOk = true := by
    cbv
  have declared : (((Route.new [.get] "/page").withName "page").withHosts
      ["{n}"]).hostTemplate? = some "{n}" := by
    cbv
  have parameters : Host.parameters "{n}" = [⟨"n", "[^/]+", .one⟩] := by cbv
  have plain : ∀ parameter ∈ Host.parameters "{n}",
      parameter.regex = Pattern.segmentRegex := by
    rw [parameters, List.forall_mem_singleton]
    rfl
  have accepted : Host.accepts "{n}" "v1" = true := by cbv
  have labels : Host.labels "{n}" = [[.placeholder ⟨"n", "[^/]+", .one⟩]] := by cbv
  have answers : Method.get ∈ answeredMethods
      (((Route.new [.get] "/page").withName "page").withHosts ["{n}"]).methods := by
    decide
  have compiled : Pattern.compile "/page" = .ok [⟨[.literal "/page"]⟩] := by cbv
  have written : (⟨[.literal "/page"]⟩ : Pattern.Variant).template = .ok "/page" := by cbv
  have fits : Fits (segments "/page") (Path.texts "/page") := by
    rw [show segments "/page" = [.static "page"] from by decide]
    exact .static (.absent (by simp))
  have apart : ¬ (((Route.new [.get] "/page").withName "page").withHosts ["{n}"]).Captures "n" := by
    rintro ⟨variants, compiledToo, variant, member, text, writtenToo, steps, expanded, captured⟩
    cases compiled.symm.trans compiledToo
    cases List.mem_singleton.mp member
    cases written.symm.trans writtenToo
    rw [show expand (segments "/page") = [[.static "page"]] from by decide,
      List.mem_singleton] at expanded
    subst expanded
    cases captured
  cases registered : register (.after [])
      [((Route.new [.get] "/page").withName "page").withHosts ["{n}"]] with
  | mk outcome memo =>
      rw [registered] at made
      cases outcome with
      | error error => cases made
      | ok set =>
          rcases register_binds_host_variables registered rfl declared plain
              (by rw [parameters]; exact List.nodup_singleton _)
              (by rw [parameters, List.forall_mem_singleton]; exact apart)
              (show '/' ∉ "v1".toList by decide) accepted answers rfl compiled
              (List.mem_singleton_self _) written fits with
            ⟨binds, -⟩
          rcases binds (by simp [Host.Whole, labels]) with
            ⟨arguments, values, answered, bound, filled⟩
          exact ⟨set, memo, arguments, values, rfl, answered, bound, filled⟩

/-- A variable that shares its label with other text is not captured: the tree takes the label for
text, which no host that the template means has. -/
theorem register_answers_no_shared_label :
    ∃ set memo,
      register (.after []) [((Route.new [.get] "/").withName "page").withHosts ["v{n}"]] =
        (.ok set, memo) ∧
      (((Route.new [.get] "/").withName "page").withHosts ["v{n}"]).hostTemplate? =
        some "v{n}" ∧
      Host.parameters "v{n}" = [⟨"n", Pattern.segmentRegex, .one⟩] ∧
      Host.accepts "v{n}" "v1" = true ∧
      (∃ variant, Pattern.compile "/" = .ok [variant] ∧ variant.template = .ok "/") ∧
      Fits (segments "/") (Path.texts "/") ∧
      set.lookup "v1" "GET" "/" = .notFound := by
  have source : Host.regexSource "v{n}" = "^v(?:[^.]+)$" := by decide +kernel
  have begins : Host.pathTemplate "v{n}" = "/v:n" := by decide +kernel
  have compiles : (Host.regex? "v{n}").isNone = false := by
    rw [Host.regex?, source]
    decide +kernel
  have accepted : Host.accepts "v{n}" "v1" = true := by
    rw [Host.accepts, Host.regex?, source]
    cbv
  have declared : (((Route.new [.get] "/").withName "page").withHosts ["v{n}"]).hostTemplate? =
      some "v{n}" := by
    cbv
  have parameters : Host.parameters "v{n}" = [⟨"n", Pattern.segmentRegex, .one⟩] := by cbv
  have compiled : Pattern.compile "/" = .ok [⟨[.literal "/"]⟩] := by cbv
  have bound : bindRoute (((Route.new [.get] "/").withName "page").withHosts ["v{n}"])
      [⟨[.literal "/"]⟩] .empty = .ok
        { DispatchSet.empty with
          parameterized := some (Tree.empty.add [.get, .head] "/v:n" "page").1
          hostPatterns := { entries := [("page", "v{n}")] } } := by
    rw [bindRoute, Route.hostTemplate?_eq_some_iff.mp declared]
    simp only [Except.mapError, Bind.bind, Except.bind, compiles, begins]
    cbv
  have known : Pattern.Memo.variants (.after []) "/" =
      (.ok [⟨[.literal "/"]⟩], (Pattern.Memo.variants (.after []) "/").2) := by
    cbv
  have made : (register (.after [])
      [((Route.new [.get] "/").withName "page").withHosts ["v{n}"]]).1 = .ok
        { DispatchSet.empty with
          parameterized := some (Tree.empty.add [.get, .head] "/v:n" "page").1
          hostPatterns := { entries := [("page", "v{n}")] } } := by
    rw [register, registerAll, if_pos (by decide), show Route.pattern _ = "/" from rfl, known]
    simp only [bound]
    cbv
  refine ⟨_, _, register_eq_of_fst made, declared, parameters, accepted, ⟨_, compiled, by cbv⟩, ?_,
    by decide +kernel⟩
  rw [show segments "/" = [] from by decide]
  exact .absent (by simp)

end Registration

end UrlRouting
