import UrlRouting.Proofs.Registration.Bindings

/-!
When registration fails. A place that is taken already is no fault, and what else can be wrong with
a route shows in its own pattern, hosts and templates. So whether a route can be registered, and with
what error not, does not depend on what is registered before it or remembered of patterns; a
registration is the check of its routes one after the other.
-/

namespace UrlRouting

variable {α β ε : Type}

/-- What a result comes to, but for its value. -/
def outcome (result : Except ε α) : Except ε Unit :=
  result.map fun _ => ()

@[simp] theorem outcome_ok (value : α) : outcome (.ok value : Except ε α) = .ok () := rfl

@[simp] theorem outcome_error (error : ε) :
    outcome (.error error : Except ε α) = .error error := rfl

theorem outcome_eq_ok_iff {result : Except ε α} :
    outcome result = .ok () ↔ ∃ value, result = .ok value := by
  cases result <;> simp

theorem outcome_eq_error_iff {result : Except ε α} {error : ε} :
    outcome result = .error error ↔ result = .error error := by
  cases result <;> simp

theorem outcome_bind_congr {first : Except ε α} {second : Except ε β} {α' β' : Type}
    {next : α → Except ε α'} {nextToo : β → Except ε β'} (same : outcome first = outcome second)
    (later : ∀ value other, first = .ok value → second = .ok other →
      outcome (next value) = outcome (nextToo other)) :
    outcome (first >>= next) = outcome (second >>= nextToo) := by
  cases first with
  | error error =>
      cases second with
      | error other =>
          cases same
          rfl
      | ok other => cases same
  | ok value =>
      cases second with
      | error error => cases same
      | ok other => exact later value other rfl rfl

namespace Tree

theorem isInvalidPath_of_bindAll {tree : Tree} {handler : String}
    {places : List (List Template.Step × Method)} {error : TreeError}
    (refused : (tree.bindAll handler places).2 = .error error) : error.isInvalidPath = false := by
  induction places generalizing tree with
  | nil => cases refused
  | cons place rest induction =>
      rw [bindAll] at refused
      split at refused
      case h_1 => exact induction refused
      case h_2 reason taken =>
        cases refused
        rw [bind_eq] at taken
        split at taken
        case h_1 => cases taken
        case h_2 =>
          split at taken
          case isTrue => cases taken
          case isFalse =>
            cases taken
            rfl

end Tree

namespace Registration

open Template (parse)

theorem outcome_bindTemplate (route template : String) (tree : Tree) (methods : List Method) :
    outcome (bindTemplate route template tree methods) =
      if methods = [] then .ok () else (outcome (parse template)).mapError .tree := by
  induction methods generalizing tree with
  | nil => rfl
  | cons method rest induction =>
      rw [if_neg (by simp), bindTemplate]
      cases read : parse template with
      | error reason =>
          have refused : tree.add [method] template route = (tree, .error reason) := by
            simp [Tree.add, read]
          simp [refused, Template.isInvalidPath_of_parse read, Except.mapError]
      | ok segments =>
          have passed : ∀ next, outcome (bindTemplate route template next rest) = .ok () := by
            intro next
            rw [induction, read]
            split <;> rfl
          have added : tree.add [method] template route =
              tree.bindAll route (Tree.places [method] segments) := by
            simp [Tree.add, read]
          rw [added]
          split
          case h_1 => exact passed _
          case h_2 reason refused =>
            have taken := Tree.isInvalidPath_of_bindAll (congrArg Prod.snd refused)
            rw [if_neg (by simp [taken])]
            exact passed _

theorem outcome_bindVariants (route beginning : String) (methods : List Method)
    (variants : List Pattern.Variant) (first second : Tree) :
    outcome (bindVariants route beginning methods first variants) =
      outcome (bindVariants route beginning methods second variants) := by
  induction variants generalizing first second with
  | nil => rfl
  | cons variant rest induction =>
      rw [bindVariants, bindVariants]
      apply outcome_bind_congr rfl
      intro template other read readToo
      cases read.symm.trans readToo
      apply outcome_bind_congr
      · rw [outcome_bindTemplate, outcome_bindTemplate]
      · intro tree otherTree _ _
        exact induction tree otherTree

theorem outcome_bindHosts (route : String) (methods : List Method)
    (variants : List Pattern.Variant) (hosts : List String) (first second : DispatchSet) :
    outcome (bindHosts route methods variants first hosts) =
      outcome (bindHosts route methods variants second hosts) := by
  induction hosts generalizing first second with
  | nil => rfl
  | cons host rest induction =>
      rw [bindHosts, bindHosts]
      apply outcome_bind_congr (outcome_bindVariants ..)
      intro tree otherTree _ _
      exact induction _ _

theorem outcome_bindRoute (route : Route) (variants : List Pattern.Variant)
    (first second : DispatchSet) :
    outcome (bindRoute route variants first) = outcome (bindRoute route variants second) := by
  rw [bindRoute, bindRoute]
  apply outcome_bind_congr rfl
  intro binding other read readToo
  cases read.symm.trans readToo
  cases binding with
  | any => exact outcome_bind_congr (outcome_bindVariants ..) fun _ _ _ _ => rfl
  | exact hosts => exact outcome_bindHosts ..
  | parameterized host =>
      dsimp only
      split
      case isTrue => rfl
      case isFalse => exact outcome_bind_congr (outcome_bindVariants ..) fun _ _ _ _ => rfl

end Registration

def Route.check (route : Route) : Except RoutingError Unit :=
  if route.dispatchable then do
    let variants ← (Pattern.compile route.pattern).mapError .config
    outcome (Registration.bindRoute route variants .empty)
  else .ok ()

theorem Route.check_of_compile_error {route : Route} (dispatchable : route.dispatchable = true)
    {error : ConfigError} (failed : Pattern.compile route.pattern = .error error) :
    route.check = .error (.config error) := by
  rw [Route.check, if_pos dispatchable, failed]
  rfl

theorem Route.check_of_compile {route : Route} (dispatchable : route.dispatchable = true)
    {variants : List Pattern.Variant} (compiled : Pattern.compile route.pattern = .ok variants)
    (set : DispatchSet) : route.check = outcome (Registration.bindRoute route variants set) := by
  rw [Route.check, if_pos dispatchable, compiled]
  exact Registration.outcome_bindRoute route variants .empty set

namespace Registration

variable {memo other : Pattern.Memo} {routes : List Route}

/-- A registration fails with the fault of the first route that has one. -/
theorem outcome_registerAll (faithful : memo.Faithful) (set : DispatchSet)
    (routes : List Route) :
    outcome (registerAll set memo routes).1 = forM routes Route.check := by
  induction routes generalizing set memo with
  | nil => rfl
  | cons route rest induction =>
      rw [List.forM_cons, registerAll]
      by_cases dispatchable : route.dispatchable = true
      · have compiled := faithful.variants_eq route.pattern
        have stillFaithful := faithful.variants route.pattern
        rw [if_pos dispatchable]
        cases known : memo.variants route.pattern with
        | mk asked next =>
            rw [known] at compiled stillFaithful
            cases asked with
            | error error =>
                rw [Route.check_of_compile_error dispatchable compiled.symm]
                rfl
            | ok variants =>
                rw [Route.check_of_compile dispatchable compiled.symm set]
                dsimp only
                cases bindRoute route variants set with
                | error error => rfl
                | ok middle => exact induction stillFaithful _
      · rw [if_neg dispatchable, Route.check, if_neg dispatchable]
        exact induction faithful set

theorem forM_check_eq_ok_iff :
    forM routes Route.check = .ok () ↔ ∀ route ∈ routes, route.check = .ok () := by
  induction routes with
  | nil => simp [pure, Except.pure]
  | cons route rest induction =>
      rw [List.forM_cons, List.forall_mem_cons, ← induction]
      cases route.check <;> simp [Bind.bind, Except.bind]

theorem exists_registerAll_iff (faithful : memo.Faithful) {set : DispatchSet} :
    (∃ next, (registerAll set memo routes).1 = .ok next) ↔
      ∀ route ∈ routes, route.check = .ok () := by
  rw [← outcome_eq_ok_iff, outcome_registerAll faithful, forM_check_eq_ok_iff]

/-- What is remembered of patterns makes no difference to what is registered. -/
theorem registerAll_congr (faithful : memo.Faithful) (otherFaithful : other.Faithful)
    (set : DispatchSet) (routes : List Route) :
    (registerAll set memo routes).1 = (registerAll set other routes).1 := by
  induction routes generalizing set memo other with
  | nil => rfl
  | cons route rest induction =>
      rw [registerAll, registerAll]
      split
      case isFalse => exact induction faithful otherFaithful set
      case isTrue =>
        have compiled := (faithful.variants_eq route.pattern).trans
          (otherFaithful.variants_eq route.pattern).symm
        have stillFaithful := faithful.variants route.pattern
        have otherStill := otherFaithful.variants route.pattern
        cases known : memo.variants route.pattern with
        | mk asked next =>
            cases knownToo : other.variants route.pattern with
            | mk askedToo nextToo =>
                rw [known, knownToo] at compiled
                rw [known] at stillFaithful
                rw [knownToo] at otherStill
                cases compiled
                cases asked with
                | error error => rfl
                | ok variants =>
                    dsimp only
                    cases bindRoute route variants set with
                    | error error => rfl
                    | ok middle => exact induction stillFaithful otherStill _

theorem faithful_registerAll (faithful : memo.Faithful) (set : DispatchSet) (routes : List Route) :
    (registerAll set memo routes).2.Faithful := by
  induction routes generalizing set memo with
  | nil => exact faithful
  | cons route rest induction =>
      rw [registerAll]
      split
      case isFalse => exact induction faithful set
      case isTrue =>
        have stillFaithful := faithful.variants route.pattern
        cases known : memo.variants route.pattern with
        | mk asked next =>
            rw [known] at stillFaithful
            cases asked with
            | error error => exact stillFaithful
            | ok variants =>
                dsimp only
                cases bindRoute route variants set with
                | error error => exact stillFaithful
                | ok middle => exact induction stillFaithful _

theorem exists_register_filter (faithful : memo.Faithful) {set : DispatchSet}
    (registered : (register memo routes).1 = .ok set) (keep : Route → Bool) :
    ∃ next, ∀ asked : Pattern.Memo, asked.Faithful →
      (register asked (routes.filter keep)).1 = .ok next := by
  have checked := (exists_registerAll_iff faithful).mp ⟨set, registered⟩
  rcases (@exists_registerAll_iff memo (routes.filter keep) faithful .empty).mpr
    fun route member => checked route (List.mem_filter.mp member).1 with ⟨next, made⟩
  exact ⟨next, fun asked askedFaithful => (registerAll_congr askedFaithful faithful _ _).trans made⟩

/-! ### The fault of a route alone -/

theorem forM_eq_error_iff {check : α → Except ε Unit} {values : List α} {error : ε} :
    forM values check = .error error ↔
      ∃ before value after, values = before ++ value :: after ∧ check value = .error error ∧
        ∀ earlier ∈ before, check earlier = .ok () := by
  induction values with
  | nil => simp [pure, Except.pure]
  | cons first rest induction =>
      rw [List.forM_cons]
      cases checked : check first with
      | error reason =>
          constructor
          · intro failed
            cases failed
            exact ⟨[], first, rest, rfl, checked, by simp⟩
          · rintro ⟨before, value, after, split, fails, passed⟩
            cases before with
            | nil =>
                cases split
                exact checked.symm.trans fails
            | cons head before =>
                cases split
                cases checked.symm.trans (passed first List.mem_cons_self)
      | ok =>
          have next : ((.ok () : Except ε Unit) >>= fun _ => forM rest check) = forM rest check :=
            rfl
          rw [next, induction]
          constructor
          · rintro ⟨before, value, after, rfl, fails, passed⟩
            exact ⟨first :: before, value, after, rfl, fails,
              List.forall_mem_cons.mpr ⟨checked, passed⟩⟩
          · rintro ⟨before, value, after, split, fails, passed⟩
            cases before with
            | nil =>
                cases split
                cases checked.symm.trans fails
            | cons head before =>
                cases split
                exact ⟨before, value, after, rfl, fails, (List.forall_mem_cons.mp passed).2⟩

theorem outcome_register_singleton (faithful : memo.Faithful) (route : Route) :
    outcome (register memo [route]).1 = route.check := by
  rw [register, outcome_registerAll faithful, List.forM_cons, List.forM_nil, bind_pure]

theorem check_eq_ok_iff (faithful : memo.Faithful) {route : Route} :
    route.check = .ok () ↔
      (route.dispatchable = true → ∃ set, (register memo [route]).1 = .ok set) := by
  rw [← outcome_eq_ok_iff, outcome_register_singleton faithful]
  constructor
  · exact fun passed _ => passed
  · intro alone
    by_cases dispatchable : route.dispatchable = true
    · exact alone dispatchable
    · rw [Route.check, if_neg dispatchable]

theorem check_eq_error_iff (faithful : memo.Faithful) {route : Route} {error : RoutingError} :
    route.check = .error error ↔
      route.dispatchable = true ∧ (register memo [route]).1 = .error error := by
  rw [← @outcome_eq_error_iff _ _ (register memo [route]).1, outcome_register_singleton faithful]
  constructor
  · intro failed
    refine ⟨?_, failed⟩
    by_contra notDispatchable
    rw [Route.check, if_neg notDispatchable] at failed
    cases failed
  · exact And.right

theorem forM_check_filter (routes : List Route) :
    forM (routes.filter Route.dispatchable) Route.check = forM routes Route.check := by
  induction routes with
  | nil => rfl
  | cons route rest induction =>
      rw [List.filter_cons, List.forM_cons]
      by_cases dispatchable : route.dispatchable = true
      · rw [if_pos dispatchable, List.forM_cons, induction]
      · rw [if_neg dispatchable, induction, Route.check, if_neg dispatchable]
        rfl

/-- A registration succeeds just if each route that is dispatched can be registered alone, and if
it fails it fails as the first of them does that cannot. So neither the order of the routes nor
those that are not dispatched make a fault or hide one. -/
theorem register_fails_as_first (earlier others : List String) (routes : List Route) :
    ((∃ set, (register (.after earlier) routes).1 = .ok set) ↔
      ∀ route ∈ routes, route.dispatchable = true →
        ∃ set, (register (.after others) [route]).1 = .ok set) ∧
    (∀ error, (register (.after earlier) routes).1 = .error error ↔
      ∃ before route after, routes = before ++ route :: after ∧
        (route.dispatchable = true ∧ (register (.after others) [route]).1 = .error error) ∧
        ∀ passing ∈ before, passing.dispatchable = true →
          ∃ set, (register (.after others) [passing]).1 = .ok set) ∧
    (∀ reordered : List Route, routes.Perm reordered →
      ((∃ set, (register (.after earlier) routes).1 = .ok set) ↔
        ∃ set, (register (.after earlier) reordered).1 = .ok set)) ∧
    outcome (register (.after earlier) (routes.filter Route.dispatchable)).1 =
      outcome (register (.after earlier) routes).1 := by
  have faithful := Pattern.Memo.faithful_after earlier
  have faithfulAlone := Pattern.Memo.faithful_after others
  have succeeds : ∀ routes : List Route, (∃ set, (register (.after earlier) routes).1 = .ok set) ↔
      ∀ route ∈ routes, route.check = .ok () := fun routes => exists_registerAll_iff faithful
  refine ⟨?_, ?_, ?_, ?_⟩
  · rw [succeeds]
    exact forall₂_congr fun route _ => check_eq_ok_iff faithfulAlone
  · intro error
    rw [← outcome_eq_error_iff, register, outcome_registerAll faithful, forM_eq_error_iff]
    simp only [check_eq_ok_iff faithfulAlone, check_eq_error_iff faithfulAlone]
  · intro reordered reorders
    rw [succeeds, succeeds]
    exact forall_congr' fun route => by rw [reorders.mem_iff]
  · rw [register, register, outcome_registerAll faithful, outcome_registerAll faithful,
      forM_check_filter]

end Registration

end UrlRouting
