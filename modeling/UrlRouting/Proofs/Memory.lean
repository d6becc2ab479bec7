import UrlRouting.Proofs.Generator.Choice
import UrlRouting.Proofs.Registration.Faults

/-!
The memory of compiled patterns, which a matcher and a generator share. Every use of it asks for
some patterns, and what it leaves behind is what compiling them gives, also where the use fails half
way. So after any uses the memory holds each pattern asked for that can be compiled, once, and no use
comes to anything else than it would with an empty memory.
-/

namespace UrlRouting

/-! ### Registering -/

theorem Route.compiles_of_check {route : Route} (dispatchable : route.dispatchable = true)
    (passed : route.check = .ok ()) : Pattern.compiles route.pattern = true := by
  cases compiled : Pattern.compile route.pattern with
  | error error => cases passed.symm.trans (Route.check_of_compile_error dispatchable compiled)
  | ok variants => exact Pattern.compiles_iff.mpr ⟨variants, compiled⟩

namespace Registration

open Pattern (Memo)

variable {memo : Memo} {asked : List String}

/-- The patterns that a registration asks for: those of the routes that are dispatched, up to the
first route that is at fault. -/
def patternsAsked : List Route → List String
  | [] => []
  | route :: routes =>
      if route.dispatchable then
        route.pattern ::
          match route.check with
          | .error _ => []
          | .ok _ => patternsAsked routes
      else patternsAsked routes

theorem holds_registerAll (holds : memo.Holds asked) (set : DispatchSet) (routes : List Route) :
    (registerAll set memo routes).2.Holds (asked ++ patternsAsked routes) := by
  induction routes generalizing memo asked set with
  | nil => rwa [patternsAsked, List.append_nil]
  | cons route rest induction =>
      rw [registerAll, patternsAsked]
      by_cases dispatchable : route.dispatchable = true
      · rw [if_pos dispatchable, if_pos dispatchable, List.append_cons]
        have next := holds.variants route.pattern
        have compiled := holds.faithful.variants_eq route.pattern
        cases known : memo.variants route.pattern with
        | mk found left =>
            rw [known] at next compiled
            cases found with
            | error error =>
                rw [Route.check_of_compile_error dispatchable compiled.symm, List.append_nil]
                exact next
            | ok variants =>
                -- Whether the route passes does not depend on what is bound already.
                rw [Route.check_of_compile dispatchable compiled.symm set]
                dsimp only
                cases bindRoute route variants set with
                | error error =>
                    rw [outcome_error, List.append_nil]
                    exact next
                | ok middle => exact induction next _
      · rw [if_neg dispatchable, if_neg dispatchable]
        exact induction holds set

theorem patternsAsked_of_check {routes : List Route}
    (passed : ∀ route ∈ routes, route.check = .ok ()) :
    patternsAsked routes = (routes.filter Route.dispatchable).map Route.pattern ∧
      ∀ pattern ∈ patternsAsked routes, Pattern.compiles pattern = true := by
  induction routes with
  | nil => exact ⟨rfl, by simp [patternsAsked]⟩
  | cons route rest induction =>
      rw [List.forall_mem_cons] at passed
      have later := induction passed.2
      rw [patternsAsked, List.filter_cons, passed.1]
      by_cases dispatchable : route.dispatchable = true
      · rw [if_pos dispatchable, if_pos dispatchable, List.map_cons, ← later.1]
        exact ⟨rfl, List.forall_mem_cons.mpr
          ⟨Route.compiles_of_check dispatchable passed.1, later.2⟩⟩
      · rw [if_neg dispatchable, if_neg dispatchable]
        exact later

theorem names_perm_of_registered {routes : List Route} {set : DispatchSet}
    (registered : (register .empty routes).1 = .ok set) :
    (register .empty routes).2.compiled.names.Perm
      ((routes.filter Route.dispatchable).map Route.pattern).dedup := by
  have passed := (exists_registerAll_iff Pattern.Memo.faithful_empty).mp ⟨set, registered⟩
  rcases patternsAsked_of_check passed with ⟨all, compile⟩
  have held := (holds_registerAll Pattern.Memo.holds_empty .empty routes).names_perm
  rwa [List.nil_append, List.filter_eq_self.mpr compile, all] at held

end Registration

/-! ### Any uses -/

namespace Generator

/-- What is remembered of patterns makes no difference to a URL. -/
theorem generate_congr {memo other : Pattern.Memo} (faithful : memo.Faithful)
    (otherFaithful : other.Faithful) (generator : Generator) (current : Option CurrentRoute)
    (route : String) (parts : UrlParts) :
    (generator.generate ⟨memo, current⟩ route parts).1 =
      (generator.generate ⟨other, current⟩ route parts).1 := by
  rw [generate, generate]
  cases generator.registry.route route with
  | error error => rfl
  | ok declared =>
      simp only [faithful.variants_eq, otherFaithful.variants_eq]
      cases Pattern.compile declared.pattern <;> rfl

end Generator

namespace Pattern.Memo

/-- A use of a memory: a pattern is asked for, routes are registered, or a URL is generated. -/
inductive Use
  | ask (pattern : String)
  | register (routes : List Route)
  | generate (generator : Generator) (current : Option CurrentRoute) (route : String)
      (parts : UrlParts)

namespace Use

def leave (memo : Memo) : Use → Memo
  | ask pattern => (memo.variants pattern).2
  | register routes => (Registration.register memo routes).2
  | generate generator current route parts =>
      (generator.generate ⟨memo, current⟩ route parts).2.memo

def patterns : Use → List String
  | ask pattern => [pattern]
  | register routes => Registration.patternsAsked routes
  | generate generator _ route _ =>
      match generator.registry.route route with
      | .error _ => []
      | .ok declared => [declared.pattern]

end Use

variable {memo : Memo} {asked : List String}

theorem Holds.leave (holds : memo.Holds asked) (use : Use) :
    (use.leave memo).Holds (asked ++ use.patterns) := by
  cases use with
  | ask pattern => exact holds.variants pattern
  | register routes => exact Registration.holds_registerAll holds .empty routes
  | generate generator current route parts =>
      rw [Use.leave, Use.patterns, Generator.generate]
      cases generator.registry.route route with
      | error error => rwa [List.append_nil]
      | ok declared =>
          have next := holds.variants declared.pattern
          dsimp only
          cases (memo.variants declared.pattern).1 <;> exact next

theorem Holds.leaveAll (holds : memo.Holds asked) (uses : List Use) :
    (uses.foldl Use.leave memo).Holds (asked ++ uses.flatMap Use.patterns) := by
  induction uses generalizing memo asked with
  | nil => rwa [List.flatMap_nil, List.append_nil]
  | cons use rest induction =>
      have later := induction (holds.leave use)
      rwa [List.append_assoc] at later

/-- What is remembered of patterns cannot be seen. After any uses of a memory, in any order and also
with some that failed, each pattern comes to what compiling it gives; one that cannot be compiled is
not held, and asking for it changes nothing; and the memory holds the patterns asked for that can be
compiled, each once. So the registration of any routes and the generation of a URL come to what they
come to with an empty memory. A registration without fault, with an empty memory, leaves just the
patterns of the routes that are dispatched. -/
theorem memory_is_unobservable (uses : List Use) :
    let memo := uses.foldl Use.leave empty
    let compiled := (uses.flatMap Use.patterns).filter compiles
    (∀ pattern, (memo.variants pattern).1 = compile pattern) ∧
    (∀ pattern error, compile pattern = .error error →
      memo.compiled.get? pattern = none ∧ (memo.variants pattern).2 = memo) ∧
    memo.compiled.names.Perm compiled.dedup ∧ memo.size = compiled.dedup.length ∧
    (∀ routes,
      (Registration.register memo routes).1 = (Registration.register empty routes).1) ∧
    (∀ (generator : Generator) current route parts,
      (generator.generate ⟨memo, current⟩ route parts).1 =
        (generator.generate ⟨empty, current⟩ route parts).1) ∧
    ∀ routes set, (Registration.register empty routes).1 = .ok set →
      (Registration.register empty routes).2.compiled.names.Perm
        ((routes.filter Route.dispatchable).map Route.pattern).dedup := by
  intro memo compiled
  have holds : memo.Holds (uses.flatMap Use.patterns) := holds_empty.leaveAll uses
  have faithful := holds.faithful
  refine ⟨faithful.variants_eq, ?_, holds.names_perm, holds.size_eq, ?_, ?_, ?_⟩
  · intro pattern error failed
    rcases faithful.variants_of_error failed with ⟨unknown, unchanged⟩
    exact ⟨unknown, congrArg Prod.snd unchanged⟩
  · exact Registration.registerAll_congr faithful faithful_empty .empty
  · exact Generator.generate_congr faithful faithful_empty
  · intro routes set
    exact Registration.names_perm_of_registered

theorem memory_is_unobservable_site :
    let memo := [Use.ask "/site[", .register [Route.new [.get] "/site", Route.new [.get] "/site["],
      .ask "/site"].foldl Use.leave empty
    (compile "/site[" = .error (.unmatchedBrackets "/site[") ∧
      memo.compiled.get? "/site[" = none) ∧ memo.size = 1 ∧
    ∃ set, (Registration.register empty [Route.new [.get] "/site",
        (Route.new [.get] "/site").withName "again"]).1 = .ok set ∧
      (Registration.register empty [Route.new [.get] "/site",
        (Route.new [.get] "/site").withName "again"]).2.compiled.names.Perm ["/site"] := by
  rcases memory_is_unobservable [Use.ask "/site[",
    .register [Route.new [.get] "/site", Route.new [.get] "/site["], .ask "/site"] with
    ⟨-, fails, -, size, -, -, leaves⟩
  have failed : compile "/site[" = .error (.unmatchedBrackets "/site[") := by cbv
  have made : (Registration.register empty [Route.new [.get] "/site",
      (Route.new [.get] "/site").withName "again"]).1 = .ok
        { DispatchSet.empty with
          anyHost := some (Tree.empty.add [.get, .head] "/site" "GET /site").1 } := by
    cbv
  refine ⟨⟨failed, (fails _ _ failed).1⟩, size.trans ?_, _, made, leaves _ _ made⟩
  cbv

end Pattern.Memo

end UrlRouting
