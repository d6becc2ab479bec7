import Mathlib.Data.List.Perm.Subperm
import UrlRouting.Proofs.Dispatch

/-!
Dispatch sets that differ in the order of their tables only. A name stands for the same in both, so
both give the same answers; only the order of the arguments in an answer may differ.
-/

namespace UrlRouting

section

variable {α : Type} {relates : α → α → Prop} {first second third : Option α}

theorem rel_refl (reflexive : ∀ value, relates value value) (value : Option α) :
    Option.Rel relates value value := by
  cases value with
  | none => exact .none
  | some value => exact .some (reflexive value)

theorem rel_symm (symmetric : ∀ left right, relates left right → relates right left)
    (alike : Option.Rel relates first second) : Option.Rel relates second first := by
  cases alike with
  | none => exact .none
  | some related => exact .some (symmetric _ _ related)

theorem rel_trans (transitive : ∀ left middle right, relates left middle →
      relates middle right → relates left right)
    (alike : Option.Rel relates first second) (later : Option.Rel relates second third) :
    Option.Rel relates first third := by
  cases alike with
  | none =>
      cases later
      exact .none
  | some related =>
      cases later with
      | some others => exact .some (transitive _ _ _ related others)

theorem rel_eq_iff : Option.Rel Eq first second ↔ first = second := by
  constructor
  · intro alike
    cases alike with
    | none => rfl
    | some equal => rw [equal]
  · rintro rfl
    exact rel_refl (fun _ => rfl) first

end

namespace Table

variable {α : Type} {relates : α → α → Prop} {left right : Table α}

def Alike (relates : α → α → Prop) (left right : Table α) : Prop :=
  ∀ name, Option.Rel relates (left.get? name) (right.get? name)

theorem Alike.get?_eq (alike : left.Alike Eq right) (name : String) :
    left.get? name = right.get? name :=
  rel_eq_iff.mp (alike name)

theorem alike_of_perm (reflexive : ∀ value, relates value value)
    (reordered : left.entries.Perm right.entries) : left.Alike relates right := by
  intro name
  have same : left.get? name = right.get? name := by
    apply Option.ext
    intro value
    rw [← mem_entries_iff, ← mem_entries_iff]
    exact reordered.mem_iff
  rw [same]
  exact rel_refl reflexive _

theorem Alike.symm (symmetric : ∀ first second, relates first second → relates second first)
    (alike : left.Alike relates right) : right.Alike relates left :=
  fun name => rel_symm symmetric (alike name)

theorem Alike.trans {last : Table α}
    (transitive : ∀ first second third, relates first second → relates second third →
      relates first third)
    (alike : left.Alike relates right) (later : right.Alike relates last) :
    left.Alike relates last :=
  fun name => rel_trans transitive (alike name) (later name)

theorem Alike.exists_mem (alike : left.Alike relates right) {entry : String × α}
    (member : entry ∈ left.entries) :
    ∃ value, (entry.1, value) ∈ right.entries ∧ relates entry.2 value := by
  have known := mem_entries_iff.mp (show (entry.1, entry.2) ∈ left.entries from member)
  have same := alike entry.1
  rw [known] at same
  generalize found : right.get? entry.1 = second at same
  cases same with
  | some related => exact ⟨_, mem_entries_iff.mpr found, related⟩

theorem Alike.size_le (alike : left.Alike relates right) : left.size ≤ right.size := by
  have subset : left.names ⊆ right.names := by
    intro name member
    rcases List.mem_map.mp member with ⟨entry, inLeft, rfl⟩
    rcases alike.exists_mem inLeft with ⟨value, inRight, -⟩
    exact List.mem_map.mpr ⟨_, inRight, rfl⟩
  have shorter := (List.subperm_of_subset left.nodup_names subset).length_le
  rwa [names, names, List.length_map, List.length_map] at shorter

end Table

namespace Tree

/-- Whether two trees differ in the order of their flat tables only. -/
structure Alike (left right : Tree) : Prop where
  root : left.root = right.root
  static : left.static.Alike Eq right.static
  size : left.size = right.size

variable {left right : Tree}

theorem Alike.refl (tree : Tree) : tree.Alike tree where
  root := rfl
  static := Table.alike_of_perm (fun _ => rfl) (.refl _)
  size := rfl

theorem Alike.symm (alike : left.Alike right) : right.Alike left where
  root := alike.root.symm
  static := alike.static.symm fun _ _ => Eq.symm
  size := alike.size.symm

theorem Alike.trans {last : Tree} (alike : left.Alike right) (later : right.Alike last) :
    left.Alike last where
  root := alike.root.trans later.root
  static := alike.static.trans (fun _ _ _ => Eq.trans) later.static
  size := alike.size.trans later.size

theorem Alike.lookup_eq (alike : left.Alike right) (method path : String) :
    left.lookup method path = right.lookup method path := by
  have candidates : left.candidates path = right.candidates path := by
    rw [Tree.candidates, Tree.candidates, alike.root, alike.static.get?_eq]
  rw [lookup, lookup, candidates]

end Tree

inductive MatchResult.Alike : MatchResult → MatchResult → Prop
  | success {route : String} {left right : Table String} :
      left.Alike Eq right → Alike (.success route left) (.success route right)
  | methodNotAllowed {allowed : List Method} :
      Alike (.methodNotAllowed allowed) (.methodNotAllowed allowed)
  | notFound : Alike .notFound .notFound

namespace MatchResult

theorem Alike.symm {left right : MatchResult} (alike : left.Alike right) : right.Alike left := by
  cases alike with
  | success same => exact .success (same.symm fun _ _ => Eq.symm)
  | methodNotAllowed => exact .methodNotAllowed
  | notFound => exact .notFound

theorem Alike.trans {left middle right : MatchResult} (alike : left.Alike middle)
    (later : middle.Alike right) : left.Alike right := by
  cases alike with
  | success same =>
      cases later with
      | success others => exact .success (same.trans (fun _ _ _ => Eq.trans) others)
  | methodNotAllowed => exact later
  | notFound => exact later

end MatchResult

namespace DispatchSet

/-- Whether two sets differ in the order of their tables only. -/
structure Alike (left right : DispatchSet) : Prop where
  hosts : left.hosts.Alike Tree.Alike right.hosts
  parameterized : Option.Rel Tree.Alike left.parameterized right.parameterized
  anyHost : Option.Rel Tree.Alike left.anyHost right.anyHost
  hostPatterns : left.hostPatterns.Alike Eq right.hostPatterns
  defaults : left.defaults.Alike (Table.Alike Eq) right.defaults

variable {left right : DispatchSet}

theorem alike_of_perm (hosts : left.hosts.entries.Perm right.hosts.entries)
    (parameterized : left.parameterized = right.parameterized)
    (anyHost : left.anyHost = right.anyHost)
    (hostPatterns : left.hostPatterns.entries.Perm right.hostPatterns.entries)
    (defaults : left.defaults.entries.Perm right.defaults.entries) : left.Alike right where
  hosts := Table.alike_of_perm Tree.Alike.refl hosts
  parameterized := parameterized ▸ rel_refl Tree.Alike.refl _
  anyHost := anyHost ▸ rel_refl Tree.Alike.refl _
  hostPatterns := Table.alike_of_perm (fun _ => rfl) hostPatterns
  defaults := Table.alike_of_perm (fun _ => Table.alike_of_perm (fun _ => rfl) (.refl _)) defaults

theorem Alike.refl (set : DispatchSet) : set.Alike set :=
  alike_of_perm (.refl _) rfl rfl (.refl _) (.refl _)

theorem Alike.symm (alike : left.Alike right) : right.Alike left where
  hosts := alike.hosts.symm fun _ _ => Tree.Alike.symm
  parameterized := rel_symm (fun _ _ => Tree.Alike.symm) alike.parameterized
  anyHost := rel_symm (fun _ _ => Tree.Alike.symm) alike.anyHost
  hostPatterns := alike.hostPatterns.symm fun _ _ => Eq.symm
  defaults := alike.defaults.symm fun _ _ => Table.Alike.symm fun _ _ => Eq.symm

theorem Alike.trans {last : DispatchSet} (alike : left.Alike right) (later : right.Alike last) :
    left.Alike last where
  hosts := alike.hosts.trans (fun _ _ _ => Tree.Alike.trans) later.hosts
  parameterized :=
    rel_trans (fun _ _ _ => Tree.Alike.trans) alike.parameterized later.parameterized
  anyHost := rel_trans (fun _ _ _ => Tree.Alike.trans) alike.anyHost later.anyHost
  hostPatterns := alike.hostPatterns.trans (fun _ _ _ => Eq.trans) later.hostPatterns
  defaults :=
    alike.defaults.trans (fun _ _ _ => Table.Alike.trans fun _ _ _ => Eq.trans) later.defaults

theorem lookupTree_eq {left right : Option Tree} (alike : Option.Rel Tree.Alike left right)
    (method path : String) : lookupTree left method path = lookupTree right method path := by
  cases alike with
  | none => rfl
  | some same => exact same.lookup_eq method path

theorem Alike.hostAccepted_eq (alike : left.Alike right) (route host : String) :
    left.hostAccepted route host = right.hostAccepted route host := by
  rw [hostAccepted, hostAccepted, alike.hostPatterns.get?_eq]

theorem Alike.success (alike : left.Alike right) (route : String) (captured : Table String) :
    (left.success route captured).Alike (right.success route captured) := by
  have same := alike.defaults route
  rw [DispatchSet.success, DispatchSet.success]
  apply MatchResult.Alike.success
  intro name
  rw [rel_eq_iff, Table.get?_setAll, Table.get?_setAll]
  congr 1
  generalize left.defaults.get? route = first at same ⊢
  generalize right.defaults.get? route = second at same ⊢
  cases same with
  | none => rfl
  | some same => exact same.get?_eq name

theorem Alike.anyHostAnswer (alike : left.Alike right) (method path : String)
    (earlier : List Method) :
    (left.anyHostAnswer method path earlier).Alike (right.anyHostAnswer method path earlier) := by
  rw [DispatchSet.anyHostAnswer, DispatchSet.anyHostAnswer,
    lookupTree_eq alike.anyHost method path]
  cases lookupTree right.anyHost method path with
  | found endpoint captured => exact alike.success endpoint.handler captured
  | methodNotAllowed more => exact .methodNotAllowed
  | notFound =>
      simp only
      split
      case isTrue => exact .notFound
      case isFalse => exact .methodNotAllowed

theorem Alike.lookup (alike : left.Alike right) (host method path : String) :
    (left.lookup host method path).Alike (right.lookup host method path) := by
  have same : left.lookupExact host method path = right.lookupExact host method path := by
    rw [lookupExact_eq, lookupExact_eq]
    exact lookupTree_eq (alike.hosts host) method path
  cases answer : right.lookupExact host method path with
  | found endpoint captured =>
      rw [answer] at same
      rw [DispatchSet.lookup, DispatchSet.lookup, same, answer]
      exact alike.success endpoint.handler captured
  | methodNotAllowed allowed =>
      rw [answer] at same
      rw [DispatchSet.lookup, DispatchSet.lookup, same, answer]
      exact .methodNotAllowed
  | notFound =>
      rw [answer] at same
      rw [lookup_of_unknown same, lookup_of_unknown answer,
        lookupTree_eq alike.parameterized method (Host.foldedPath host path)]
      cases lookupTree right.parameterized method (Host.foldedPath host path) with
      | found endpoint captured =>
          simp only [alike.hostAccepted_eq]
          split
          case isTrue => exact alike.success endpoint.handler captured
          case isFalse => exact alike.anyHostAnswer method path []
      | methodNotAllowed earlier => exact alike.anyHostAnswer method path earlier
      | notFound => exact alike.anyHostAnswer method path []

end DispatchSet

end UrlRouting
