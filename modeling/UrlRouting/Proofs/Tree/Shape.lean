import Mathlib.Algebra.GroupWithZero.Nat
import UrlRouting.Proofs.Tree.Additions

/-!
The shape of routing trees. Whatever is added to an empty tree, with success or without, no place
answers a method twice, each endpoint knows the place that it stands at, no node is idle, and the
size counts what is stored. Inserting an endpoint keeps this where the place is free for the method,
and an addition does nothing but insert at such places; so it is kept by every run of additions, and
what was stored once stays as it is.
-/

namespace UrlRouting

open Template

namespace Template

theorem length_names_nameless (steps : List Step) :
    (names (nameless steps)).length = (names steps).length := by
  induction steps with
  | nil => rfl
  | cons step rest induction =>
      cases step with
      | static text => exact induction
      | capture name => exact congrArg Nat.succ induction
      | wildcard name => exact congrArg Nat.succ induction

/-- Whether a step that takes all pieces that are left is the last one. -/
def TakesRestLast : List Step → Prop
  | [] => True
  | .wildcard _ :: rest => rest = []
  | _ :: rest => TakesRestLast rest

theorem takesRestLast_of_mem_expand {template : String} {afterOptional : Bool}
    {segments : List Segment} (ordered : checkOrder template afterOptional segments = .ok ())
    {steps : List Step} (expanded : steps ∈ expand segments) : TakesRestLast steps := by
  induction segments generalizing steps afterOptional with
  | nil =>
      rw [expand, List.mem_singleton] at expanded
      subst expanded
      trivial
  | cons segment rest induction =>
      rcases checkOrder_tail ordered with ⟨afterHead, orderedRest⟩
      rcases mem_expand_cons_iff.mp expanded with ⟨-, rfl⟩ | ⟨others, inRest, rfl⟩
      · trivial
      · have later := induction orderedRest inRest
        have ended : segment.isWildcard = true → others = [] := by
          intro wildcard
          rw [eq_nil_of_checkOrder wildcard ordered, expand, List.mem_singleton] at inRest
          exact inRest
        cases segment with
        | static text => exact later
        | capture name => exact later
        | optional name => exact later
        | wildcard name => exact ended rfl
        | anyNumber name => exact ended rfl

end Template

/-- Whether an endpoint belongs to the place that a path of steps leads to: it has a name for each
step that captures, and its template is the path with these names. -/
structure Endpoint.StandsAt (path : List Step) (endpoint : Endpoint) : Prop where
  counted : endpoint.captures.length = (names path).length
  written : ∃ steps, nameless steps = path ∧ names steps = endpoint.captures ∧
    render steps = endpoint.pattern

theorem Endpoint.nodup_methods_append {endpoints : List Endpoint} {endpoint : Endpoint}
    (once : (endpoints.map Endpoint.method).Nodup)
    (free : ∀ existing ∈ endpoints, existing.method ≠ endpoint.method) :
    ((endpoints ++ [endpoint]).map Endpoint.method).Nodup := by
  rw [List.map_append, List.nodup_append]
  refine ⟨once, by simp, ?_⟩
  intro method answered other isNew
  rcases List.mem_map.mp answered with ⟨existing, member, rfl⟩
  rw [List.map_singleton, List.mem_singleton] at isNew
  exact isNew ▸ free existing member

theorem Tree.standsAt_endpoint (steps : List Step) (method : Method) (handler : String) :
    (Tree.endpoint steps method handler).StandsAt (nameless steps) where
  counted := (length_names_nameless steps).symm
  written := ⟨steps, rfl, rfl, rfl⟩

namespace Node

/-! ### Branches -/

def branches (node : Node) : List (Step × Node) :=
  node.children.map (fun child => (.static child.segment, child)) ++
    (node.captureChild.map fun child => (.capture "", child)).toList ++
    (node.wildcardChild.map fun child => (.wildcard "", child)).toList

@[simp] theorem static_mem_branches_iff {node child : Node} {text : String} :
    (.static text, child) ∈ node.branches ↔ child ∈ node.children ∧ child.segment = text := by
  simp [branches]

@[simp] theorem capture_mem_branches_iff {node child : Node} {name : String} :
    (.capture name, child) ∈ node.branches ↔ node.captureChild = some child ∧ name = "" := by
  cases captured : node.captureChild <;> cases whole : node.wildcardChild <;>
    simp [branches, captured, whole, and_comm, eq_comm]

@[simp] theorem wildcard_mem_branches_iff {node child : Node} {name : String} :
    (.wildcard name, child) ∈ node.branches ↔ node.wildcardChild = some child ∧ name = "" := by
  cases whole : node.wildcardChild <;> simp [branches, whole, and_comm, eq_comm]

theorem branches_fresh (step : Step) : (fresh step).branches = [] := by
  cases step <;> rfl

theorem mem_branches_of_next? {node child : Node} {step : Step}
    (next : node.next? step = some child) : (step.nameless, child) ∈ node.branches := by
  cases step with
  | static text =>
      have named := List.find?_some next
      exact static_mem_branches_iff.mpr ⟨List.mem_of_find?_eq_some next, by simpa using named⟩
  | capture name => exact capture_mem_branches_iff.mpr ⟨next, rfl⟩
  | wildcard name => exact wildcard_mem_branches_iff.mpr ⟨next, rfl⟩

theorem mem_changeChild {text : String} {change : Node → Node} {child : Node}
    {children : List Node} (member : child ∈ changeChild text change children) :
    child ∈ children ∨
      child = change ((children.find? (·.segment == text)).getD (leaf text)) := by
  induction children with
  | nil => exact .inr (List.mem_singleton.mp member)
  | cons first others induction =>
      rw [changeChild] at member
      split at member
      case isTrue here =>
        rcases List.mem_cons.mp member with rfl | later
        · exact .inr (by simp [here])
        · exact .inl (List.mem_cons_of_mem _ later)
      case isFalse elsewhere =>
        rcases List.mem_cons.mp member with rfl | later
        · exact .inl List.mem_cons_self
        · rcases induction later with kept | changed
          · exact .inl (List.mem_cons_of_mem _ kept)
          · exact .inr (by simpa [elsewhere] using changed)

theorem mem_changeChild_of_mem {text : String} (change : Node → Node) {child : Node}
    {children : List Node} (member : child ∈ children) :
    child ∈ changeChild text change children ∨
      child.segment = text ∧ change child ∈ changeChild text change children := by
  induction children with
  | nil => cases member
  | cons first others induction =>
      rw [changeChild]
      split
      case isTrue here =>
        rcases List.mem_cons.mp member with rfl | later
        · exact .inr ⟨by simpa using here, List.mem_cons_self⟩
        · exact .inl (List.mem_cons_of_mem _ later)
      case isFalse =>
        rcases List.mem_cons.mp member with rfl | later
        · exact .inl List.mem_cons_self
        · rcases induction later with kept | ⟨named, changed⟩
          · exact .inl (List.mem_cons_of_mem _ kept)
          · exact .inr ⟨named, List.mem_cons_of_mem _ changed⟩

theorem segments_changeChild {change : Node → Node}
    (kept : ∀ node, (change node).segment = node.segment) (text : String) (children : List Node) :
    (changeChild text change children).map segment =
      if text ∈ children.map segment then children.map segment
      else children.map segment ++ [text] := by
  induction children with
  | nil => simp [changeChild, kept, leaf]
  | cons first others induction =>
      rw [changeChild]
      split
      case isTrue here => simp_all
      case isFalse elsewhere =>
        have different : text ≠ first.segment := fun same => elsewhere (by simp [same])
        rw [List.map_cons, List.map_cons, induction]
        by_cases member : text ∈ others.map segment
        · rw [if_pos member, if_pos (List.mem_cons_of_mem _ member)]
        · rw [if_neg member, if_neg (by simpa [different] using member), List.cons_append]

variable {change : List Endpoint → List Endpoint}

theorem mem_branches_changeAt {step other : Step} {rest : List Step} {node child : Node}
    (branch : (other, child) ∈ (changeAt change (step :: rest) node).branches) :
    (other, child) ∈ node.branches ∨
      other = step.nameless ∧
        child = changeAt change rest ((node.next? step).getD (fresh step)) := by
  cases step with
  | static text =>
      cases other with
      | static text' =>
          rw [static_mem_branches_iff] at branch ⊢
          rcases branch with ⟨member, named⟩
          rcases mem_changeChild member with kept | changed
          · exact .inl ⟨kept, named⟩
          · refine .inr ⟨?_, changed⟩
            rw [changed, segment_changeAt] at named
            cases found : node.children.find? (·.segment == text) with
            | none =>
                rw [found, Option.getD_none] at named
                exact congrArg Step.static named.symm
            | some present =>
                rw [found, Option.getD_some] at named
                have same := List.find?_some found
                rw [Step.nameless, ← named, eq_of_beq same]
      | capture name => exact .inl (by simpa [changeAt] using branch)
      | wildcard name => exact .inl (by simpa [changeAt] using branch)
  | capture name =>
      cases other with
      | capture name' =>
          rw [capture_mem_branches_iff] at branch
          exact .inr ⟨congrArg Step.capture branch.2, (Option.some.inj branch.1).symm⟩
      | static text => exact .inl (by simpa [changeAt] using branch)
      | wildcard name' => exact .inl (by simpa [changeAt] using branch)
  | wildcard name =>
      cases other with
      | wildcard name' =>
          rw [wildcard_mem_branches_iff] at branch
          exact .inr ⟨congrArg Step.wildcard branch.2, (Option.some.inj branch.1).symm⟩
      | static text => exact .inl (by simpa [changeAt] using branch)
      | capture name' => exact .inl (by simpa [changeAt] using branch)

theorem mem_branches_changeAt_of_mem (step : Step) (rest : List Step) {other : Step}
    {node child : Node} (branch : (other, child) ∈ node.branches) :
    (other, child) ∈ (changeAt change (step :: rest) node).branches ∨
      (other, changeAt change rest child) ∈ (changeAt change (step :: rest) node).branches := by
  cases step with
  | static text =>
      cases other with
      | static text' =>
          rw [static_mem_branches_iff] at branch
          rcases mem_changeChild_of_mem (changeAt change rest) branch.1 with kept | ⟨-, changed⟩
          · exact .inl (static_mem_branches_iff.mpr ⟨kept, branch.2⟩)
          · exact .inr (static_mem_branches_iff.mpr ⟨changed, by rw [segment_changeAt, branch.2]⟩)
      | capture name => exact .inl (by simpa [changeAt] using branch)
      | wildcard name => exact .inl (by simpa [changeAt] using branch)
  | capture name =>
      cases other with
      | capture name' => exact .inr (by simp_all [changeAt])
      | static text => exact .inl (by simpa [changeAt] using branch)
      | wildcard name' => exact .inl (by simpa [changeAt] using branch)
  | wildcard name =>
      cases other with
      | wildcard name' => exact .inr (by simp_all [changeAt])
      | static text => exact .inl (by simpa [changeAt] using branch)
      | capture name' => exact .inl (by simpa [changeAt] using branch)

theorem endpoints_changeAt_cons (step : Step) (rest : List Step) (node : Node) :
    (changeAt change (step :: rest) node).endpoints = node.endpoints := by
  cases step <;> rfl

/-! ### Nodes below a node -/

/-- Whether a path of steps, names aside, leads from a node to another. All nodes below a node are
reached so, of siblings with the same text not only the first. -/
inductive Leads : Node → List Step → Node → Prop
  | here (node : Node) : Leads node [] node
  | next {node child below : Node} {step : Step} {rest : List Step}
      (branch : (step, child) ∈ node.branches) (later : Leads child rest below) :
      Leads node (step :: rest) below

theorem exists_leads_of_mem_endpointsAt {node : Node} {steps : List Step} {endpoint : Endpoint}
    (member : endpoint ∈ node.endpointsAt steps) :
    ∃ below, node.Leads (nameless steps) below ∧ endpoint ∈ below.endpoints := by
  induction steps generalizing node with
  | nil => exact ⟨node, .here node, member⟩
  | cons step rest induction =>
      rw [endpointsAt_cons] at member
      cases next : node.next? step with
      | none => simp [next] at member
      | some child =>
          rw [next, Option.map_some, Option.getD_some] at member
          rcases induction member with ⟨below, leads, stored⟩
          exact ⟨below, .next (mem_branches_of_next? next) leads, stored⟩

/-- A change that adds endpoints takes nothing away: every node is still reached, and begins with the
endpoints that it had. -/
theorem exists_leads_changeAt (adds : ∀ endpoints, endpoints <+: change endpoints)
    {node below : Node} {path : List Step} (leads : node.Leads path below) (steps : List Step) :
    ∃ later, (changeAt change steps node).Leads path later ∧
      below.endpoints <+: later.endpoints := by
  induction leads generalizing steps with
  | here node =>
      refine ⟨_, .here _, ?_⟩
      cases steps with
      | nil => exact adds _
      | cons step rest =>
          exact ⟨[], by rw [endpoints_changeAt_cons, List.append_nil]⟩
  | @next node child below step rest branch later induction =>
      cases steps with
      | nil => exact ⟨below, .next branch later, List.prefix_rfl⟩
      | cons first others =>
          rcases mem_branches_changeAt_of_mem first others branch with kept | changed
          · exact ⟨below, .next kept later, List.prefix_rfl⟩
          · rcases induction others with ⟨last, leads, begins⟩
            exact ⟨last, .next changed leads, begins⟩

/-! ### Sound nodes -/

/-- Whether a node is as a node at the end of a path should be: it answers each method once, its
children have different texts, its endpoints belong there, and nothing is below the child that takes
all pieces that are left. -/
structure Sound (path : List Step) (node : Node) : Prop where
  once : (node.endpoints.map Endpoint.method).Nodup
  distinct : (node.children.map segment).Nodup
  placed : ∀ endpoint ∈ node.endpoints, endpoint.StandsAt path
  last : ∀ child, node.wildcardChild = some child → child.branches = []

/-- Whether a node serves a purpose: one without children holds an endpoint. -/
def Used (node : Node) : Prop :=
  node.branches = [] → node.endpoints ≠ []

/-- Whether all nodes from one at the end of a path on are sound, and those below it used. -/
def SoundFrom (path : List Step) (node : Node) : Prop :=
  ∀ steps below, node.Leads steps below →
    below.Sound (path ++ steps) ∧ (steps ≠ [] → below.Used)

theorem soundFrom_iff {path : List Step} {node : Node} :
    node.SoundFrom path ↔
      node.Sound path ∧ ∀ step child, (step, child) ∈ node.branches →
        child.Used ∧ child.SoundFrom (path ++ [step]) := by
  constructor
  · intro sound
    refine ⟨by simpa using (sound [] node (.here node)).1, fun step child branch => ⟨?_, ?_⟩⟩
    · exact (sound [step] child (.next branch (.here child))).2 (by simp)
    · intro steps below leads
      have whole := sound (step :: steps) below (.next branch leads)
      exact ⟨by simpa using whole.1, fun _ => whole.2 (by simp)⟩
  · intro given steps below leads
    cases leads with
    | here => exact ⟨by simpa using given.1, fun nonempty => absurd rfl nonempty⟩
    | next branch later =>
        rcases given.2 _ _ branch with ⟨used, sound⟩
        have whole := sound _ _ later
        refine ⟨by simpa using whole.1, fun _ => ?_⟩
        cases later with
        | here => exact used
        | next => exact whole.2 (by simp)

theorem soundFrom_fresh (path : List Step) (step : Step) : (fresh step).SoundFrom path := by
  refine soundFrom_iff.mpr ⟨?_, by simp [branches_fresh]⟩
  cases step <;> exact ⟨List.nodup_nil, List.nodup_nil, by simp [fresh, leaf], by simp [fresh, leaf]⟩

theorem used_insert (endpoint : Endpoint) (steps : List Step) (node : Node) :
    (insert endpoint steps node).Used := by
  intro childless
  cases steps with
  | nil => simp [insert, changeAt]
  | cons step rest =>
      have next : (insert endpoint (step :: rest) node).next? step =
          some (insert endpoint rest ((node.next? step).getD (fresh step))) := by
        rw [insert, next?_changeAt, if_pos rfl]
      have branch := mem_branches_of_next? next
      rw [childless] at branch
      cases branch

/-- An endpoint that is inserted where it belongs, the method being free there, leaves the nodes
sound. -/
theorem SoundFrom.insert {path steps : List Step} {node : Node} {endpoint : Endpoint}
    (sound : node.SoundFrom path) (ends : TakesRestLast steps)
    (stands : endpoint.StandsAt (path ++ nameless steps))
    (free : ∀ existing ∈ node.endpointsAt steps, existing.method ≠ endpoint.method) :
    (Node.insert endpoint steps node).SoundFrom path := by
  induction steps generalizing path node with
  | nil =>
      rw [soundFrom_iff] at sound ⊢
      refine ⟨⟨Endpoint.nodup_methods_append sound.1.once free, sound.1.distinct, ?_,
        sound.1.last⟩, sound.2⟩
      intro other member
      rcases List.mem_append.mp member with existing | new
      · exact sound.1.placed other existing
      · rw [List.mem_singleton.mp new]
        simpa [nameless] using stands
  | cons step rest induction =>
      -- What the step leads to is sound, be it there already or made on the way.
      have below : ((node.next? step).getD (fresh step)).SoundFrom (path ++ [step.nameless]) := by
        cases next : node.next? step with
        | none => exact soundFrom_fresh _ step
        | some child => exact ((soundFrom_iff.mp sound).2 _ child (mem_branches_of_next? next)).2
      have freeBelow : ∀ existing ∈ ((node.next? step).getD (fresh step)).endpointsAt rest,
          existing.method ≠ endpoint.method := by
        intro existing member
        apply free existing
        rw [endpointsAt_cons]
        cases next : node.next? step with
        | none => simp [next] at member
        | some child => simpa [next] using member
      have endsBelow : TakesRestLast rest := by
        cases step with
        | wildcard name =>
            rw [show rest = [] from ends]
            trivial
        | static text => exact ends
        | capture name => exact ends
      have inserted := induction below endsBelow
        (by simpa [nameless, List.append_assoc] using stands) freeBelow
      rw [soundFrom_iff] at sound ⊢
      refine ⟨⟨?_, ?_, ?_, ?_⟩, ?_⟩
      · rw [Node.insert, endpoints_changeAt_cons]
        exact sound.1.once
      · cases step with
        | static text =>
            rw [Node.insert, changeAt, segments_changeChild (segment_changeAt _ rest)]
            split
            case isTrue => exact sound.1.distinct
            case isFalse absent =>
              rw [List.nodup_append]
              refine ⟨sound.1.distinct, by simp, ?_⟩
              intro other present last isNew
              rw [List.mem_singleton.mp isNew]
              exact ne_of_mem_of_not_mem present absent
        | capture name => exact sound.1.distinct
        | wildcard name => exact sound.1.distinct
      · rw [Node.insert, endpoints_changeAt_cons]
        exact sound.1.placed
      · intro child isLast
        cases step with
        | static text => exact sound.1.last child isLast
        | capture name => exact sound.1.last child isLast
        | wildcard name =>
            rw [show rest = [] from ends] at isLast
            cases Option.some.inj isLast
            cases present : node.wildcardChild with
            | none => rfl
            | some before => exact sound.1.last before present
      · intro other child branch
        rcases mem_branches_changeAt branch with kept | ⟨rfl, rfl⟩
        · exact sound.2 other child kept
        · exact ⟨used_insert _ _ _, inserted⟩

/-! ### Counting endpoints -/

mutual

def endpointCount : Node → Nat
  | ⟨_, endpoints, children, captureChild, wildcardChild⟩ =>
      endpoints.length + childrenCount children + childCount captureChild +
        childCount wildcardChild

def childrenCount : List Node → Nat
  | [] => 0
  | child :: others => child.endpointCount + childrenCount others

def childCount : Option Node → Nat
  | none => 0
  | some child => child.endpointCount

end

theorem endpointCount_eq (node : Node) :
    node.endpointCount = node.endpoints.length + childrenCount node.children +
      childCount node.captureChild + childCount node.wildcardChild := by
  cases node
  rw [endpointCount]

theorem endpointCount_leaf (segment : String) : (leaf segment).endpointCount = 0 := by
  simp [leaf, endpointCount, childrenCount, childCount]

theorem childrenCount_changeChild {text : String} {change : Node → Node}
    (counts : ∀ node, (change node).endpointCount = node.endpointCount + 1)
    (children : List Node) :
    childrenCount (changeChild text change children) = childrenCount children + 1 := by
  induction children with
  | nil => simp [changeChild, childrenCount, counts, endpointCount_leaf]
  | cons first others induction =>
      rw [changeChild]
      split
      case isTrue =>
        rw [childrenCount, childrenCount, counts]
        omega
      case isFalse =>
        rw [childrenCount, childrenCount, induction]
        omega

theorem endpointCount_insert (endpoint : Endpoint) (steps : List Step) (node : Node) :
    (insert endpoint steps node).endpointCount = node.endpointCount + 1 := by
  induction steps generalizing node with
  | nil =>
      rw [endpointCount_eq, endpointCount_eq node]
      simp only [insert, changeAt, List.length_append, List.length_singleton]
      omega
  | cons step rest induction =>
      have child : ∀ (present : Option Node) (segment : String),
          (insert endpoint rest (present.getD (leaf segment))).endpointCount =
            childCount present + 1 := by
        intro present segment
        cases present with
        | none => rw [induction, Option.getD_none, endpointCount_leaf, childCount]
        | some other => rw [induction, Option.getD_some, childCount]
      rw [insert] at induction child ⊢
      rw [endpointCount_eq, endpointCount_eq node]
      cases step with
      | static text =>
          simp only [changeAt, childrenCount_changeChild induction]
          omega
      | capture name =>
          simp only [changeAt, childCount, child]
          omega
      | wildcard name =>
          simp only [changeAt, childCount, child]
          omega

end Node

/-! ### Trees that grow -/

namespace Tree

/-- A tree with some templates added in turn, whatever of them could be bound. -/
def addEach (tree : Tree) (additions : List Addition) : Tree :=
  additions.foldl
    (fun tree addition => (tree.add addition.methods addition.template addition.handler).1) tree

/-- Whether a tree comes from another by insertions at places that are free for the method. -/
inductive Grows (tree : Tree) : Tree → Prop
  | refl : Grows tree tree
  | insert {next : Tree} (grown : Grows tree next) {steps : List Step} {method : Method}
      (handler : String) (ends : TakesRestLast steps) (free : next.bound? steps method = none) :
      Grows tree (next.insert steps (endpoint steps method handler))

theorem Grows.trans {first second third : Tree} (grown : first.Grows second)
    (more : second.Grows third) : first.Grows third := by
  induction more with
  | refl => exact grown
  | insert _ handler ends free induction => exact .insert induction handler ends free

theorem grows_bind {tree next : Tree} {steps : List Step} {method : Method} {handler : String}
    (ends : TakesRestLast steps) (bound : tree.bind steps method handler = .ok next) :
    tree.Grows next := by
  rw [bind_eq] at bound
  split at bound
  case h_1 free =>
    cases bound
    exact .insert .refl handler ends free
  case h_2 =>
    split at bound
    · cases bound
      exact .refl
    · cases bound

theorem grows_bindAll (tree : Tree) (handler : String) {places : List (List Step × Method)}
    (ends : ∀ place ∈ places, TakesRestLast place.1) :
    tree.Grows (tree.bindAll handler places).1 := by
  induction places generalizing tree with
  | nil => exact .refl
  | cons place rest induction =>
      rw [List.forall_mem_cons] at ends
      rw [bindAll]
      split
      case h_1 next bound => exact (grows_bind ends.1 bound).trans (induction next ends.2)
      case h_2 => exact .refl

theorem grows_add (tree : Tree) (methods : List Method) (template handler : String) :
    tree.Grows (tree.add methods template handler).1 := by
  rw [add]
  split
  case isTrue => exact .refl
  case isFalse =>
    cases order : checkOrder template false (segments template) with
    | error error =>
        simp only [parse, order, Bind.bind, Except.bind]
        exact .refl
    | ok =>
        simp only [parse, order, Bind.bind, Except.bind, pure, Except.pure]
        apply grows_bindAll
        intro place member
        rcases List.mem_flatMap.mp member with ⟨steps, expanded, inPlaces⟩
        rcases List.mem_map.mp inPlaces with ⟨method, -, rfl⟩
        exact takesRestLast_of_mem_expand order expanded

theorem grows_addEach (tree : Tree) (additions : List Addition) :
    tree.Grows (tree.addEach additions) := by
  induction additions generalizing tree with
  | nil => exact .refl
  | cons addition rest induction =>
      exact (grows_add tree addition.methods addition.template addition.handler).trans
        (induction _)

/-- Whether the endpoints that the flat table has for a pattern are as they should be: at least one,
each method answered once, nothing captured, and the pattern their own. -/
structure FlatSound (pattern : String) (endpoints : List Endpoint) : Prop where
  stored : endpoints ≠ []
  once : (endpoints.map Endpoint.method).Nodup
  plain : ∀ endpoint ∈ endpoints, endpoint.captures = [] ∧ endpoint.pattern = pattern

/-- Whether a tree is as trees should be: its size counts the endpoints of both halves, and either
half is sound. -/
structure Wellformed (tree : Tree) : Prop where
  counted : tree.size = tree.root.endpointCount + (tree.static.values.map List.length).sum
  flat : ∀ pattern endpoints, tree.static.get? pattern = some endpoints →
    FlatSound pattern endpoints
  nodes : tree.root.SoundFrom []

/-- Whether a tree has all that another one has where that has it: in both halves the endpoints of
a place begin with those that it had. -/
structure Keeps (next tree : Tree) : Prop where
  flat : ∀ pattern endpoints, tree.static.get? pattern = some endpoints →
    ∃ more, next.static.get? pattern = some more ∧ endpoints <+: more
  nodes : ∀ steps node, tree.root.Leads steps node →
    ∃ later, next.root.Leads steps later ∧ node.endpoints <+: later.endpoints

theorem wellformed_empty : empty.Wellformed where
  counted := (Node.endpointCount_leaf "").symm
  flat := by simp [empty]
  nodes := Node.soundFrom_fresh [] (.static "")

theorem sum_values_set {α : Type u} (table : Table α) (name : String) (value : α)
    (weight : α → Nat) :
    ((table.set name value).values.map weight).sum + ((table.get? name).map weight).getD 0 =
      (table.values.map weight).sum + weight value := by
  simp only [Table.values, Table.set, Table.get?]
  induction table.entries with
  | nil => simp [Table.setEntry]
  | cons entry others induction =>
      rcases entry with ⟨first, kept⟩
      rw [Table.setEntry, Table.lookup_cons_eq]
      by_cases same : first = name
      · rw [if_pos same, if_pos same.symm]
        simp only [List.map_cons, List.sum_cons, Option.map_some, Option.getD_some]
        omega
      · rw [if_neg same, if_neg (Ne.symm same)]
        simp only [List.map_cons, List.sum_cons]
        omega

theorem flatSound_append {steps : List Step} {before : Option (List Endpoint)} {method : Method}
    {handler : String} (plain : names steps = [])
    (free : ∀ existing ∈ before.getD [], existing.method ≠ method)
    (sound : ∀ endpoints, before = some endpoints → FlatSound (render steps) endpoints) :
    FlatSound (render steps) (before.getD [] ++ [endpoint steps method handler]) := by
  have new : (endpoint steps method handler).captures = [] ∧
      (endpoint steps method handler).pattern = render steps := ⟨plain, rfl⟩
  cases before with
  | none => exact ⟨by simp, by simp, by simpa using new⟩
  | some endpoints =>
      rcases sound endpoints rfl with ⟨-, once, each⟩
      refine ⟨by simp, Endpoint.nodup_methods_append once free, ?_⟩
      intro other member
      rcases List.mem_append.mp member with existing | isNew
      · exact each other existing
      · rw [List.mem_singleton.mp isNew]
        exact new

theorem Wellformed.insert {tree : Tree} (wellformed : tree.Wellformed) {steps : List Step}
    {method : Method} (handler : String) (ends : TakesRestLast steps)
    (free : tree.bound? steps method = none) :
    (tree.insert steps (endpoint steps method handler)).Wellformed := by
  have others : ∀ existing ∈ tree.endpointsAt steps, existing.method ≠ method := by
    intro existing member
    simpa using List.find?_eq_none.mp free existing member
  rw [endpointsAt] at others
  rw [insert_eq]
  split
  case isTrue plain =>
    rw [if_pos plain] at others
    refine ⟨?_, ?_, wellformed.nodes⟩
    · have total := sum_values_set tree.static (render steps)
        ((tree.static.get? (render steps)).getD [] ++ [endpoint steps method handler]) List.length
      have counted := wellformed.counted
      cases present : tree.static.get? (render steps) <;> simp_all <;> omega
    · intro pattern endpoints stored
      rw [Table.get?_set] at stored
      split at stored
      case isFalse => exact wellformed.flat pattern endpoints stored
      case isTrue here =>
        cases stored
        subst here
        exact flatSound_append (List.isEmpty_iff.mp plain) others
          fun before present => wellformed.flat _ before present
  case isFalse capturing =>
    rw [if_neg capturing] at others
    refine ⟨?_, wellformed.flat, ?_⟩
    · have counted := wellformed.counted
      simp only [Node.endpointCount_insert]
      omega
    · exact wellformed.nodes.insert ends (standsAt_endpoint steps method handler) others

theorem keeps_insert (tree : Tree) (steps : List Step) (endpoint : Endpoint) :
    (tree.insert steps endpoint).Keeps tree := by
  rw [insert_eq]
  split
  case isTrue =>
    refine ⟨?_, fun steps node leads => ⟨node, leads, List.prefix_rfl⟩⟩
    intro pattern endpoints stored
    simp only [Table.get?_set]
    split
    case isTrue here =>
      refine ⟨_, rfl, ?_⟩
      rw [← here, stored, Option.getD_some]
      exact List.prefix_append _ _
    case isFalse => exact ⟨endpoints, stored, List.prefix_rfl⟩
  case isFalse =>
    refine ⟨fun pattern endpoints stored => ⟨endpoints, stored, List.prefix_rfl⟩, ?_⟩
    intro path node leads
    exact Node.exists_leads_changeAt (fun _ => List.prefix_append _ _) leads steps

theorem Keeps.refl (tree : Tree) : tree.Keeps tree where
  flat := fun _ endpoints stored => ⟨endpoints, stored, List.prefix_rfl⟩
  nodes := fun _ node leads => ⟨node, leads, List.prefix_rfl⟩

theorem Keeps.trans {first second third : Tree} (later : third.Keeps second)
    (earlier : second.Keeps first) : third.Keeps first := by
  constructor
  · intro pattern endpoints stored
    rcases earlier.flat pattern endpoints stored with ⟨more, kept, begins⟩
    rcases later.flat pattern more kept with ⟨most, still, beginsMore⟩
    exact ⟨most, still, begins.trans beginsMore⟩
  · intro steps node leads
    rcases earlier.nodes steps node leads with ⟨next, kept, begins⟩
    rcases later.nodes steps next kept with ⟨last, still, beginsMore⟩
    exact ⟨last, still, begins.trans beginsMore⟩

theorem Grows.keeps {tree next : Tree} (grown : tree.Grows next) : next.Keeps tree := by
  induction grown with
  | refl => exact .refl tree
  | insert _ handler ends free induction => exact (keeps_insert _ _ _).trans induction

theorem Grows.wellformed {tree next : Tree} (grown : tree.Grows next)
    (wellformed : tree.Wellformed) : next.Wellformed := by
  induction grown with
  | refl => exact wellformed
  | insert _ handler ends free induction => exact induction.insert handler ends free

theorem Grows.divided {tree next : Tree} (grown : tree.Grows next) (divided : tree.Divided) :
    next.Divided := by
  induction grown with
  | refl => exact divided
  | insert _ handler ends free induction => exact divided_insert induction _ _

/-! ### Captures and names -/

theorem length_captured (path : String) {pieces : List Path.Piece} {steps : List Step}
    (fits : steps ∈ fitting (pieces.map Path.Piece.text)) :
    (captured path steps pieces).length = (names steps).length := by
  induction pieces generalizing steps with
  | nil =>
      rw [List.map_nil, fitting, List.mem_singleton] at fits
      subst fits
      rfl
  | cons piece rest induction =>
      simp only [List.map_cons, fitting, List.mem_append, List.mem_map, List.mem_singleton]
        at fits
      rcases fits with (⟨steps, later, rfl⟩ | ⟨steps, later, rfl⟩) | rfl
      · exact induction later
      · exact congrArg Nat.succ (induction later)
      · rfl

theorem Wellformed.length_captures {tree : Tree} (wellformed : tree.Wellformed)
    {steps : List Step} {endpoint : Endpoint} (member : endpoint ∈ tree.endpointsAt steps) :
    endpoint.captures.length = (names steps).length := by
  rw [endpointsAt] at member
  split at member
  case isTrue plain =>
    rw [List.isEmpty_iff.mp plain]
    cases present : tree.static.get? (render steps) with
    | none => simp [present] at member
    | some endpoints =>
        rw [present, Option.getD_some] at member
        rw [((wellformed.flat _ endpoints present).plain endpoint member).1]
  case isFalse =>
    rcases Node.exists_leads_of_mem_endpointsAt member with ⟨node, leads, stored⟩
    have placed := (wellformed.nodes _ node leads).1.placed endpoint stored
    rw [placed.counted, List.nil_append, length_names_nameless]

theorem Wellformed.paired {tree : Tree} (wellformed : tree.Wellformed) (divided : tree.Divided)
    {path : String} {candidate : Candidate} (member : candidate ∈ tree.candidates path)
    {endpoint : Endpoint} (stored : endpoint ∈ candidate.endpoints) :
    endpoint.captures.length = candidate.values.length := by
  rw [candidates_eq divided, List.mem_flatMap] at member
  rcases member with ⟨steps, fits, inPlace⟩
  rcases Candidate.mem_ofEndpoints.mp inPlace with ⟨-, rfl⟩
  rw [wellformed.length_captures stored, length_captured]
  rwa [Path.texts_pieces]

/-- Whatever is added to an empty tree, with success or without, leaves a well-formed tree in which
a lookup pairs every capture with a name; and what is added later takes nothing away from it. -/
theorem wellformed_addEach (earlier later : List Addition) :
    (empty.addEach earlier).Wellformed ∧
      (∀ path, ∀ candidate ∈ (empty.addEach earlier).candidates path,
        ∀ endpoint ∈ candidate.endpoints,
          endpoint.captures.length = candidate.values.length) ∧
      ((empty.addEach earlier).addEach later).Keeps (empty.addEach earlier) := by
  have grown := grows_addEach empty earlier
  have wellformed := grown.wellformed wellformed_empty
  refine ⟨wellformed, ?_, (grows_addEach _ later).keeps⟩
  intro path candidate member endpoint stored
  exact wellformed.paired (grown.divided divided_empty) member stored

end Tree

end UrlRouting
