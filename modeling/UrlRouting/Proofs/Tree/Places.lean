import UrlRouting.Tree.Basic
import UrlRouting.Proofs.Table
import UrlRouting.Proofs.Template

/-!
What a routing tree holds, seen as a map from places and methods to endpoints. A place is a step
sequence up to capture names. Inserting an endpoint changes one place and no other, in either half
of the tree, and binding a handler at some places binds the longest beginning of them that no other
handler has.
-/

namespace UrlRouting

open Template

/-! ### Nodes -/

namespace Node

def fresh : Step → Node
  | .static text => leaf text
  | .capture _ => leaf ":"
  | .wildcard _ => leaf "*"

@[simp] theorem endpointsAt_leaf (segment : String) (steps : List Step) :
    (leaf segment).endpointsAt steps = [] := by
  cases steps with
  | nil => rfl
  | cons step rest => cases step <;> rfl

@[simp] theorem endpointsAt_fresh (step : Step) (steps : List Step) :
    (fresh step).endpointsAt steps = [] := by
  cases step <;> exact endpointsAt_leaf _ steps

theorem endpointsAt_cons (node : Node) (step : Step) (rest : List Step) :
    node.endpointsAt (step :: rest) =
      ((node.next? step).map fun child => child.endpointsAt rest).getD [] := by
  rw [endpointsAt]
  cases node.next? step <;> rfl

theorem segment_changeAt (change : List Endpoint → List Endpoint) (steps : List Step)
    (node : Node) : (changeAt change steps node).segment = node.segment := by
  cases steps with
  | nil => rfl
  | cons step rest => cases step <;> rfl

theorem find?_changeChild {change : Node → Node}
    (kept : ∀ node, (change node).segment = node.segment) (text other : String)
    (children : List Node) :
    (changeChild text change children).find? (·.segment == other) =
      if other = text then
        some (change ((children.find? (·.segment == text)).getD (leaf text)))
      else children.find? (·.segment == other) := by
  induction children with
  | nil =>
      by_cases equal : other = text
      · simp [changeChild, kept, leaf, equal]
      · simp [changeChild, kept, leaf, equal, Ne.symm equal]
  | cons child others induction =>
      rw [changeChild]
      by_cases here : child.segment = text
      · by_cases equal : other = text
        · simp [kept, here, equal]
        · simp [kept, here, equal, Ne.symm equal]
      · by_cases equal : other = text
        · subst equal
          simp [here, induction]
        · by_cases found : child.segment = other <;> simp [here, found, induction, equal]

theorem endpointsAt_congr (node : Node) {left right : List Step}
    (same : nameless left = nameless right) : node.endpointsAt left = node.endpointsAt right := by
  induction left generalizing node right with
  | nil =>
      cases right with
      | nil => rfl
      | cons step rest => simp [nameless] at same
  | cons step rest induction =>
      cases right with
      | nil => simp [nameless] at same
      | cons first others =>
          rcases List.cons_eq_cons.mp same with ⟨here, below⟩
          have child : node.next? step = node.next? first := by
            cases step <;> cases first <;> simp [Step.nameless] at here <;> simp [next?, here]
          rw [endpointsAt_cons, endpointsAt_cons, child]
          cases node.next? first with
          | none => rfl
          | some child => exact induction child below

theorem next?_changeAt (change : List Endpoint → List Endpoint) (step : Step) (rest : List Step)
    (node : Node) (other : Step) :
    (changeAt change (step :: rest) node).next? other =
      if other.nameless = step.nameless then
        some (changeAt change rest ((node.next? step).getD (fresh step)))
      else node.next? other := by
  cases step with
  | static text =>
      cases other with
      | static text' =>
          have changed := find?_changeChild (segment_changeAt change rest) text text' node.children
          simpa [changeAt, next?, child?, Step.nameless, fresh] using changed
      | capture => simp [changeAt, next?, Step.nameless]
      | wildcard => simp [changeAt, next?, Step.nameless]
  | capture => cases other <;> simp [changeAt, next?, child?, Step.nameless, fresh]
  | wildcard => cases other <;> simp [changeAt, next?, child?, Step.nameless, fresh]

theorem endpointsAt_changeAt (change : List Endpoint → List Endpoint) (steps : List Step)
    (node : Node) (other : List Step) :
    (changeAt change steps node).endpointsAt other =
      if nameless other = nameless steps then change (node.endpointsAt other)
      else node.endpointsAt other := by
  induction steps generalizing node other with
  | nil =>
      cases other with
      | nil => simp [changeAt, endpointsAt]
      | cons step rest => cases step <;> rfl
  | cons step rest induction =>
      cases other with
      | nil => cases step <;> rfl
      | cons first others =>
          have same : nameless (first :: others) = nameless (step :: rest) ↔
              first.nameless = step.nameless ∧ nameless others = nameless rest := by
            simp [nameless]
          rw [endpointsAt_cons, endpointsAt_cons, next?_changeAt]
          by_cases here : first.nameless = step.nameless
          · have child : node.next? first = node.next? step := by
              cases first <;> cases step <;> simp [Step.nameless] at here <;> simp [next?, here]
            rw [if_pos here, child, Option.map_some, Option.getD_some, induction]
            by_cases below : nameless others = nameless rest
            · rw [if_pos below, if_pos (same.mpr ⟨here, below⟩)]
              cases node.next? step <;> simp
            · rw [if_neg below, if_neg fun both => below (same.mp both).2]
              cases node.next? step <;> simp
          · rw [if_neg here, if_neg fun both => here (same.mp both).1]

theorem changeChild_changeChild {first second : Node → Node}
    (kept : ∀ node, (first node).segment = node.segment) (text : String) (children : List Node) :
    changeChild text second (changeChild text first children) =
      changeChild text (second ∘ first) children := by
  induction children with
  | nil => simp [changeChild, kept, leaf]
  | cons child others induction =>
      by_cases here : child.segment = text <;> simp [changeChild, kept, here, induction]

theorem changeAt_changeAt (first second : List Endpoint → List Endpoint) (steps : List Step)
    (node : Node) :
    changeAt second steps (changeAt first steps node) = changeAt (second ∘ first) steps node := by
  induction steps generalizing node with
  | nil => rfl
  | cons step rest induction =>
      cases step with
      | static text =>
          rw [changeAt, changeAt, changeAt, changeChild_changeChild (segment_changeAt first rest),
            show changeAt second rest ∘ changeAt first rest = changeAt (second ∘ first) rest from
              funext induction]
      | capture name => simp only [changeAt, Option.getD_some, induction]
      | wildcard name => simp only [changeAt, Option.getD_some, induction]

theorem changeChild_eq_self {change : Node → Node} {text : String} {children : List Node}
    {child : Node} (found : children.find? (·.segment == text) = some child)
    (same : change child = child) : changeChild text change children = children := by
  induction children with
  | nil => cases found
  | cons first others induction =>
      rw [changeChild]
      by_cases here : first.segment = text
      · rw [List.find?_cons_of_pos (by simpa using here)] at found
        rw [if_pos (by simpa using here), Option.some.inj found, same]
      · rw [List.find?_cons_of_neg (by simpa using here)] at found
        rw [if_neg (by simpa using here), induction found]

/-- Where something is stored, all nodes on the way are there. -/
theorem changeAt_id_eq_self {steps : List Step} {node : Node}
    (stored : node.endpointsAt steps ≠ []) : changeAt id steps node = node := by
  induction steps generalizing node with
  | nil => cases node; rfl
  | cons step rest induction =>
      rw [endpointsAt_cons] at stored
      cases next : node.next? step with
      | none => simp [next] at stored
      | some child =>
          rw [next, Option.map_some, Option.getD_some] at stored
          have same := induction stored
          cases node
          cases step with
          | static text => rw [changeAt, changeChild_eq_self next same]
          | capture name =>
              cases next
              rw [changeAt, Option.getD_some, same]
          | wildcard name =>
              cases next
              rw [changeAt, Option.getD_some, same]

end Node

/-! ### Trees -/

namespace Tree

def bound? (tree : Tree) (steps : List Step) (method : Method) : Option Endpoint :=
  Endpoint.find? (tree.endpointsAt steps) method

theorem endpointsAt_congr (tree : Tree) {left right : List Step}
    (same : nameless left = nameless right) : tree.endpointsAt left = tree.endpointsAt right := by
  by_cases static : names left = []
  · have rightStatic := (names_eq_nil_congr same).mp static
    rw [nameless_of_names_eq_nil static, nameless_of_names_eq_nil rightStatic] at same
    rw [same]
  · have rightCapturing : names right ≠ [] := fun rightStatic =>
      static ((names_eq_nil_congr same).mpr rightStatic)
    simp [endpointsAt, static, rightCapturing, Node.endpointsAt_congr tree.root same]

theorem bound?_congr (tree : Tree) {left right : List Step}
    (same : nameless left = nameless right) (method : Method) :
    tree.bound? left method = tree.bound? right method := by
  rw [bound?, bound?, tree.endpointsAt_congr same]

/-- Whether the nodes hold no place without captures, which is what the flat table is for. -/
def Divided (tree : Tree) : Prop :=
  ∀ steps, names steps = [] → tree.root.endpointsAt steps = []

theorem divided_empty : empty.Divided :=
  fun steps _ => Node.endpointsAt_leaf "" steps

@[simp] theorem endpointsAt_empty (steps : List Step) : empty.endpointsAt steps = [] := by
  rw [endpointsAt]
  split
  · rfl
  · exact Node.endpointsAt_leaf "" steps

@[simp] theorem bound?_empty (steps : List Step) (method : Method) :
    empty.bound? steps method = none := by
  simp [bound?, Endpoint.find?]

theorem endpointsAt_changeAt (tree : Tree) (change : List Endpoint → List Endpoint)
    {steps other : List Step} (proper : Proper steps) (properOther : Proper other) :
    (tree.changeAt change steps).endpointsAt other =
      if nameless other = nameless steps then change (tree.endpointsAt other)
      else tree.endpointsAt other := by
  by_cases static : names steps = []
  · by_cases otherStatic : names other = []
    · have same : nameless other = nameless steps ↔ render other = render steps := by
        rw [nameless_of_names_eq_nil static, nameless_of_names_eq_nil otherStatic]
        exact ⟨congrArg render, eq_of_render_eq otherStatic static properOther proper⟩
      by_cases equal : render other = render steps
      · simp [endpointsAt, changeAt, static, otherStatic, same, equal, Table.get?_set_self]
      · simp [endpointsAt, changeAt, static, otherStatic, same, equal, Table.get?_set_of_ne]
    · have different : nameless other ≠ nameless steps := fun same =>
        otherStatic ((names_eq_nil_congr same).mpr static)
      simp [endpointsAt, changeAt, static, otherStatic, different]
  · by_cases otherStatic : names other = []
    · have different : nameless other ≠ nameless steps := fun same =>
        static ((names_eq_nil_congr same).mp otherStatic)
      simp [endpointsAt, changeAt, static, otherStatic, different]
    · simp [endpointsAt, changeAt, static, otherStatic, Node.endpointsAt_changeAt]

/-! ### Insertions -/

theorem insert_eq (tree : Tree) (steps : List Step) (endpoint : Endpoint) :
    tree.insert steps endpoint =
      if (names steps).isEmpty then
        { tree with
          static := tree.static.set (render steps)
            ((tree.static.get? (render steps)).getD [] ++ [endpoint])
          size := tree.size + 1 }
      else
        { tree with root := tree.root.insert endpoint steps, size := tree.size + 1 } := by
  rw [insert, changeAt]
  split <;> rfl

theorem divided_insert {tree : Tree} (divided : tree.Divided) (steps : List Step)
    (endpoint : Endpoint) : (tree.insert steps endpoint).Divided := by
  intro other static
  rw [insert_eq]
  split
  case isTrue => exact divided other static
  case isFalse capturing =>
    have different : nameless other ≠ nameless steps := fun same =>
      capturing (by simpa using (names_eq_nil_congr same).mp static)
    rw [Node.insert, Node.endpointsAt_changeAt, if_neg different]
    exact divided other static

theorem endpointsAt_insert (tree : Tree) {steps other : List Step} (proper : Proper steps)
    (properOther : Proper other) (endpoint : Endpoint) :
    (tree.insert steps endpoint).endpointsAt other =
      if nameless other = nameless steps then tree.endpointsAt other ++ [endpoint]
      else tree.endpointsAt other :=
  endpointsAt_changeAt tree (· ++ [endpoint]) proper properOther

theorem bound?_insert (tree : Tree) {steps other : List Step} (proper : Proper steps)
    (properOther : Proper other) (endpoint : Endpoint) (method : Method) :
    (tree.insert steps endpoint).bound? other method =
      (tree.bound? other method).or
        (if nameless other = nameless steps ∧ endpoint.method = method then some endpoint
         else none) := by
  rw [bound?, endpointsAt_insert tree proper properOther]
  by_cases same : nameless other = nameless steps
  · by_cases answers : endpoint.method = method
    · simp [bound?, Endpoint.find?, same, answers]
    · simp [bound?, Endpoint.find?, same, answers]
  · simp [bound?, same]

/-- Whether a place is free for a method or has the given handler already. -/
def isOpen (tree : Tree) (handler : String) (place : List Step × Method) : Bool :=
  (tree.bound? place.1 place.2).all (·.handler == handler)

def isAt (steps : List Step) (method : Method) (place : List Step × Method) : Bool :=
  nameless steps == nameless place.1 && place.2 == method

theorem endpointsAt_made (tree : Tree) (steps : List Step) :
    (tree.changeAt id steps).endpointsAt steps = tree.endpointsAt steps := by
  by_cases static : names steps = []
  · simp [endpointsAt, changeAt, static, Table.get?_set_self]
  · simp [endpointsAt, changeAt, static, Node.endpointsAt_changeAt]

theorem made_eq_self {tree : Tree} {steps : List Step} (stored : tree.endpointsAt steps ≠ []) :
    tree.changeAt id steps = tree := by
  rw [endpointsAt] at stored
  rw [changeAt]
  split
  case isTrue static =>
    rw [if_pos static] at stored
    cases known : tree.static.get? (render steps) with
    | none => simp [known] at stored
    | some endpoints => simp only [known, Option.getD_some, id, Table.set_get? known]
  case isFalse capturing =>
    rw [if_neg capturing] at stored
    rw [Node.changeAt_id_eq_self stored]

theorem insert_made (tree : Tree) (steps : List Step) (endpoint : Endpoint) :
    (tree.changeAt id steps).insert steps endpoint = tree.insert steps endpoint := by
  by_cases static : names steps = []
  · simp [insert, changeAt, static, Table.get?_set_self, Table.set_set]
  · simp [insert, changeAt, static, Node.changeAt_changeAt]

/-- Binding does what it would do if the place were made only for an insertion. -/
theorem bind_eq (tree : Tree) (steps : List Step) (method : Method) (handler : String) :
    tree.bind steps method handler =
      match tree.bound? steps method with
      | none => .ok (tree.insert steps (endpoint steps method handler))
      | some existing =>
          if existing.handler == handler then .ok tree
          else .error (.duplicate method (render steps) existing.pattern) := by
  rw [bind, endpointsAt_made, insert_made, ← bound?]
  cases found : tree.bound? steps method with
  | none => rfl
  | some existing =>
      -- An endpoint was found, so the place was there and making it changed nothing.
      have stored : tree.endpointsAt steps ≠ [] :=
        List.ne_nil_of_mem (List.mem_of_find?_eq_some found)
      rw [made_eq_self stored]

theorem divided_bind {tree next : Tree} (divided : tree.Divided) {steps : List Step}
    {method : Method} {handler : String} (bound : tree.bind steps method handler = .ok next) :
    next.Divided := by
  rw [bind_eq] at bound
  split at bound
  case h_1 =>
    cases bound
    exact divided_insert divided _ _
  case h_2 =>
    split at bound
    · cases bound
      exact divided
    · cases bound

theorem isAt_iff {steps : List Step} {method : Method} {place : List Step × Method} :
    isAt steps method place = true ↔ nameless steps = nameless place.1 ∧ place.2 = method := by
  simp [isAt]

theorem bind_isOk_iff (tree : Tree) (steps : List Step) (method : Method) (handler : String) :
    (∃ next, tree.bind steps method handler = .ok next) ↔
      tree.isOpen handler (steps, method) = true := by
  rw [bind_eq, isOpen]
  cases found : tree.bound? steps method with
  | none => simp
  | some existing => by_cases same : existing.handler = handler <;> simp [same]

theorem bound?_bind {tree next : Tree} {steps other : List Step} (proper : Proper steps)
    (properOther : Proper other) {method : Method} {handler : String}
    (bound : tree.bind steps method handler = .ok next) (asked : Method) :
    next.bound? other asked =
      (tree.bound? other asked).or
        (if isAt other asked (steps, method) then some (endpoint steps method handler)
         else none) := by
  rw [bind_eq] at bound
  split at bound
  case h_1 =>
    cases bound
    rw [bound?_insert tree proper properOther]
    congr 2
    simp [isAt, endpoint]
  case h_2 existing found =>
    split at bound
    case isTrue =>
      cases bound
      split
      case isTrue here =>
        rcases isAt_iff.mp here with ⟨same, rfl⟩
        have known : tree.bound? other method = some existing :=
          (tree.bound?_congr same method).trans found
        rw [known, Option.some_or]
      case isFalse => rw [Option.or_none]
    case isFalse => cases bound

theorem isOpen_bind {tree next : Tree} {steps : List Step} (proper : Proper steps)
    {method : Method} {handler : String} (bound : tree.bind steps method handler = .ok next)
    {place : List Step × Method} (properPlace : Proper place.1) :
    next.isOpen handler place = tree.isOpen handler place := by
  rw [isOpen, isOpen, bound?_bind proper properPlace bound]
  cases tree.bound? place.1 place.2 with
  | some existing => rfl
  | none => split <;> simp [endpoint]

/-! ### Several places at once -/

theorem takeWhile_congr {α : Type u} {first second : α → Bool} {values : List α}
    (same : ∀ value ∈ values, first value = second value) :
    values.takeWhile first = values.takeWhile second := by
  induction values with
  | nil => rfl
  | cons value rest induction =>
      rw [List.takeWhile_cons, List.takeWhile_cons, same value (by simp),
        induction fun value member => same value (List.mem_cons_of_mem _ member)]

theorem divided_bindAll {tree : Tree} (divided : tree.Divided) (handler : String)
    (places : List (List Step × Method)) : (tree.bindAll handler places).1.Divided := by
  induction places generalizing tree with
  | nil => exact divided
  | cons place rest induction =>
      rw [bindAll]
      split
      case h_1 next bound => exact induction (divided_bind divided bound)
      case h_2 => exact divided

/-- Several places are bound up to the first one that another handler has. -/
theorem bound?_bindAll {tree : Tree} {handler : String} {places : List (List Step × Method)}
    (proper : ∀ place ∈ places, Proper place.1) {steps : List Step} (properSteps : Proper steps)
    (method : Method) :
    (tree.bindAll handler places).1.bound? steps method =
      (tree.bound? steps method).or
        (((places.takeWhile (tree.isOpen handler)).find? (isAt steps method)).map
          fun place => endpoint place.1 place.2 handler) := by
  induction places generalizing tree with
  | nil => simp [bindAll]
  | cons place rest induction =>
      rw [bindAll]
      split
      case h_1 next bound =>
        have isOpen : tree.isOpen handler place = true :=
          (tree.bind_isOk_iff place.1 place.2 handler).mp ⟨next, bound⟩
        have properRest : ∀ place ∈ rest, Proper place.1 := fun place member =>
          proper place (List.mem_cons_of_mem _ member)
        have sameBeginning : rest.takeWhile (next.isOpen handler) =
            rest.takeWhile (tree.isOpen handler) :=
          takeWhile_congr fun place member =>
            isOpen_bind (proper _ (by simp)) bound (properRest place member)
        rw [induction properRest, sameBeginning, List.takeWhile_cons_of_pos isOpen,
          bound?_bind (proper place (by simp)) properSteps bound, List.find?_cons]
        by_cases here : isAt steps method place = true
        · simp [here]
        · simp [here]
      case h_2 error refused =>
        have shut : ¬ tree.isOpen handler place = true := by
          rw [← tree.bind_isOk_iff place.1 place.2 handler]
          intro given
          rcases given with ⟨next, bound⟩
          rw [refused] at bound
          cases bound
        rw [List.takeWhile_cons_of_neg shut]
        simp

theorem bindAll_isOk_iff {tree : Tree} {handler : String} {places : List (List Step × Method)}
    (proper : ∀ place ∈ places, Proper place.1) :
    (tree.bindAll handler places).2 = .ok () ↔
      ∀ place ∈ places, tree.isOpen handler place = true := by
  induction places generalizing tree with
  | nil => simp [bindAll]
  | cons place rest induction =>
      have first := tree.bind_isOk_iff place.1 place.2 handler
      rw [bindAll]
      split
      case h_1 next bound =>
        have properRest : ∀ place ∈ rest, Proper place.1 := fun place member =>
          proper place (List.mem_cons_of_mem _ member)
        have same : ∀ place ∈ rest, next.isOpen handler place = tree.isOpen handler place :=
          fun place member => isOpen_bind (proper _ (by simp)) bound (properRest place member)
        rw [induction properRest, List.forall_mem_cons]
        constructor
        · intro later
          exact ⟨first.mp ⟨next, bound⟩, fun place member => same place member ▸ later place member⟩
        · intro all place member
          exact (same place member).trans (all.2 place member)
      case h_2 error refused =>
        simp only [reduceCtorEq, false_iff]
        intro all
        rcases first.mpr (all place (by simp)) with ⟨next, bound⟩
        rw [refused] at bound
        cases bound

end Tree

end UrlRouting
