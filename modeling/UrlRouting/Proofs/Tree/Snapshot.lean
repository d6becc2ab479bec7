import UrlRouting.Proofs.Data.Basic
import UrlRouting.Tree.Snapshot

/-!
Routing trees read back as they are written. Reading descends one level for each record and list, so
a tree is read if its data has no more levels than there are.
-/

namespace UrlRouting

open Data (named)

variable {depth : Nat} (counting : Data.Counting)

theorem Method.read_toData (method : Method) :
    read counting depth method.toData = some method :=
  ofName?_name method

namespace Endpoint

theorem toData_eq (endpoint : Endpoint) :
    endpoint.toData = named [
      ("method", endpoint.method.toData),
      ("handler", .text endpoint.handler),
      ("params", .list (endpoint.captures.map .text)),
      ("pattern", .text endpoint.pattern)] :=
  rfl

theorem read_toData {endpoint : Endpoint} (shallow : endpoint.toData.height ≤ depth) :
    read counting depth endpoint.toData = some endpoint := by
  rw [toData_eq] at shallow ⊢
  rcases Data.height_named_le_iff.mp shallow with ⟨below, rfl, heights⟩
  simp only [List.forall_mem_cons] at heights
  rcases heights with ⟨-, -, capturesHeight, -⟩
  have captures : Data.readTexts counting below (.list (endpoint.captures.map .text)) =
      some endpoint.captures := Data.readTexts_map capturesHeight
  rw [read, Data.within, Data.readFields_named (by simp [fieldNames]) (by simp)]
  simp [Data.Fields.required, Data.Fields.get?, List.lookup_cons, Method.read_toData, captures,
    Data.readText]

end Endpoint

def Endpoint.listToData (endpoints : List Endpoint) : Data :=
  .list (endpoints.map toData)

theorem Endpoint.readList_listToData {endpoints : List Endpoint}
    (shallow : (listToData endpoints).height ≤ depth) :
    Data.readList read counting depth (listToData endpoints) = some endpoints :=
  Data.readList_map shallow fun _ _ _ height => read_toData counting height

namespace Node

theorem childrenToData_eq (children : List Node) :
    childrenToData children = children.map toData := by
  induction children with
  | nil => rw [childrenToData, List.map_nil]
  | cons child others induction => rw [childrenToData, induction, List.map_cons]

theorem toData_eq (node : Node) :
    node.toData = named [
      ("segment", .text node.segment),
      ("endpoints", Endpoint.listToData node.endpoints),
      ("children", .list (node.children.map toData)),
      ("param_child", childToData node.captureChild),
      ("wildcard_child", childToData node.wildcardChild)] := by
  cases node with
  | mk segment endpoints children captureChild wildcardChild =>
      rw [toData, childrenToData_eq]
      rfl

theorem readOption_childToData {child : Option Node}
    (each : ∀ node, child = some node → read counting depth node.toData = some node) :
    Data.readOption (read counting depth) (childToData child) = some child := by
  cases child with
  | none => rw [childToData, Data.readOption]
  | some node =>
      rw [childToData]
      apply Data.readOption_eq ?_ (each node rfl)
      rw [toData_eq]
      nofun

theorem read_toData {node : Node} (shallow : node.toData.height ≤ depth) :
    read counting depth node.toData = some node := by
  induction depth using Nat.strongRecOn generalizing node with
  | ind depth induction =>
      rw [toData_eq] at shallow ⊢
      rcases Data.height_named_le_iff.mp shallow with ⟨below, rfl, heights⟩
      simp only [List.forall_mem_cons] at heights
      rcases heights with ⟨-, endpointsHeight, childrenHeight, captureHeight, wildcardHeight, -⟩
      have endpoints := Endpoint.readList_listToData counting endpointsHeight
      rcases Data.height_list_le_iff.mp childrenHeight with ⟨deeper, rfl, each⟩
      have children : Data.readItems (read counting deeper) (.list (node.children.map toData)) =
          some node.children :=
        Data.readItems_map fun child member =>
          induction deeper (by omega) (each _ (List.mem_map_of_mem member))
      have child : ∀ child, (childToData child).height ≤ deeper + 1 →
          Data.readOption (read counting (deeper + 1)) (childToData child) = some child := by
        intro child height
        apply readOption_childToData
        rintro other rfl
        rw [childToData] at height
        exact induction (deeper + 1) (by omega) height
      have captureChild := child node.captureChild captureHeight
      have wildcardChild := child node.wildcardChild wildcardHeight
      have whole : some node = some ⟨node.segment, node.endpoints, node.children,
          node.captureChild, node.wildcardChild⟩ := by
        cases node
        rfl
      rw [read, Data.readFields_named (by simp [fieldNames]) (by simp), whole]
      simp [Data.Fields.required, Data.Fields.optional, Data.Fields.get?, List.lookup_cons,
        Data.readText, endpoints, children, captureChild, wildcardChild]

end Node

namespace Tree

theorem toData_eq (tree : Tree) :
    tree.toData = named [
      ("tree", tree.root.toData),
      ("static", Data.ofTable Endpoint.listToData tree.static),
      ("size", .unsigned tree.size)] :=
  rfl

theorem read_toData {tree : Tree} (shallow : tree.toData.height ≤ depth)
    (small : tree.size < UInt64.size) : read counting depth tree.toData = some tree := by
  rw [toData_eq] at shallow ⊢
  rcases Data.height_named_le_iff.mp shallow with ⟨below, rfl, heights⟩
  simp only [List.forall_mem_cons] at heights
  rcases heights with ⟨rootHeight, staticHeight, -⟩
  have root := Node.read_toData counting rootHeight
  have static : Data.readTable (Data.readList Endpoint.read) counting below
      (Data.ofTable Endpoint.listToData tree.static) = some tree.static :=
    Data.readTable_ofTable staticHeight fun _ _ _ height =>
      Endpoint.readList_listToData counting height
  rw [read, Data.within, Data.readFields_named (by simp [fieldNames]) (by simp)]
  simp [Data.Fields.required, Data.Fields.get?, List.lookup_cons, root, static, Data.readSize, small]

end Tree

end UrlRouting
