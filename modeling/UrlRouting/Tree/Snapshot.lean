import UrlRouting.Data.Basic
import UrlRouting.Tree.Basic

/-!
Routing trees as data. A tree is a record of its nodes, its flat table and its size, a node a record
of its endpoints and children, and a method its wire name.
-/

namespace UrlRouting

namespace Method

def toData (method : Method) : Data :=
  .text method.name

def ofTag? : Data → Option Method
  | .unsigned index => all[index]?
  | data => (Data.readText data).bind ofName?

def read : Data.Reader Method
  | counting, depth, .map entries =>
      if counting.choices && depth = 0 then none
      else
        match entries with
        | [(tag, .null)] => ofTag? tag
        | _ => none
  | _, _, data => ofTag? data

end Method

namespace Endpoint

def fieldNames : List String := ["method", "handler", "params", "pattern"]

def toData (endpoint : Endpoint) : Data :=
  .map [
    (.text "method", endpoint.method.toData),
    (.text "handler", .text endpoint.handler),
    (.text "params", .list (endpoint.captures.map .text)),
    (.text "pattern", .text endpoint.pattern)]

def read : Data.Reader Endpoint :=
  Data.within fun counting depth data => do
    let fields ← Data.readFields fieldNames counting depth data
    let method ← fields.required "method" (Method.read counting depth)
    let handler ← fields.required "handler" Data.readText
    let captures ← fields.required "params" (Data.readTexts counting depth)
    let pattern ← fields.required "pattern" Data.readText
    return { method, handler, captures, pattern }

end Endpoint

namespace Node

def fieldNames : List String :=
  ["segment", "endpoints", "children", "param_child", "wildcard_child"]

mutual

def toData : Node → Data
  | ⟨segment, endpoints, children, captureChild, wildcardChild⟩ =>
      .map [
        (.text "segment", .text segment),
        (.text "endpoints", .list (endpoints.map Endpoint.toData)),
        (.text "children", .list (childrenToData children)),
        (.text "param_child", childToData captureChild),
        (.text "wildcard_child", childToData wildcardChild)]

def childrenToData : List Node → List Data
  | [] => []
  | child :: others => child.toData :: childrenToData others

def childToData : Option Node → Data
  | none => .null
  | some child => child.toData

end

def read : Data.Reader Node
  | counting, depth + 1, data => do
      let fields ← Data.readFields fieldNames counting depth data
      let segment ← fields.required "segment" Data.readText
      let endpoints ← fields.required "endpoints" (Data.readList Endpoint.read counting depth)
      let children ←
        match depth with
        | 0 => fields.required "children" (Data.readList (fun _ _ _ => none) counting 0)
        | below + 1 => fields.required "children" (Data.readItems (read counting below))
      let captureChild ← fields.optional "param_child" (Data.readOption (read counting depth))
      let wildcardChild ← fields.optional "wildcard_child" (Data.readOption (read counting depth))
      return { segment, endpoints, children, captureChild, wildcardChild }
  | _, _, _ => none

end Node

namespace Tree

def fieldNames : List String := ["tree", "static", "size"]

def toData (tree : Tree) : Data :=
  .map [
    (.text "tree", tree.root.toData),
    (.text "static", .map (tree.static.entries.map fun (path, endpoints) =>
      (.text path, .list (endpoints.map Endpoint.toData)))),
    (.text "size", .unsigned tree.size)]

def read : Data.Reader Tree :=
  Data.within fun counting depth data => do
    let fields ← Data.readFields fieldNames counting depth data
    let root ← fields.required "tree" (Node.read counting depth)
    let static ← fields.required "static"
      (Data.readTable (Data.readList Endpoint.read) counting depth)
    let size ← fields.required "size" Data.readSize
    return { root, static, size }

end Tree

end UrlRouting
