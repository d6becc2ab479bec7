import UrlRouting.Proofs.Data.MessagePack
import UrlRouting.Proofs.Dispatch.Alike
import UrlRouting.Proofs.Registration.Sources
import UrlRouting.Proofs.Tree.Snapshot
import UrlRouting.Store

/-!
Dispatch sets stored as blobs. A blob is read back as the set that it was written from, in whatever
order the tables were written, and nothing shorter is read as the same.
-/

namespace UrlRouting

open Data (named ofTable)
open MessagePack (Storable storable_named_iff storable_ofTable_iff)

variable {depth : Nat}

/-! ### Sets read back -/

namespace DispatchSet

def trees (set : DispatchSet) : List Tree :=
  set.hosts.values ++ set.parameterized.toList ++ set.anyHost.toList

def optionToData (tree : Option Tree) : Data :=
  (tree.map Tree.toData).getD .null

theorem toData_eq (set : DispatchSet) :
    set.toData = named [
      ("hosts", ofTable Tree.toData set.hosts),
      ("parameterized", optionToData set.parameterized),
      ("default", optionToData set.anyHost),
      ("hostPatterns", ofTable .text set.hostPatterns),
      ("defaults", ofTable (ofTable .text) set.defaults)] :=
  rfl

theorem readOption_optionToData {tree : Option Tree} (counting : Data.Counting)
    (shallow : (optionToData tree).height ≤ depth)
    (small : ∀ present ∈ tree, present.size < UInt64.size) :
    Data.readOption (Tree.read counting depth) (optionToData tree) = some tree := by
  cases tree with
  | none => rfl
  | some tree => exact Data.readOption_eq nofun (Tree.read_toData counting shallow (small tree rfl))

theorem read_toData {set : DispatchSet} (counting : Data.Counting)
    (shallow : set.toData.height ≤ depth) (small : ∀ tree ∈ set.trees, tree.size < UInt64.size) :
    read counting depth set.toData = some set := by
  rw [toData_eq] at shallow ⊢
  rcases Data.height_named_le_iff.mp shallow with ⟨below, rfl, heights⟩
  simp only [List.forall_mem_cons] at heights
  rcases heights with
    ⟨hostsHeight, foldedHeight, anyHostHeight, patternsHeight, defaultsHeight, -⟩
  have hosts : Data.readTable Tree.read counting below (ofTable Tree.toData set.hosts) =
      some set.hosts :=
    Data.readTable_ofTable hostsHeight fun entry member _ height =>
      Tree.read_toData counting height (small _ (by
        simp only [trees, List.mem_append]
        exact .inl (.inl (List.mem_map_of_mem member))))
  have parameterized := readOption_optionToData counting foldedHeight fun tree present =>
    small tree (by simp_all [trees])
  have anyHost := readOption_optionToData counting anyHostHeight fun tree present =>
    small tree (by simp_all [trees])
  have texts : ∀ {table : Table String} {depth : Nat}, (ofTable .text table).height ≤ depth →
      readTexts counting depth (ofTable .text table) = some table := by
    intro table depth height
    exact Data.readTable_ofTable height fun _ _ _ _ => rfl
  have defaults : Data.readTable readTexts counting below
      (ofTable (ofTable .text) set.defaults) = some set.defaults :=
    Data.readTable_ofTable defaultsHeight fun _ _ _ height => texts height
  rw [read, Data.within, Data.readFields_named (by simp [fieldNames]) (by simp)]
  simp [Data.Fields.required, Data.Fields.optional, Data.Fields.get?, List.lookup, hosts,
    parameterized, anyHost, texts patternsHeight, defaults]

end DispatchSet

/-! ### Sets that can be stored -/

theorem Table.Alike.storable {α : Type} {relates : α → α → Prop} {write : α → Data}
    {left right : Table α} (alike : left.Alike relates right)
    (each : ∀ first second below, relates first second →
      Storable below (write second) → Storable below (write first))
    (storable : Storable depth (ofTable write right)) : Storable depth (ofTable write left) := by
  rcases storable_ofTable_iff.mp storable with ⟨short, below, rfl, entries⟩
  refine storable_ofTable_iff.mpr ⟨alike.size_le.trans_lt short, below, rfl, ?_⟩
  intro entry member
  rcases alike.exists_mem member with ⟨value, inRight, related⟩
  have found := entries _ inRight
  exact ⟨found.1, each _ _ _ related found.2⟩

namespace Tree

variable {left right tree : Tree}

theorem Alike.storable (alike : left.Alike right) (storable : Storable depth right.toData) :
    Storable depth left.toData := by
  rw [toData_eq] at storable ⊢
  rcases storable_named_iff.mp storable with ⟨short, below, rfl, fields⟩
  refine storable_named_iff.mpr ⟨short, below, rfl, ?_⟩
  simp only [List.forall_mem_cons] at fields ⊢
  rcases fields with ⟨⟨rootName, root⟩, ⟨staticName, static⟩, ⟨sizeName, size⟩, others⟩
  rw [alike.root, alike.size]
  exact ⟨⟨rootName, root⟩,
    ⟨staticName, alike.static.storable (fun _ _ _ same => same ▸ id) static⟩,
    ⟨sizeName, size⟩, others⟩

theorem size_lt_of_storable (storable : Storable depth tree.toData) :
    tree.size < UInt64.size := by
  rw [toData_eq] at storable
  rcases storable_named_iff.mp storable with ⟨-, below, rfl, fields⟩
  have room := (fields ("size", .unsigned tree.size) (by simp)).2.room
  have size : tree.size < MessagePack.capacity 8 := by simpa [MessagePack.hasRoom] using room
  exact size

end Tree

namespace DispatchSet

variable {left right set : DispatchSet}

theorem storable_optionToData {left right : Option Tree} (alike : Option.Rel Tree.Alike left right)
    (storable : Storable depth (optionToData right)) : Storable depth (optionToData left) := by
  cases alike with
  | none => exact storable
  | some same => exact same.storable storable

theorem Alike.storable (alike : left.Alike right) (storable : Storable depth right.toData) :
    Storable depth left.toData := by
  rw [toData_eq] at storable ⊢
  rcases storable_named_iff.mp storable with ⟨short, below, rfl, fields⟩
  refine storable_named_iff.mpr ⟨short, below, rfl, ?_⟩
  simp only [List.forall_mem_cons] at fields ⊢
  rcases fields with ⟨⟨hostsName, hosts⟩, ⟨foldedName, folded⟩, ⟨anyHostName, anyHost⟩,
    ⟨patternsName, patterns⟩, ⟨defaultsName, defaults⟩, others⟩
  have sameTexts : ∀ first second below, first = second →
      Storable below (.text second) → Storable below (.text first) :=
    fun _ _ _ same => same ▸ id
  exact ⟨
    ⟨hostsName, alike.hosts.storable (fun _ _ _ => Tree.Alike.storable) hosts⟩,
    ⟨foldedName, storable_optionToData alike.parameterized folded⟩,
    ⟨anyHostName, storable_optionToData alike.anyHost anyHost⟩,
    ⟨patternsName, alike.hostPatterns.storable sameTexts patterns⟩,
    ⟨defaultsName, alike.defaults.storable
      (fun _ _ _ alike => Table.Alike.storable alike sameTexts) defaults⟩,
    others⟩

theorem size_lt_of_storable (storable : Storable depth set.toData) :
    ∀ tree ∈ set.trees, tree.size < UInt64.size := by
  rw [toData_eq] at storable
  rcases storable_named_iff.mp storable with ⟨-, below, rfl, fields⟩
  simp only [List.forall_mem_cons] at fields
  rcases fields with ⟨⟨-, hosts⟩, ⟨-, folded⟩, ⟨-, anyHost⟩, -⟩
  have optional : ∀ {present : Option Tree}, Storable below (optionToData present) →
      ∀ tree ∈ present.toList, tree.size < UInt64.size := by
    intro present storable tree member
    rw [Option.mem_toList] at member
    subst member
    exact Tree.size_lt_of_storable storable
  intro tree member
  rcases List.mem_append.mp member with inFirst | inAnyHost
  · rcases List.mem_append.mp inFirst with inHosts | inFolded
    · rcases List.mem_map.mp inHosts with ⟨entry, inEntries, rfl⟩
      rcases storable_ofTable_iff.mp hosts with ⟨-, deeper, rfl, entries⟩
      exact Tree.size_lt_of_storable (entries entry inEntries).2
    · exact optional folded tree inFolded
  · exact optional anyHost tree inAnyHost

theorem decode?_encode (storable : Storable MessagePack.depth set.toData) :
    decode? set.encode = some set := by
  rw [decode?, MessagePack.readAs, encode, storable.decode_encode]
  exact read_toData MessagePack.counting storable.shallow (size_lt_of_storable storable)

/-- Whether a blob is read as a set that stands for a given one: the tables are the same up to their
order, and so are the answers. -/
structure Restores (set : DispatchSet) (blob : List UInt8) (restored : DispatchSet) : Prop where
  read : decode? blob = some restored
  alike : set.Alike restored
  answers : ∀ host method path,
    (set.lookup host method path).Alike (restored.lookup host method path)

theorem restores_of_alike {written : DispatchSet}
    (storable : Storable MessagePack.depth set.toData) (alike : set.Alike written) :
    Restores set written.encode written where
  read := decode?_encode (alike.symm.storable storable)
  alike := alike
  answers := alike.lookup

/-- A set outlives its blob, in whatever order the tables are written and written again, and the
blob is the shortest of all that stand for the same data. -/
theorem restores_encode {written : DispatchSet}
    (storable : Storable MessagePack.depth set.toData) (alike : set.Alike written) :
    Restores set written.encode written ∧
      (∀ again, written.Alike again → Restores set again.encode again) ∧
      MessagePack.decode written.encode = some written.toData ∧
      ∀ blob, MessagePack.decode blob = some written.toData →
        written.encode.length ≤ blob.length := by
  have writtenStorable := alike.symm.storable storable
  refine ⟨restores_of_alike storable alike, ?_, ?_, ?_⟩
  · intro again alikeAgain
    exact restores_of_alike storable (alike.trans alikeAgain)
  · exact writtenStorable.decode_encode
  · intro blob read
    exact writtenStorable.length_encode_le read

theorem restores_encode_page :
    ∃ set written memo,
      Registration.register .empty [(((Route.new [.get] "/page/{id}").withName "page").withHosts
        ["a.example", "b.example"]).withDefaults (.ofList [("layout", "main")])] =
          (.ok set, memo) ∧
      set.hosts.names = ["a.example", "b.example"] ∧
      written.hosts.names = ["b.example", "a.example"] ∧
      Storable MessagePack.depth set.toData ∧ set.Alike written ∧
      Restores set written.encode written := by
  have made : (Registration.register .empty [(((Route.new [.get] "/page/{id}").withName
      "page").withHosts ["a.example", "b.example"]).withDefaults (.ofList [("layout", "main")])]).1 =
        .ok
          { DispatchSet.empty with
            hosts := { entries := [
              ("a.example", (Tree.empty.add [.get, .head] "/page/:id" "page").1),
              ("b.example", (Tree.empty.add [.get, .head] "/page/:id" "page").1)] }
            defaults := { entries := [("page", .ofList [("layout", "main")])] } } := by
    cbv
  have storable : Storable MessagePack.depth (toData
      { DispatchSet.empty with
        hosts := { entries := [
          ("a.example", (Tree.empty.add [.get, .head] "/page/:id" "page").1),
          ("b.example", (Tree.empty.add [.get, .head] "/page/:id" "page").1)] }
        defaults := { entries := [("page", .ofList [("layout", "main")])] } }) :=
    ⟨by decide +kernel, by decide +kernel⟩
  refine ⟨_, { DispatchSet.empty with
      hosts := { entries := [
        ("b.example", (Tree.empty.add [.get, .head] "/page/:id" "page").1),
        ("a.example", (Tree.empty.add [.get, .head] "/page/:id" "page").1)] }
      defaults := { entries := [("page", .ofList [("layout", "main")])] } }, _,
    Registration.register_eq_of_fst made, rfl, rfl, storable, ?alike,
    (restores_encode storable ?alike).1⟩
  exact alike_of_perm (.swap _ _ []) rfl rfl (.refl _) (.refl _)

end DispatchSet

end UrlRouting
