import VocabularyCompiler.Proofs.TypeGraph.Steps

/-!
# Types by position and by name

A graph can be kept in two stores: its types by position, and in a hash map the position of each
name. Loops over positions and lookups of names then speak of the same types only if every step
keeps the two together. `IndexedGraph` has no such law in its type. That the stores hold one graph
(`Represents`) is kept by each step (`Represents.take`) and so by all of them (`represents_made`),
and what a graph promises holds of the stores too (`stores_stay_inverse`).
-/

namespace VocabularyCompiler

/-- The types of a graph by position, and in a hash map the position of each name. Nothing here says
that the two belong together. -/
structure IndexedGraph where
  nodes : List TypeNode := []
  index : Std.HashMap String Nat := ∅

namespace IndexedGraph

open TypeGraph

variable {s : IndexedGraph} {g h : TypeGraph}

/-- The position of a name, as the hash map has it. -/
def id? (s : IndexedGraph) (name : String) : Option Nat := s.index[name]?

/-- Whether the hash map has the name. -/
def contains (s : IndexedGraph) (name : String) : Bool := s.index.contains name

/-- The type at the position that the hash map has for a name. -/
def get? (s : IndexedGraph) (name : String) : Option TypeNode :=
  (s.id? name).bind fun id => s.nodes[id]?

/-- The position of a name and the graph that has it: a new type without parents goes to the end. -/
def ensure (s : IndexedGraph) (name : String) : Nat × IndexedGraph :=
  match s.id? name with
  | some id => (id, s)
  | none =>
    (s.nodes.length,
      { nodes := s.nodes ++ [{ name := name }], index := s.index.insert name s.nodes.length })

/-- Changes the type at a position. -/
def modify (s : IndexedGraph) (id : Nat) (f : TypeNode → TypeNode) : IndexedGraph :=
  { s with nodes := s.nodes.modify id f }

/-- The types that the hash map leads to by their names, with their positions. -/
def found (s : IndexedGraph) : List (TypeNode × Nat) :=
  s.nodes.zipIdx.filter fun e => s.id? e.1.name = some e.2

/-- The hash map leads to one type of each name. -/
theorem nodup_found (s : IndexedGraph) :
    ((s.found.map Prod.fst).map TypeNode.name).Nodup := by
  have hpositions : (s.found.map Prod.snd).Nodup := by
    have hall : (s.nodes.zipIdx.map Prod.snd).Nodup := by
      rw [List.zipIdx_map_snd]
      exact List.nodup_range'
    exact hall.sublist (List.filter_sublist.map Prod.snd)
  -- Types of one name have one position, and a position has one type.
  rw [List.map_map, List.nodup_map_iff_inj_on hpositions.of_map]
  intro e he e' he' hname
  refine List.inj_on_of_nodup_map hpositions he he' (Option.some.inj ?_)
  have hid := of_decide_eq_true (List.mem_filter.1 he).2
  have hid' := of_decide_eq_true (List.mem_filter.1 he').2
  rw [← hid, ← hid']
  exact congrArg s.id? hname

/-- The graph of the types that the hash map leads to. -/
def graph (s : IndexedGraph) : TypeGraph := ⟨s.found.map Prod.fst, s.nodup_found⟩

/-- Gives each type the kind that it has in another graph. -/
def setKinds (s : IndexedGraph) (g : TypeGraph) : IndexedGraph :=
  g.ids.foldl (fun s id => s.modify id fun n =>
    { n with classification := ((g.node? id).map TypeNode.classification).getD n.classification }) s

/-- The type at a position after a change. -/
theorem getElem?_nodes_modify (s : IndexedGraph) (i j : Nat) (f : TypeNode → TypeNode) :
    (s.modify i f).nodes[j]? = if i = j then (s.nodes[j]?).map f else s.nodes[j]? := by
  unfold modify
  rw [List.getElem?_modify]
  split <;> simp

/-- Changes at the first `k` positions, one after another, change the types there and leave the hash
map. -/
theorem foldl_modify (f : Nat → TypeNode → TypeNode) (s : IndexedGraph) (k : Nat) :
    let t := (List.range k).foldl (fun s id => s.modify id (f id)) s
    t.index = s.index ∧
      ∀ i, t.nodes[i]? = if i < k then (s.nodes[i]?).map (f i) else s.nodes[i]? := by
  induction k with
  | zero => exact ⟨rfl, fun i => rfl⟩
  | succ k ih =>
    rw [List.range_succ, List.foldl_append, List.foldl_cons, List.foldl_nil]
    refine ⟨ih.1, fun i => ?_⟩
    rw [getElem?_nodes_modify, ih.2]
    rcases Nat.lt_trichotomy i k with hlt | rfl | hgt
    · simp [hlt, Nat.lt_succ_of_lt hlt, hlt.ne']
    · simp
    · simp [hgt.ne, Nat.not_lt.2 hgt.le, Nat.not_lt.2 (Nat.succ_le_of_lt hgt)]

/-- The two stores after a step. What classifies types and resolves cycles looks types up in both
stores and then changes the types one after another. -/
def take (s : IndexedGraph) : GraphStep → IndexedGraph
  | .ensure name => (s.ensure name).2
  | .modify id f _ => s.modify id f
  | .classify p => s.setKinds (s.graph.classify p).1
  | .resolveCycles p => s.setKinds (s.graph.resolveCycles p).1

/-- What steps make of two empty stores. -/
def made (steps : List GraphStep) : IndexedGraph := steps.foldl take {}

/-- The two stores hold a graph: they have its types, and the hash map has its positions of
names. -/
structure Represents (s : IndexedGraph) (g : TypeGraph) : Prop where
  nodes : s.nodes = g.nodes
  index : s.id? = g.id?

namespace Represents

/-- The graph that the stores hold is the one of the types that the hash map leads to. -/
theorem graph_eq (hs : s.Represents g) : s.graph = g := by
  refine eq_of_nodes_eq ?_
  have hall : s.found = s.nodes.zipIdx := by
    refine List.filter_eq_self.2 fun e he => decide_eq_true ?_
    rw [hs.index, id?_eq_some_iff]
    rw [List.mem_zipIdx_iff_getElem?, hs.nodes] at he
    exact ⟨e.1, he, rfl⟩
  change s.found.map Prod.fst = g.nodes
  rw [hall, List.zipIdx_map_fst, hs.nodes]

/-- A known name can be asked for without any effect, and a new one gets the position behind all
others. -/
theorem ensure_cases (hs : s.Represents g) (name : String) :
    (∃ id, s.id? name = some id ∧ s.ensure name = (id, s) ∧ name ∈ g.names) ∨
      s.id? name = none ∧ s.ensure name = (g.size, ⟨g.nodes ++ [{ name := name }],
        s.index.insert name g.size⟩) ∧ name ∉ g.names := by
  have hmem : name ∈ g.names ↔ (s.id? name).isSome = true := by
    rw [mem_names_iff, contains_eq_isSome_id?, hs.index]
  unfold IndexedGraph.ensure
  cases hid : s.id? name with
  | some id => exact Or.inl ⟨id, rfl, rfl, hmem.2 (hid ▸ rfl)⟩
  | none => exact Or.inr ⟨rfl, by rw [hs.nodes]; rfl, fun h => by simpa [hid] using hmem.1 h⟩

/-- Asking for a name keeps the stores together. -/
theorem ensure (hs : s.Represents g) (name : String) :
    (s.ensure name).2.Represents (g.ensure name) := by
  rcases hs.ensure_cases name with ⟨id, -, heq, hmem⟩ | ⟨-, heq, hnew⟩
  · rw [heq, ensure_of_mem hmem]
    exact hs
  · rw [heq]
    refine ⟨by rw [nodes_ensure, if_neg hnew], funext fun name' => ?_⟩
    rw [id?_ensure_of_notMem hnew, ← hs.index]
    unfold IndexedGraph.id?
    rw [Std.HashMap.getElem?_insert]
    simp only [beq_iff_eq]

/-- Asking for a name gives its position. -/
theorem id?_ensure (hs : s.Represents g) (name : String) :
    (g.ensure name).id? name = some (s.ensure name).1 := by
  rcases hs.ensure_cases name with ⟨id, hid, heq, hmem⟩ | ⟨-, heq, hnew⟩
  · rw [heq, ensure_of_mem hmem, ← hs.index, hid]
  · rw [heq, id?_ensure_of_notMem hnew, if_pos rfl]

/-- A change of a type that leaves its name keeps the stores together. -/
theorem modify (hs : s.Represents g) (id : Nat) (f : TypeNode → TypeNode)
    (keepsName : ∀ n, (f n).name = n.name) :
    (s.modify id f).Represents (g.modify id f keepsName) where
  nodes := congrArg (List.modify · id f) hs.nodes
  index := hs.index.trans (id?_eq_of_names_eq (g.names_modify id f keepsName)).symm

/-- Stores in which the types are given the kinds that they have in another graph hold that graph, if
its types are the same but for their kinds. -/
theorem setKinds (hs : s.Represents g)
    (hsame : ∀ i, (h.node? i).map TypeNode.unclassified = (g.node? i).map TypeNode.unclassified) :
    (s.setKinds h).Represents h := by
  obtain ⟨hindex, hnodes⟩ := s.foldl_modify (fun id n =>
    { n with classification := ((h.node? id).map TypeNode.classification).getD n.classification })
    h.size
  constructor
  · refine List.ext_getElem? fun i => (hnodes i).trans ?_
    have hi := hsame i
    rw [hs.nodes]
    unfold node? at hi ⊢
    cases hn : h.nodes[i]? with
    | none =>
      rw [hn, Option.map_none, eq_comm, Option.map_eq_none_iff] at hi
      rw [hi, Option.map_none, ite_self]
    | some n =>
      rw [hn, Option.map_some, eq_comm, Option.map_eq_some_iff] at hi
      obtain ⟨m, hm, heq⟩ := hi
      rw [if_pos (lt_size_of_node? hn), hm]
      -- The two types differ in nothing but their kinds.
      have hn' : { m with classification := n.classification } = n :=
        congrArg (fun k : TypeNode => { k with classification := n.classification }) heq
      exact congrArg some hn'
  · have hid : g.id? = h.id? :=
      id?_eq_of_names_eq (names_congr fun i => map_name_of_unclassified (hsame i).symm)
    rw [← hid, ← hs.index]
    unfold IndexedGraph.id?
    exact funext fun name => congrArg (·[name]?) hindex

/-- Every step keeps the stores together. -/
theorem take (hs : s.Represents g) (step : GraphStep) :
    (s.take step).Represents (g.take step) := by
  cases step with
  | ensure name => exact hs.ensure name
  | modify id f keepsName => exact hs.modify id f keepsName
  | classify p =>
    unfold IndexedGraph.take
    rw [hs.graph_eq]
    exact hs.setKinds (g.map_unclassified_classify p)
  | resolveCycles p =>
    unfold IndexedGraph.take
    rw [hs.graph_eq]
    exact hs.setKinds (g.map_unclassified_resolveCycles p)

end Represents

/-- Whatever steps make of two empty stores holds what they make of a graph. -/
theorem represents_made (steps : List GraphStep) :
    (made steps).Represents (TypeGraph.made steps) := by
  induction steps using List.reverseRecOn with
  | nil => exact ⟨rfl, funext fun name => Std.HashMap.getElem?_empty⟩
  | append_singleton steps step ih =>
    rw [made_append_singleton, made, List.foldl_append]
    exact ih.take step

namespace Represents

/-- The hash map has the names of the graph. -/
theorem contains_eq (hs : s.Represents g) (name : String) : s.contains name = g.contains name := by
  rw [contains_eq_isSome_id?, ← hs.index]
  exact Std.HashMap.contains_eq_isSome_getElem?

/-- The type of a name is found through the hash map. -/
theorem get?_eq (hs : s.Represents g) (name : String) : s.get? name = g.get? name := by
  rw [get?_eq_bind, ← hs.index, IndexedGraph.get?, hs.nodes]
  rfl

/-- The types have the names of the graph. -/
theorem map_name (hs : s.Represents g) : s.nodes.map TypeNode.name = g.names :=
  congrArg (List.map TypeNode.name) hs.nodes

/-- The hash map and the positions are inverse to each other. -/
theorem id?_eq_some_iff (hs : s.Represents g) (name : String) (i : Nat) :
    s.id? name = some i ↔
      i < s.nodes.length ∧ (s.nodes[i]?).map TypeNode.name = some name := by
  rw [hs.index, id?_eq_some_iff_names, ← hs.map_name, ← List.getElem?_map]
  exact ⟨fun h => ⟨by simpa using (List.getElem?_eq_some_iff.1 h).1, h⟩, And.right⟩

/-- To ask for a name that has a position gives this position and changes nothing. -/
theorem ensure_of_id? (hs : s.Represents g) {name : String} {i : Nat} (hi : s.id? name = some i) :
    s.ensure name = (i, s) ∧ g.ensure name = g := by
  rcases hs.ensure_cases name with ⟨id, hid, heq, hmem⟩ | ⟨hnone, -⟩
  · obtain rfl : id = i := Option.some.inj (hid.symm.trans hi)
    exact ⟨heq, ensure_of_mem hmem⟩
  · rw [hnone] at hi
    exact absurd hi (Option.some_ne_none i).symm

end Represents

/-- Whoever asks for a name is given its place among the names that were asked for. -/
theorem fst_ensure_made (steps : List GraphStep) (name : String) :
    ((made steps).ensure name).1 =
      (steps.filterMap GraphStep.asksFor? ++ [name]).eraseDups.idxOf name := by
  have hask := (represents_made steps).id?_ensure name
  have hmade : (TypeGraph.made steps).ensure name = TypeGraph.made (steps ++ [.ensure name]) :=
    (TypeGraph.made_append_singleton steps (.ensure name)).symm
  rw [hmade, id?_made (by simp [GraphStep.asksFor?]), List.filterMap_append] at hask
  exact (Option.some.inj hask).symm

/-- A name that has a position keeps it, whatever steps follow. -/
theorem id?_made_append {steps : List GraphStep} {name : String} {i : Nat}
    (hi : (made steps).id? name = some i) (more : List GraphStep) :
    (made (steps ++ more)).id? name = some i := by
  rw [(represents_made steps).index] at hi
  rw [(represents_made (steps ++ more)).index]
  exact TypeGraph.id?_made_append hi more

/-- The graph that facts are analyzed to can be made in two stores. -/
theorem exists_represents_analyze (p : Policy) (facts : List Fact) :
    ∃ steps, (made steps).Represents (analyze p facts).1 := by
  obtain ⟨steps, hsteps⟩ := isMade_analyze p facts
  exact ⟨steps, hsteps ▸ represents_made steps⟩

/-- After any steps from two empty stores, every lookup comes out as in the graph that the steps
make. The hash map and the positions are inverse to each other, and no two types have one name. The
types stand in the order in which their names were first asked for; whoever asks for a name is given
its place in this order, which the name keeps whatever steps follow. To ask for a known name changes
nothing, and a change of the type at one position leaves all others as they were. -/
theorem stores_stay_inverse (steps : List GraphStep) :
    let s := made steps
    let g := TypeGraph.made steps
    (s.nodes = g.nodes ∧ ∀ name, s.id? name = g.id? name ∧ s.contains name = g.contains name ∧
        s.get? name = g.get? name) ∧
      (∀ name i, s.id? name = some i ↔
        i < s.nodes.length ∧ (s.nodes[i]?).map TypeNode.name = some name) ∧
      (s.nodes.map TypeNode.name).Nodup ∧
      s.nodes.map TypeNode.name = (steps.filterMap GraphStep.asksFor?).eraseDups ∧
      (∀ name, (s.ensure name).1 =
        (steps.filterMap GraphStep.asksFor? ++ [name]).eraseDups.idxOf name) ∧
      (∀ name i, s.id? name = some i →
        (∀ more, (made (steps ++ more)).id? name = some i) ∧
          s.ensure name = (i, s) ∧ g.ensure name = g) ∧
      ∀ id i f, i ≠ id → (s.modify id f).nodes[i]? = s.nodes[i]? ∧
        ∀ keepsName, (g.modify id f keepsName).node? i = g.node? i := by
  intro s g
  have hs : s.Represents g := represents_made steps
  have horder := hs.map_name.trans (names_made steps)
  refine ⟨⟨hs.nodes, fun name => ⟨congrFun hs.index name, hs.contains_eq name, hs.get?_eq name⟩⟩,
    hs.id?_eq_some_iff, horder ▸ nodup_eraseDups _, horder, fst_ensure_made steps,
    fun name i hi => ⟨id?_made_append hi, hs.ensure_of_id? hi⟩,
    fun id i f hi => ⟨?_, fun keepsName => ?_⟩⟩
  · rw [getElem?_nodes_modify, if_neg hi.symm]
  · rw [node?_modify, if_neg hi.symm]

end IndexedGraph

end VocabularyCompiler
