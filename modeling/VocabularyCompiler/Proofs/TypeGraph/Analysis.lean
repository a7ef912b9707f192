import VocabularyCompiler.Proofs.Text.Words
import VocabularyCompiler.Proofs.TypeGraph.CycleResolution
import VocabularyCompiler.TypeGraph.Analyze

/-!
# The types of an analyzed graph

Classification gives every type its kind and changes nothing else, and the resolution of cycles
changes nothing but which types are structs. So the types of the analyzed graph are those that were
built, with the kinds that follow from the graph as it was built (`exists_builtAs`).
-/

namespace VocabularyCompiler

namespace TypeGraph

/-! ## Classification -/

/-- The kinds of types are those of each type at its own position. -/
theorem fst_classifyFrom (g : TypeGraph) (p : Policy) (k : Nat) (nodes : List TypeNode) :
    (g.classifyFrom p k nodes).1 =
      (nodes.zipIdx k).map fun n => (g.classifyNode p n.2 n.1).1 := by
  induction nodes generalizing k with
  | nil => rfl
  | cons n rest ih =>
    rw [List.zipIdx_cons, List.map_cons, ← ih]
    rfl

/-- Classifying a type changes that type only. -/
theorem node?_setClassification (g : TypeGraph) (i j : Nat) (c : Classification) :
    (g.setClassification i c).node? j =
      if i = j then (g.node? j).map fun n => { n with classification := c } else g.node? j :=
  g.node?_modify i j _ _

/-- Classifying the types from one position on leaves those before it as they are. -/
private theorem node?_setClassifications_of_lt (cs : List Classification) (k : Nat)
    (g : TypeGraph) {i : Nat} (h : i < k) :
    ((cs.zipIdx k).foldl (fun g c => g.setClassification c.2 c.1) g).node? i = g.node? i := by
  induction cs generalizing k g with
  | nil => rfl
  | cons c rest ih =>
    rw [List.zipIdx_cons, List.foldl_cons, ih (k + 1) _ (by omega), node?_setClassification,
      if_neg (by omega)]

/-- Classifying the types from one position on gives each of them its own kind. -/
private theorem node?_setClassifications (cs : List Classification) (k : Nat) (g : TypeGraph)
    (i : Nat) :
    ((cs.zipIdx k).foldl (fun g c => g.setClassification c.2 c.1) g).node? (k + i) =
      (g.node? (k + i)).map fun n =>
        { n with classification := (cs[i]?).getD n.classification } := by
  induction cs generalizing k g i with
  | nil => simp
  | cons c rest ih =>
    rw [List.zipIdx_cons, List.foldl_cons]
    cases i with
    | zero =>
      rw [node?_setClassifications_of_lt _ _ _ (by omega), node?_setClassification,
        if_pos (Nat.add_zero k).symm]
      rfl
    | succ i =>
      have hi : k + (i + 1) = k + 1 + i := by omega
      rw [hi, ih, node?_setClassification, if_neg (by omega)]
      rfl

/-- The types of the classified graph are the types of the graph, each with its kind. -/
theorem node?_classify (g : TypeGraph) (p : Policy) (i : Nat) :
    (g.classify p).1.node? i =
      (g.node? i).map fun n => { n with classification := (g.classifyNode p i n).1 } := by
  have hnode := node?_setClassifications (g.classifyFrom p 0 g.nodes).1 0 g i
  rw [Nat.zero_add] at hnode
  change (((g.classifyFrom p 0 g.nodes).1.zipIdx).foldl _ g).node? i = _
  rw [hnode, fst_classifyFrom]
  unfold node?
  rw [List.getElem?_map, List.getElem?_zipIdx]
  cases g.nodes[i]? <;> simp

/-- A property of types that does not depend on their kinds is the same after classification. -/
theorem map_node?_classify {α : Type _} (g : TypeGraph) (p : Policy) (k : TypeNode → α)
    (hk : ∀ n c, k { n with classification := c } = k n) (i : Nat) :
    ((g.classify p).1.node? i).map k = (g.node? i).map k := by
  rw [node?_classify, Option.map_map]
  congr 1
  exact funext fun n => hk n _

/-- Classification leaves the positions of names. -/
theorem id?_classify (g : TypeGraph) (p : Policy) : (g.classify p).1.id? = g.id? :=
  id?_congr (g.map_node?_classify p TypeNode.name fun _ _ => rfl)

/-- Classification leaves the names of parents. -/
theorem parentNames_classify (g : TypeGraph) (p : Policy) :
    (g.classify p).1.parentNames = g.parentNames :=
  parentNames_congr (g.map_node?_classify p TypeNode.parents fun _ _ => rfl)

/-- Classification leaves the parents. -/
theorem parents_classify (g : TypeGraph) (p : Policy) : (g.classify p).1.parents = g.parents := by
  funext i
  rw [parents, parents, parentNames_classify, id?_classify]

/-! ## Analysis -/

/-- The type `n` of the analyzed graph at position `i`, as it was built: the same type but for its
kind, which follows from the graph as it was built, and but for whether it is a struct, which it
may have ceased to be. -/
structure BuiltAs (p : Policy) (facts : List Fact) (i : Nat) (n m : TypeNode) : Prop where
  built : (build p facts).1.node? i = some m
  name : n.name = m.name
  parents : n.parents = m.parents
  properties : n.properties = m.properties
  literals : n.literals = m.literals
  classification : n.classification =
    { ((build p facts).1.classifyNode p i m).1 with
      representAsStruct := n.classification.representAsStruct }

/-- The types of the analyzed graph are those that were built. -/
theorem exists_builtAs {p : Policy} {facts : List Fact} {i : Nat} {n : TypeNode}
    (h : (analyze p facts).1.node? i = some n) : ∃ m, BuiltAs p facts i n m := by
  have hsame := (((build p facts).1.classify p).1.isStruct_resolveCycles_iff p).1
  -- Up to the mark of structs, the type is the one that was built, with its kind.
  have hnode := hsame.map_node? (TypeNode.withStruct false) (fun _ => rfl) i
  change Option.map _ ((analyze p facts).1.node? i) = _ at hnode
  rw [h, node?_classify, Option.map_map, Option.map_some, eq_comm, Option.map_eq_some_iff] at hnode
  obtain ⟨m, hm, heq⟩ := hnode
  refine ⟨m, hm, ?_, ?_, ?_, ?_, ?_⟩
  · exact (congrArg TypeNode.name heq).symm
  · exact (congrArg TypeNode.parents heq).symm
  · exact (congrArg TypeNode.properties heq).symm
  · exact (congrArg TypeNode.literals heq).symm
  · have hclass := congrArg TypeNode.classification heq
    obtain ⟨_, _, _, _, _, c⟩ := n
    cases c
    simp only [TypeNode.withStruct, Function.comp_apply, Classification.mk.injEq] at hclass ⊢
    obtain ⟨h1, h2, h3, h4, h5, -⟩ := hclass
    simp [h1, h2, h3, h4, h5]

/-- The positions of names are those of the graph as it was built. -/
theorem id?_analyze (p : Policy) (facts : List Fact) :
    (analyze p facts).1.id? = (build p facts).1.id? := by
  have hsame := (((build p facts).1.classify p).1.isStruct_resolveCycles_iff p).1
  exact hsame.id?_eq.trans (id?_classify _ p)

/-- The parents are those of the graph as it was built. -/
theorem parents_analyze (p : Policy) (facts : List Fact) :
    (analyze p facts).1.parents = (build p facts).1.parents := by
  have hsame := (((build p facts).1.classify p).1.isStruct_resolveCycles_iff p).1
  exact hsame.parents_eq.trans (parents_classify _ p)

/-- The analyzed graph contains the names that the graph contained as it was built. -/
theorem contains_analyze (p : Policy) (facts : List Fact) :
    (analyze p facts).1.contains = (build p facts).1.contains := by
  funext name
  rw [contains_eq_isSome_id?, contains_eq_isSome_id?, id?_analyze]

/-! ## Lists -/

/-- The element type of a list type is the root type, or a type of the graph with a name that is
shorter by one of the suffixes. -/
theorem fst_itemType (g : TypeGraph) (p : Policy) (name : String) :
    (g.itemType p name).1 = p.rootType ∨
      g.contains (g.itemType p name).1 = true ∧
        ∃ suffix ∈ p.listSuffixes, (g.itemType p name).1.length + suffix.length = name.length := by
  unfold itemType
  dsimp only
  split
  next stem hstem =>
    split
    next hknown =>
      obtain ⟨suffix, hsuffix, hdrop⟩ := List.mem_filterMap.1 (List.mem_of_head? hstem)
      obtain ⟨rest, hrest, rfl⟩ := Option.map_eq_some_iff.1 hdrop
      have hlength := congrArg List.length (Text.dropEnd?_eq_some_iff.1 hrest)
      rw [List.length_append, String.length_toList, String.length_toList] at hlength
      exact Or.inr ⟨hknown, suffix, hsuffix, by rw [String.length_ofList, hlength]⟩
    next => exact Or.inl rfl
  next => exact Or.inl rfl

/-- The element type of a list of the analyzed graph is the root type, or a type of the graph with a
name that is shorter by one of the suffixes. -/
theorem itemType_analyze {p : Policy} {facts : List Fact} {i : Nat} {n : TypeNode}
    (hn : (analyze p facts).1.node? i = some n) (hlist : n.classification.isItemList = true) :
    n.classification.itemType.getD p.rootType = p.rootType ∨
      (analyze p facts).1.contains (n.classification.itemType.getD p.rootType) = true ∧
        ∃ suffix ∈ p.listSuffixes,
          (n.classification.itemType.getD p.rootType).length + suffix.length = n.name.length := by
  obtain ⟨m, hm⟩ := exists_builtAs hn
  have hitem : n.classification.itemType.getD p.rootType =
      ((build p facts).1.itemType p n.name).1 := by
    rw [hm.classification] at hlist ⊢
    have hsubclass : (build p facts).1.isSubclass i p.listRoot = true := hlist
    rw [hm.name]
    simp [classifyNode, hsubclass]
  rw [hitem, contains_analyze]
  exact fst_itemType _ p n.name

end TypeGraph

end VocabularyCompiler
