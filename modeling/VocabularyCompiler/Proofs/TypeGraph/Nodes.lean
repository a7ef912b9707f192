import Mathlib.Data.List.Nodup
import VocabularyCompiler.Proofs.Unseen
import VocabularyCompiler.TypeGraph.Containment

/-!
# The types of a graph

Looking up types by position and by name, and what becomes of the lookups when a type is changed.
A graph whose types differ from those of another one in nothing but whether they are structs has
the same positions, names, parents and properties.
-/

namespace VocabularyCompiler

/-- A type with the mark whether its values are written in place. -/
def TypeNode.withStruct (b : Bool) (n : TypeNode) : TypeNode :=
  { n with classification := { n.classification with representAsStruct := b } }

namespace TypeGraph

/-- The positions are the numbers below the number of types. -/
@[simp]
theorem mem_ids {g : TypeGraph} {i : Nat} : i ∈ g.ids ↔ i < g.size := List.mem_range

/-- A position with a type is below the number of types. -/
theorem lt_size_of_node? {g : TypeGraph} {i : Nat} {n : TypeNode} (h : g.node? i = some n) :
    i < g.size :=
  (List.getElem?_eq_some_iff.1 h).1

/-- No two positions have types of one name. -/
theorem node?_name_inj {g : TypeGraph} {i j : Nat} {m n : TypeNode} (hm : g.node? i = some m)
    (hn : g.node? j = some n) (h : m.name = n.name) : i = j := by
  have hi : i < (g.nodes.map TypeNode.name).length := by
    simpa [size] using lt_size_of_node? hm
  refine (List.getElem?_inj hi g.nodup).1 ?_
  unfold node? at hm hn
  rw [List.getElem?_map, List.getElem?_map, hm, hn, Option.map_some, Option.map_some, h]

/-- The position of a name is where the type of that name is. -/
theorem id?_eq_some_iff {g : TypeGraph} {name : String} {i : Nat} :
    g.id? name = some i ↔ ∃ n, g.node? i = some n ∧ n.name = name := by
  unfold id?
  rw [List.findIdx?_eq_some_iff_getElem]
  constructor
  · rintro ⟨hi, hname, -⟩
    exact ⟨_, List.getElem?_eq_getElem hi, of_decide_eq_true hname⟩
  · rintro ⟨n, hn, hname⟩
    obtain ⟨hi, rfl⟩ := List.getElem?_eq_some_iff.1 hn
    refine ⟨hi, decide_eq_true hname, fun j hj hj' => ?_⟩
    have hne := node?_name_inj (List.getElem?_eq_getElem (Nat.lt_trans hj hi)) hn
      ((of_decide_eq_true hj').trans hname.symm)
    omega

/-- The position of a name is a position. -/
theorem lt_size_of_id? {g : TypeGraph} {name : String} {i : Nat} (h : g.id? name = some i) :
    i < g.size := by
  obtain ⟨n, hn, -⟩ := id?_eq_some_iff.1 h
  exact lt_size_of_node? hn

/-- The type of a name is the one at its position. -/
theorem get?_eq_some_iff {g : TypeGraph} {name : String} {n : TypeNode} :
    g.get? name = some n ↔ (∃ i, g.node? i = some n) ∧ n.name = name := by
  constructor
  · intro h
    refine ⟨List.mem_iff_getElem?.1 (List.mem_of_find?_eq_some h), ?_⟩
    simpa using List.find?_some h
  · rintro ⟨⟨i, hi⟩, hname⟩
    cases h : g.get? name with
    | none =>
      have := List.find?_eq_none.1 h n (List.mem_of_getElem? hi)
      simp [hname] at this
    | some m =>
      have hm : m.name = name := by simpa using List.find?_some h
      obtain ⟨j, hj⟩ := List.mem_iff_getElem?.1 (List.mem_of_find?_eq_some h)
      have hij := node?_name_inj hi hj (hname.trans hm.symm)
      subst hij
      exact (hi.symm.trans hj).symm

/-- A name is in the graph if and only if there is a type of that name. -/
theorem contains_iff {g : TypeGraph} {name : String} :
    g.contains name = true ↔ ∃ n, g.get? name = some n := by
  unfold contains get?
  rw [← Option.isSome_iff_exists, List.find?_isSome, List.any_eq_true]

/-- A name is in the graph if and only if it has a position. -/
theorem contains_eq_isSome_id? (g : TypeGraph) (name : String) :
    g.contains name = (g.id? name).isSome := by
  rw [contains, id?, List.findIdx?_isSome]

/-- The names of all types. -/
def names (g : TypeGraph) : List String := g.nodes.map TypeNode.name

/-- The names are those that the graph contains. -/
theorem mem_names_iff {g : TypeGraph} {name : String} :
    name ∈ g.names ↔ g.contains name = true := by
  simp [names, contains]

/-- There are as many names as types. -/
theorem length_names (g : TypeGraph) : g.names.length = g.size := List.length_map _

/-- There is a name for each type that can be looked up. -/
theorem mem_names_of_get? {g : TypeGraph} {name : String} {n : TypeNode}
    (h : g.get? name = some n) : name ∈ g.names :=
  mem_names_iff.2 (contains_iff.2 ⟨n, h⟩)

/-- There are no more unseen names than types. -/
theorem unseen_names_le (g : TypeGraph) (seen : List String) : unseen g.names seen ≤ g.size :=
  (unseen_le_length _ _).trans_eq g.length_names

/-- There are no more unseen types than types. -/
theorem unseen_ids_le (g : TypeGraph) (seen : List Nat) : unseen g.ids seen ≤ g.size :=
  (unseen_le_length _ _).trans_eq List.length_range

/-- A predicate holds at a position if and only if it holds of the type there. -/
theorem satisfies_iff {g : TypeGraph} {p : TypeNode → Bool} {i : Nat} :
    g.satisfies p i = true ↔ ∃ n, g.node? i = some n ∧ p n = true := by
  simp [satisfies, Option.any_eq_true]

/-- Graphs with the same names at the same positions have the same positions of names. -/
theorem id?_congr {g h : TypeGraph}
    (hname : ∀ i, (g.node? i).map TypeNode.name = (h.node? i).map TypeNode.name) :
    g.id? = h.id? := by
  funext name
  refine Option.ext fun i => ?_
  have hiff : ∀ f : TypeGraph, f.id? name = some i ↔ (f.node? i).map TypeNode.name = some name :=
    fun f => by rw [id?_eq_some_iff, Option.map_eq_some_iff]
  rw [hiff, hiff, hname]

/-- Graphs whose types declare the same parents have the same names of parents. -/
theorem parentNames_congr {g h : TypeGraph}
    (hparents : ∀ i, (g.node? i).map TypeNode.parents = (h.node? i).map TypeNode.parents) :
    g.parentNames = h.parentNames := by
  funext i
  have heq : ∀ f : TypeGraph, f.parentNames i = ((f.node? i).map TypeNode.parents).getD [] :=
    fun f => by cases hn : f.node? i <;> simp [parentNames, hn]
  rw [heq, heq, hparents]

/-- The type at a position after a change. -/
theorem node?_modify (g : TypeGraph) (i j : Nat) (f : TypeNode → TypeNode)
    (h : ∀ n, (f n).name = n.name) :
    (g.modify i f h).node? j = if i = j then (g.node? j).map f else g.node? j := by
  simp only [node?, modify, List.getElem?_modify]
  split <;> simp

/-- The structs of a graph, as a set of positions. -/
abbrev IsStruct (g : TypeGraph) (i : Nat) : Prop := g.isStruct i = true

/-- Graphs with types that differ in nothing but whether they are structs. -/
def SameButStructs (g h : TypeGraph) : Prop :=
  g.nodes.map (TypeNode.withStruct false) = h.nodes.map (TypeNode.withStruct false)

namespace SameButStructs

variable {f g h : TypeGraph}

theorem refl (g : TypeGraph) : g.SameButStructs g := rfl

theorem trans (hf : f.SameButStructs g) (hg : g.SameButStructs h) : f.SameButStructs h :=
  Eq.trans hf hg

/-- A property of types that does not depend on whether they are structs is the same at each
position. -/
theorem map_node? {α : Type _} (hg : g.SameButStructs h) (k : TypeNode → α)
    (hk : ∀ n, k (n.withStruct false) = k n) (i : Nat) :
    (g.node? i).map k = (h.node? i).map k := by
  have hnodes : g.nodes.map k = h.nodes.map k := by
    have hcomp : k = k ∘ TypeNode.withStruct false := funext fun n => (hk n).symm
    rw [hcomp, ← List.map_map, ← List.map_map, hg]
  rw [node?, node?, ← List.getElem?_map, ← List.getElem?_map, hnodes]

/-- The number of types is the same. -/
theorem size_eq (hg : g.SameButStructs h) : g.size = h.size := by
  simpa [size] using congrArg List.length hg

/-- The positions of names are the same. -/
theorem id?_eq (hg : g.SameButStructs h) : g.id? = h.id? :=
  id?_congr (hg.map_node? TypeNode.name fun _ => rfl)

/-- The names at all positions are the same. -/
theorem nameOf_eq (hg : g.SameButStructs h) : g.nameOf = h.nameOf := by
  funext i
  have hname := hg.map_node? TypeNode.name (fun _ => rfl) i
  have heq : ∀ f : TypeGraph, f.nameOf i = ((f.node? i).map TypeNode.name).getD "" :=
    fun f => by cases hn : f.node? i <;> simp [nameOf, hn]
  rw [heq, heq, hname]

/-- The names of parents are the same. -/
theorem parentNames_eq (hg : g.SameButStructs h) : g.parentNames = h.parentNames :=
  parentNames_congr (hg.map_node? TypeNode.parents fun _ => rfl)

/-- The parents are the same. -/
theorem parents_eq (hg : g.SameButStructs h) : g.parents = h.parents := by
  funext i
  rw [parents, parents, hg.parentNames_eq, hg.id?_eq]

end SameButStructs

/-- Marking a type in another way changes nothing else. -/
theorem sameButStructs_demote (g : TypeGraph) (i : Nat) : (g.demote i).SameButStructs g := by
  apply List.ext_getElem?
  intro j
  have hj := g.node?_modify i j (TypeNode.withStruct false) fun _ => rfl
  simp only [node?] at hj
  rw [List.getElem?_map, List.getElem?_map]
  change Option.map _ ((g.modify i (TypeNode.withStruct false) fun _ => rfl).nodes[j]?) = _
  rw [hj]
  split
  · rw [Option.map_map]
    rfl
  · rfl

/-- After the demotion of a type, the structs are the other structs. -/
theorem isStruct_demote_iff (g : TypeGraph) (i j : Nat) :
    (g.demote i).IsStruct j ↔ g.IsStruct j ∧ j ≠ i := by
  have hj : (g.demote i).node? j = _ := g.node?_modify i j (TypeNode.withStruct false) fun _ => rfl
  unfold IsStruct isStruct satisfies
  rw [hj]
  by_cases hij : i = j
  · subst hij
    cases g.node? i <;> simp [TypeNode.withStruct]
  · simp [hij, Ne.symm hij]

end TypeGraph

end VocabularyCompiler
