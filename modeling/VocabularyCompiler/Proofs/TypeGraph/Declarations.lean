import VocabularyCompiler.Proofs.TypeGraph.Analysis
import VocabularyCompiler.Proofs.TypeGraph.StructProperties

/-!
# Properties stand under their names

A type keeps its properties in a map from their names, and every property that it declares has the
name that it stands under. The facts of a graph keep it that way, and so does the walk that collects
the properties of a struct, which therefore collects no two of one name.
-/

namespace VocabularyCompiler.TypeGraph

/-- Every property has the name that it stands under. -/
def KeyedByName (m : OrderedMap String PropertyDecl) : Prop := ∀ e ∈ m.entries, e.2.name = e.1

/-- A property may be set under its name. -/
theorem KeyedByName.insert {m : OrderedMap String PropertyDecl} (h : KeyedByName m) {name : String}
    {decl : PropertyDecl} (hname : decl.name = name) : KeyedByName (m.insert name decl) := by
  rintro ⟨k, d⟩ he
  rw [← OrderedMap.get?_eq_some_iff, OrderedMap.get?_insert] at he
  split at he
  next hk =>
    cases he
    exact hname.trans hk
  next => exact h _ (OrderedMap.get?_eq_some_iff.1 he)

/-- The properties of every type stand under their names. -/
def DeclaresByName (g : TypeGraph) : Prop :=
  ∀ i n, g.node? i = some n → KeyedByName n.properties

namespace DeclaresByName

variable {g : TypeGraph}

/-- A change of a type that keeps its properties under their names keeps those of the graph. -/
theorem modify (hg : g.DeclaresByName) {i : Nat} {f : TypeNode → TypeNode}
    (hf : ∀ n, KeyedByName n.properties → KeyedByName (f n).properties)
    {hname : ∀ n, (f n).name = n.name} :
    (g.modify i f hname).DeclaresByName := by
  intro j n hn
  rw [node?_modify] at hn
  split at hn
  · obtain ⟨m, hm, rfl⟩ := Option.map_eq_some_iff.1 hn
    exact hf m (hg j m hm)
  · exact hg j n hn

/-- A new type declares nothing. -/
theorem ensure (hg : g.DeclaresByName) (name : String) : (g.ensure name).DeclaresByName := by
  unfold TypeGraph.ensure
  split
  · exact hg
  · intro j n hn
    rcases List.mem_append.1 (List.mem_of_getElem? hn) with hn | hn
    · obtain ⟨i, hi⟩ := List.mem_iff_getElem?.1 hn
      exact hg i n hi
    · obtain rfl := List.mem_singleton.1 hn
      rintro e ⟨⟩

/-- A declaration stands under the name of its property. -/
theorem addDeclaration (hg : g.DeclaresByName) (decl : PropertyDecl) (domain : String) :
    (Draft.addDeclaration decl g domain).DeclaresByName := by
  unfold Draft.addDeclaration
  dsimp only
  split
  · exact (hg.ensure domain).modify fun n hn => hn.insert rfl
  · exact hg.ensure domain

/-- No fact puts a property under another name. -/
theorem add {d : Draft} (hd : d.graph.DeclaresByName) (p : Policy) (fact : Fact) :
    (d.add p fact).graph.DeclaresByName := by
  unfold Draft.add
  split
  · exact hd
  split
  · exact hd
  cases fact with
  | literalFact name enumType superseded => exact hd
  | propertyFact name domains ranges comment superseded =>
    dsimp only
    split
    · exact hd
    · exact List.foldlRecOn _ (Draft.addDeclaration ⟨name, ranges, comment⟩) hd
        fun g hg domain _ => hg.addDeclaration _ domain
  | classFact name parents comment superseded =>
    dsimp only [Draft.addClass]
    split
    · dsimp only
      refine (hd.ensure name).modify fun _ hn => ?_
      exact hn
    · exact hd.ensure name

/-- Literals are no properties. -/
theorem attach {d : Draft} (hd : d.graph.DeclaresByName) (e : String × OrderedSet String) :
    (d.attach e).graph.DeclaresByName := by
  unfold Draft.attach
  split
  · dsimp only [setLiterals]
    refine hd.modify fun _ hn => ?_
    exact hn
  · exact hd

end DeclaresByName

/-- The properties of the types of a built graph stand under their names. -/
theorem declaresByName_build (p : Policy) (facts : List Fact) :
    (build p facts).1.DeclaresByName := by
  have hempty : ({} : Draft).graph.DeclaresByName := by
    intro i n hn
    simp [node?, EmptyCollection.emptyCollection, empty] at hn
  have hfacts : (facts.foldl (Draft.add p) {}).graph.DeclaresByName :=
    List.foldlRecOn facts (Draft.add p) (motive := fun d => d.graph.DeclaresByName) hempty
      fun _ hd fact _ => hd.add p fact
  exact List.foldlRecOn _ Draft.attach (motive := fun d => d.graph.DeclaresByName) hfacts
    fun _ hd e _ => hd.attach e

/-- The properties of the types of an analyzed graph stand under their names. -/
theorem declaresByName_analyze (p : Policy) (facts : List Fact) :
    (analyze p facts).1.DeclaresByName := by
  intro i n hn
  obtain ⟨m, hm⟩ := exists_builtAs hn
  rw [hm.properties]
  exact declaresByName_build p facts i m hm.built

/-! ## The properties of a struct -/

variable {g : TypeGraph} {p : Policy}

/-- Properties that are added to a collection stand under their names. -/
theorem keyedByName_add {c : Collection} {n : TypeNode} (hc : KeyedByName c.properties)
    (hn : KeyedByName n.properties) : KeyedByName (c.add n).properties := by
  refine List.foldlRecOn n.properties.entries _ (motive := KeyedByName) hc fun m hm e he => ?_
  split
  · exact hm
  · exact hm.insert (hn e he)

/-- Properties are collected under their names. -/
theorem keyedByName_collect (hg : g.DeclaresByName) (everything : Bool) (k : Nat) (c : Collection)
    (name : String) (hc : KeyedByName c.properties) :
    KeyedByName (g.collect p everything k c name).properties := by
  induction k generalizing c name with
  | zero => exact hc
  | succ k ih =>
    have hwalk := g.walks_collect p everything k c name
    generalize g.collect p everything (k + 1) c name = c' at hwalk ⊢
    have hadd : ∀ node, g.Contributes everything name node →
        KeyedByName ((c.visit name).add node).properties := fun node hnode =>
      keyedByName_add (c := c.visit name) hc
        ((get?_eq_some_iff.1 hnode.found).1.elim fun i hi => hg i node hi)
    cases hwalk with
    | unknown | again | pass => exact hc
    | stop _ hnode => exact hadd _ hnode
    | @climb node _ hnode =>
      exact List.foldlRecOn node.parents _ (motive := fun c => KeyedByName c.properties)
        (hadd node hnode) fun c hc parent _ => ih c parent hc

/-- No two properties of a struct have one name. -/
theorem nodup_structProperties (hg : g.DeclaresByName) (name : String) :
    ((g.structProperties p name).map PropertyDecl.name).Nodup := by
  have hkeyed := keyedByName_collect (p := p) hg (p.structIncludeRootProperties.contains name)
    (g.size + 1) {} name (by rintro e ⟨⟩)
  unfold structProperties OrderedMap.values
  generalize g.collect p _ _ _ _ = c at hkeyed ⊢
  have hnames : c.properties.entries.map (PropertyDecl.name ∘ Prod.snd) =
      c.properties.entries.map Prod.fst := List.map_congr_left hkeyed
  rw [List.map_map, hnames]
  exact c.properties.nodup

end VocabularyCompiler.TypeGraph
