import VocabularyCompiler.Lowering.StructFields
import VocabularyCompiler.Proofs.TypeGraph.Analysis
import VocabularyCompiler.TypeGraph.Emission

/-!
# What the policy leaves out of a graph

Types and properties that the policy leaves out never come into the graph, and neither does what is
superseded. All that is left of them are the names of types among the ranges of properties.
`narrow` takes these names out of a graph. Main statement: the graph of some facts without the
ranges that are left out is the graph of the facts that remain (`fst_analyze_purge`).

The proof goes through the stages of the analysis. The first builds the graph fact by fact, so there
it is an invariant of two runs side by side (`Narrows`). The later stages see ranges only where they
look them up, and find nothing under a name that is left out.
-/

namespace VocabularyCompiler

/-! ## Without what is left out -/

/-- Names without those of the types that the policy leaves out. -/
def Policy.keep (p : Policy) (names : List String) : List String :=
  names.filter fun name => !p.excludedTypes.contains name

/-- A property without the ranges that the policy leaves out. -/
def PropertyDecl.narrow (p : Policy) (decl : PropertyDecl) : PropertyDecl :=
  { decl with ranges := p.keep decl.ranges }

/-- A type with its properties narrowed. -/
def TypeNode.narrow (p : Policy) (n : TypeNode) : TypeNode :=
  { n with properties := n.properties.mapWithKey fun _ decl => decl.narrow p }

/-- A graph with its types narrowed. -/
def TypeGraph.narrow (p : Policy) (g : TypeGraph) : TypeGraph where
  nodes := g.nodes.map (TypeNode.narrow p)
  nodup := by
    rw [List.map_map]
    exact g.nodup

namespace Fact

/-- A fact does not count: something newer stands in for it, it has the name of a type that is built
in or left out, or it is a property that is left out. -/
def isLeftOut (p : Policy) (fact : Fact) : Bool :=
  fact.isSuperseded || p.isBuiltin fact.name || p.excludedTypes.contains fact.name ||
    match fact with
    | propertyFact name .. => p.excludedProperties.contains name
    | _ => false

/-- A fact that mentions no type that is left out among its parents, domains and ranges. -/
def narrow (p : Policy) : Fact → Fact
  | classFact name parents comment superseded =>
    classFact name (p.keep parents) comment superseded
  | propertyFact name domains ranges comment superseded =>
    propertyFact name (p.keep domains) (p.keep ranges) comment superseded
  | literalFact name enumType superseded => literalFact name enumType superseded

/-- The facts that count, without mention of what is left out. -/
def purge (p : Policy) (facts : List Fact) : List Fact :=
  (facts.filter fun fact => !fact.isLeftOut p).map (narrow p)

end Fact

namespace TypeGraph

variable {p : Policy} {g h : TypeGraph}

/-! ## Looking up types in a narrowed graph -/

/-- Graphs with the same types are the same. -/
theorem eq_of_nodes_eq (hnodes : g.nodes = h.nodes) : g = h := by
  cases g
  cases h
  cases hnodes
  rfl

/-- Graphs with the same types at the same positions are the same. -/
theorem eq_of_node?_eq (hnode : ∀ i, g.node? i = h.node? i) : g = h :=
  eq_of_nodes_eq (List.ext_getElem? hnode)

@[simp]
theorem node?_narrow (p : Policy) (g : TypeGraph) (i : Nat) :
    (g.narrow p).node? i = (g.node? i).map (TypeNode.narrow p) := List.getElem?_map

@[simp]
theorem size_narrow (p : Policy) (g : TypeGraph) : (g.narrow p).size = g.size := List.length_map _

@[simp]
theorem get?_narrow (p : Policy) (g : TypeGraph) (name : String) :
    (g.narrow p).get? name = (g.get? name).map (TypeNode.narrow p) := by
  unfold get? narrow
  rw [List.find?_map]
  rfl

/-- What does not depend on the properties of types is the same in the narrowed graph. -/
theorem map_node?_narrow {α : Type} {f : TypeNode → α} (hf : ∀ n, f (n.narrow p) = f n) (i : Nat) :
    ((g.narrow p).node? i).map f = (g.node? i).map f := by
  rw [node?_narrow, Option.map_map]
  exact congrArg (Option.map · (g.node? i)) (funext hf)

/-- The positions of names are the same. -/
@[simp]
theorem id?_narrow (p : Policy) (g : TypeGraph) : (g.narrow p).id? = g.id? :=
  id?_congr (map_node?_narrow fun _ => rfl)

/-- The names of parents are the same. -/
@[simp]
theorem parentNames_narrow (p : Policy) (g : TypeGraph) :
    (g.narrow p).parentNames = g.parentNames :=
  parentNames_congr (map_node?_narrow fun _ => rfl)

/-- The parents are the same. -/
@[simp]
theorem parents_narrow (p : Policy) (g : TypeGraph) : (g.narrow p).parents = g.parents := by
  funext i
  rw [parents, parents, parentNames_narrow, id?_narrow]

/-- The ancestors are the same. -/
@[simp]
theorem ancestors_narrow (p : Policy) (g : TypeGraph) : (g.narrow p).ancestors = g.ancestors :=
  ancestors_congr (size_narrow p g) (parents_narrow p g)

/-- The types that a type extends are the same. -/
@[simp]
theorem isSubclass_narrow (p : Policy) (g : TypeGraph) :
    (g.narrow p).isSubclass = g.isSubclass := by
  funext i name
  have hextends : (g.narrow p).Extends = g.Extends := by
    unfold Extends
    rw [parents_narrow]
  rw [Bool.eq_iff_iff, isSubclass_iff, isSubclass_iff, hextends, parentNames_narrow]

/-- The names that a graph contains are the same. -/
@[simp]
theorem contains_narrow (p : Policy) (g : TypeGraph) : (g.narrow p).contains = g.contains := by
  funext name
  rw [Bool.eq_iff_iff, contains_iff, contains_iff, get?_narrow]
  cases g.get? name <;> simp

/-- What does not depend on the properties of types is satisfied at the same positions. -/
theorem satisfies_narrow {q : TypeNode → Bool} (hq : ∀ n, q (n.narrow p) = q n) :
    (g.narrow p).satisfies q = g.satisfies q := by
  funext i
  rw [satisfies, satisfies, node?_narrow]
  cases g.node? i with
  | none => rfl
  | some n => exact hq n

/-- The structs are the same. -/
@[simp]
theorem isStruct_narrow (p : Policy) (g : TypeGraph) : (g.narrow p).isStruct = g.isStruct :=
  satisfies_narrow fun _ => rfl

/-- The enumerations are the same. -/
@[simp]
theorem isEnum_narrow (p : Policy) (g : TypeGraph) : (g.narrow p).isEnum = g.isEnum :=
  satisfies_narrow fun _ => rfl

/-! ## Building a narrowed graph -/

/-- A change of a type that goes with narrowing can be made before or after it. -/
theorem narrow_modify {i : Nat} {f f' : TypeNode → TypeNode} (hf : ∀ n, (f n).name = n.name)
    (hf' : ∀ n, (f' n).name = n.name) (hnarrow : ∀ n, f' (n.narrow p) = (f n).narrow p) :
    (g.modify i f hf).narrow p = (g.narrow p).modify i f' hf' := by
  refine eq_of_node?_eq fun j => ?_
  rw [node?_narrow, node?_modify, node?_modify, node?_narrow]
  split
  · rw [Option.map_map, Option.map_map]
    exact congrArg (Option.map · (g.node? j)) (funext fun n => (hnarrow n).symm)
  · rfl

/-- The types with one of a given name: a new one goes to the end. -/
theorem nodes_ensure (g : TypeGraph) (name : String) :
    (g.ensure name).nodes =
      if name ∈ g.names then g.nodes else g.nodes ++ [{ name := name }] := by
  unfold ensure names
  split <;> rfl

/-- The names with a given one: a new one goes to the end. -/
theorem names_ensure (g : TypeGraph) (name : String) :
    (g.ensure name).names = if name ∈ g.names then g.names else g.names ++ [name] := by
  rw [names, nodes_ensure]
  split
  · rfl
  · exact List.map_append

/-- A change of a type leaves its name. -/
theorem names_modify (g : TypeGraph) (i : Nat) (f : TypeNode → TypeNode)
    (hf : ∀ n, (f n).name = n.name) : (g.modify i f hf).names = g.names := by
  refine List.ext_getElem? fun j => ?_
  have hnode := congrArg (Option.map TypeNode.name) (g.node?_modify i j f hf)
  unfold node? at hnode
  rw [names, names, List.getElem?_map, List.getElem?_map, hnode]
  split
  · rw [Option.map_map]
    exact congrArg (Option.map · g.nodes[j]?) (funext hf)
  · rfl

/-- The names are the same. -/
@[simp]
theorem names_narrow (p : Policy) (g : TypeGraph) : (g.narrow p).names = g.names := List.map_map

/-- A type can be brought into being before or after the others are narrowed. -/
theorem narrow_ensure (name : String) : (g.ensure name).narrow p = (g.narrow p).ensure name := by
  refine eq_of_nodes_eq ?_
  change (g.ensure name).nodes.map _ = _
  rw [nodes_ensure, nodes_ensure, names_narrow]
  split
  · rfl
  · exact List.map_append

/-- A property can be declared before or after it is narrowed. -/
theorem narrow_addDeclaration (decl : PropertyDecl) (domain : String) :
    (Draft.addDeclaration decl g domain).narrow p =
      Draft.addDeclaration (decl.narrow p) (g.narrow p) domain := by
  unfold Draft.addDeclaration
  dsimp only
  rw [← narrow_ensure, id?_narrow]
  split
  · refine narrow_modify _ _ fun n => ?_
    simp only [TypeNode.narrow, OrderedMap.mapWithKey_insert, PropertyDecl.narrow]
  · rfl

/-- Names that are kept are kept again. -/
theorem keep_keep (p : Policy) (names : List String) : p.keep (p.keep names) = p.keep names := by
  simp [Policy.keep, List.filter_filter]

/-- A graph under construction that differs from another one in nothing but what is left out. -/
structure Narrows (p : Policy) (d d' : Draft) : Prop where
  graph : d'.graph = d.graph.narrow p
  literals : d'.literals = d.literals

/-- A fact that does not count leaves the graph as it is. -/
theorem add_of_isLeftOut {d : Draft} {fact : Fact} (h : fact.isLeftOut p = true) :
    (d.add p fact).graph = d.graph ∧ (d.add p fact).literals = d.literals := by
  unfold Draft.add
  split
  next => exact ⟨rfl, rfl⟩
  next hkeeps =>
    split
    next => exact ⟨rfl, rfl⟩
    next hsuperseded =>
      -- What is left is a property that the policy leaves out.
      have hname : p.isBuiltin fact.name = false ∧ p.excludedTypes.contains fact.name = false := by
        simpa [Draft.keepsType] using hkeeps
      unfold Fact.isLeftOut at h
      rw [Bool.not_eq_true] at hsuperseded
      rw [hsuperseded, hname.1, hname.2] at h
      cases fact with
      | classFact => cases h
      | literalFact => cases h
      | propertyFact name domains ranges comment superseded =>
        have hexcluded : p.excludedProperties.contains name = true := h
        dsimp only
        rw [if_pos hexcluded]
        exact ⟨rfl, rfl⟩

/-- The parents of a class do not depend on the mention of what is left out. -/
theorem parentsOf_keep (name : String) (parents : List String) :
    Draft.parentsOf p name (p.keep parents) = Draft.parentsOf p name parents := by
  have hkeep : (p.keep parents).filter (fun q => !p.excludedTypes.contains q) =
      parents.filter fun q => !p.excludedTypes.contains q := keep_keep p parents
  unfold Draft.parentsOf
  rw [hkeep]

/-- The domains of a property that are types do not depend on the mention of what is left out. -/
theorem filter_keepsType_keep (names : List String) :
    (p.keep names).filter (Draft.keepsType p) = names.filter (Draft.keepsType p) := by
  rw [Policy.keep, List.filter_filter]
  refine List.filter_congr fun name _ => ?_
  unfold Draft.keepsType
  cases p.excludedTypes.contains name <;> simp

/-- A fact that counts adds the same to both graphs. -/
theorem Narrows.add {d d' : Draft} (hd : Narrows p d d') {fact : Fact}
    (h : fact.isLeftOut p = false) : Narrows p (d.add p fact) (d'.add p (fact.narrow p)) := by
  have hname : (fact.narrow p).name = fact.name := by cases fact <;> rfl
  have hsuperseded : (fact.narrow p).isSuperseded = fact.isSuperseded := by cases fact <;> rfl
  -- Whether a fact is passed over depends on its name and its mark alone.
  unfold Draft.add
  rw [hname, hsuperseded]
  split
  · exact hd
  split
  · exact ⟨hd.graph, hd.literals⟩
  cases fact with
  | literalFact name enumType superseded =>
    refine ⟨hd.graph, ?_⟩
    simp only [Fact.narrow, Draft.addLiteral, hd.literals]
  | propertyFact name domains ranges comment superseded =>
    dsimp only [Fact.narrow]
    split
    · exact hd
    · refine ⟨?_, hd.literals⟩
      unfold Draft.addProperty
      rw [filter_keepsType_keep, hd.graph]
      exact List.foldl_hom (narrow p) fun g domain =>
        (narrow_addDeclaration ⟨name, ranges, comment⟩ domain).symm
  | classFact name parents comment superseded =>
    dsimp only [Fact.narrow]
    unfold Draft.addClass
    dsimp only
    rw [hd.graph, ← narrow_ensure, id?_narrow, parentsOf_keep]
    split
    · refine ⟨?_, hd.literals⟩
      symm
      refine narrow_modify ?_ ?_ fun _ => rfl
      all_goals exact fun _ => rfl
    · exact ⟨rfl, hd.literals⟩

/-- Facts add the same to both graphs, once what does not count is taken out of one of them. -/
theorem Narrows.foldl_add {d d' : Draft} (hd : Narrows p d d') (facts : List Fact) :
    Narrows p (facts.foldl (Draft.add p) d) ((Fact.purge p facts).foldl (Draft.add p) d') := by
  induction facts generalizing d d' with
  | nil => exact hd
  | cons fact rest ih =>
    unfold Fact.purge
    rw [List.foldl_cons, List.filter_cons]
    cases h : fact.isLeftOut p with
    | true =>
      obtain ⟨hgraph, hliterals⟩ := add_of_isLeftOut (d := d) h
      exact ih ⟨hd.graph.trans (congrArg _ hgraph.symm), hd.literals.trans hliterals.symm⟩
    | false => exact ih (hd.add h)

/-- Literals can be given to a type before or after it is narrowed. -/
theorem Narrows.attach {d d' : Draft} (hd : Narrows p d d') (e : String × OrderedSet String) :
    Narrows p (d.attach e) (d'.attach e) := by
  unfold Draft.attach
  rw [hd.graph, id?_narrow]
  split
  · refine ⟨?_, hd.literals⟩
    symm
    refine narrow_modify ?_ ?_ fun _ => rfl
    all_goals exact fun _ => rfl
  · exact ⟨rfl, hd.literals⟩

/-- The graph of the facts that count is the graph of all facts, narrowed. -/
theorem fst_build_purge (p : Policy) (facts : List Fact) :
    (build p (Fact.purge p facts)).1 = (build p facts).1.narrow p := by
  have hempty : Narrows p {} {} := ⟨eq_of_nodes_eq rfl, rfl⟩
  have hfacts := hempty.foldl_add facts
  have hliterals : ∀ (entries : List (String × OrderedSet String)) (d d' : Draft),
      Narrows p d d' →
        Narrows p (entries.foldl Draft.attach d) (entries.foldl Draft.attach d') := by
    intro entries
    induction entries with
    | nil => exact fun _ _ hd => hd
    | cons e rest ih => exact fun _ _ hd => ih _ _ (hd.attach e)
  unfold build
  dsimp only
  rw [hfacts.literals]
  exact (hliterals _ _ _ hfacts).graph

/-! ## Analyzing a narrowed graph -/

/-- The kind of a type does not depend on the ranges of properties. -/
theorem classifyNode_narrow (i : Nat) (n : TypeNode) :
    (g.narrow p).classifyNode p i (n.narrow p) = g.classifyNode p i n := by
  unfold classifyNode itemType
  simp only [isSubclass_narrow, contains_narrow]
  rfl

/-- A graph can be classified before or after it is narrowed. -/
theorem fst_classify_narrow (p : Policy) (g : TypeGraph) :
    ((g.narrow p).classify p).1 = (g.classify p).1.narrow p := by
  refine eq_of_node?_eq fun i => ?_
  rw [node?_classify, node?_narrow, node?_narrow, node?_classify, Option.map_map, Option.map_map]
  refine congrArg (Option.map · (g.node? i)) (funext fun n => ?_)
  simp only [Function.comp_apply, classifyNode_narrow]
  rfl

/-- No type has a name that the policy leaves out. -/
def Forgets (p : Policy) (g : TypeGraph) : Prop :=
  ∀ name, p.excludedTypes.contains name = true → g.id? name = none

/-- What a type contains are types of the graph, so it does not depend on what is left out. -/
theorem contains_narrow_eq (hg : g.Forgets p) (S : Nat → Prop) :
    (g.narrow p).Contains p S = g.Contains p S := by
  funext t u
  -- A range under which there is a type is not one that is left out.
  have hkeep : ∀ {ranges : List String} {range : String}, g.id? range = some u →
      (range ∈ p.keep ranges ↔ range ∈ ranges) := by
    intro ranges range hid
    have hkept : p.excludedTypes.contains range = false := by
      rw [Bool.eq_false_iff]
      intro hout
      cases (hg range hout).symm.trans hid
    simp [Policy.keep, List.mem_filter, hkept]
  unfold Contains
  rw [node?_narrow, id?_narrow, eq_iff_iff]
  constructor
  · rintro ⟨m, hm, decl, hdecl, range, hrange, hbuiltin, hid, hu⟩
    obtain ⟨n, hn, rfl⟩ := Option.map_eq_some_iff.1 hm
    obtain ⟨e, he, rfl⟩ := List.mem_map.1 hdecl
    obtain ⟨e', he', rfl⟩ := List.mem_map.1 he
    exact ⟨n, hn, e'.2, List.mem_map_of_mem he', range, (hkeep hid).1 hrange, hbuiltin, hid, hu⟩
  · rintro ⟨n, hn, decl, hdecl, range, hrange, hbuiltin, hid, hu⟩
    refine ⟨n.narrow p, by rw [hn]; rfl, decl.narrow p, ?_, range, (hkeep hid).2 hrange, hbuiltin,
      hid, hu⟩
    obtain ⟨e, he, rfl⟩ := List.mem_map.1 hdecl
    exact List.mem_map_of_mem (List.mem_map_of_mem he)

/-- The survivors of the first pass are the same. -/
theorem surviving_narrow (hg : g.Forgets p) (k : Nat) :
    (g.narrow p).Surviving p k = g.Surviving p k := by
  induction k with
  | zero =>
    funext i
    unfold Surviving IsStruct
    rw [isStruct_narrow]
  | succ k ih =>
    unfold Surviving
    rw [ih, isEnum_narrow, contains_narrow_eq hg]

/-- Graphs that differ in nothing, not even in which types are structs, are the same. -/
theorem SameButStructs.eq_of_isStruct (hsame : g.SameButStructs h)
    (hstruct : ∀ i, g.IsStruct i ↔ h.IsStruct i) : g = h := by
  refine eq_of_node?_eq fun i => ?_
  have hnode := hsame.map_node? (TypeNode.withStruct false) (fun _ => rfl) i
  have hmark := hstruct i
  unfold IsStruct isStruct satisfies at hmark
  cases hm : g.node? i with
  | none =>
    rw [hm, Option.map_none, eq_comm, Option.map_eq_none_iff] at hnode
    exact hnode.symm
  | some m =>
    rw [hm, Option.map_some, eq_comm, Option.map_eq_some_iff] at hnode
    obtain ⟨n, hn, hmn⟩ := hnode
    rw [hm, hn, Option.any_some, Option.any_some, ← Bool.eq_iff_iff] at hmark
    rw [hn]
    -- The two types differ in nothing but the mark, and not in the mark either.
    have hrestore : ∀ n : TypeNode,
        (n.withStruct false).withStruct n.classification.representAsStruct = n := fun _ => rfl
    rw [← hrestore m, ← hrestore n, hmn, hmark]

/-- What differs in nothing but which types are structs differs in nothing more once it is
narrowed. -/
theorem SameButStructs.narrow (hsame : g.SameButStructs h) :
    (g.narrow p).SameButStructs (h.narrow p) := by
  have hcomm : ∀ n : TypeNode, (n.narrow p).withStruct false = (n.withStruct false).narrow p :=
    fun _ => rfl
  unfold SameButStructs TypeGraph.narrow
  rw [List.map_map, List.map_map, Function.comp_def]
  simp only [hcomm]
  rw [← Function.comp_def, ← List.map_map, ← List.map_map, hsame]

/-- The cycles of a graph can be resolved before or after it is narrowed. -/
theorem fst_resolveCycles_narrow (hg : g.Forgets p) :
    ((g.narrow p).resolveCycles p).1 = (g.resolveCycles p).1.narrow p := by
  obtain ⟨hsame, hstruct⟩ := g.isStruct_resolveCycles_iff p
  obtain ⟨hsame', hstruct'⟩ := (g.narrow p).isStruct_resolveCycles_iff p
  -- Resolving changes nothing but the marks of structs, and it leaves them to the same types.
  refine (hsame'.trans hsame.narrow.symm).eq_of_isStruct fun i => ?_
  rw [hstruct', surviving_narrow hg, size_narrow, ancestors_narrow, ← hstruct]
  unfold IsStruct
  rw [isStruct_narrow]

/-! ## Names that are kept -/

/-- All types have names that are kept. -/
def KeepsTypes (p : Policy) (g : TypeGraph) : Prop :=
  ∀ name ∈ g.names, Draft.keepsType p name = true

namespace KeepsTypes

/-- A new type may have any name that is kept. -/
theorem ensure (hg : g.KeepsTypes p) {name : String} (hname : Draft.keepsType p name = true) :
    (g.ensure name).KeepsTypes p := by
  intro other hother
  rw [names_ensure] at hother
  split at hother
  · exact hg other hother
  · rcases List.mem_append.1 hother with hother | hother
    · exact hg other hother
    · rw [List.mem_singleton.1 hother]
      exact hname

/-- A change of a type leaves its name. -/
theorem modify (hg : g.KeepsTypes p) {i : Nat} {f : TypeNode → TypeNode}
    {hf : ∀ n, (f n).name = n.name} : (g.modify i f hf).KeepsTypes p := by
  unfold KeepsTypes
  rw [names_modify]
  exact hg

/-- A declaration goes to a domain that is kept. -/
theorem addDeclaration (hg : g.KeepsTypes p) (decl : PropertyDecl) {domain : String}
    (hdomain : Draft.keepsType p domain = true) :
    (Draft.addDeclaration decl g domain).KeepsTypes p := by
  unfold Draft.addDeclaration
  dsimp only
  split
  · exact (hg.ensure hdomain).modify
  · exact hg.ensure hdomain

/-- No fact brings in a type that is not kept. -/
theorem add {d : Draft} (hd : d.graph.KeepsTypes p) (fact : Fact) :
    (d.add p fact).graph.KeepsTypes p := by
  unfold Draft.add
  split
  next => exact hd
  next hkeeps =>
    have hname : Draft.keepsType p fact.name = true := by simpa using hkeeps
    split
    · exact hd
    cases fact with
    | literalFact name enumType superseded => exact hd
    | propertyFact name domains ranges comment superseded =>
      dsimp only
      split
      · exact hd
      · exact List.foldlRecOn _ (Draft.addDeclaration ⟨name, ranges, comment⟩) hd
          fun g hg domain hdomain => hg.addDeclaration _ (List.mem_filter.1 hdomain).2
    | classFact name parents comment superseded =>
      dsimp only [Draft.addClass]
      split
      · dsimp only
        exact KeepsTypes.modify (hd.ensure hname)
      · exact hd.ensure hname

/-- Literals bring in no type. -/
theorem attach {d : Draft} (hd : d.graph.KeepsTypes p) (e : String × OrderedSet String) :
    (d.attach e).graph.KeepsTypes p := by
  unfold Draft.attach
  split
  · dsimp only [setLiterals]
    exact hd.modify
  · exact hd

end KeepsTypes

/-- A built graph has no type that is not kept. -/
theorem keepsTypes_build (p : Policy) (facts : List Fact) : (build p facts).1.KeepsTypes p := by
  have hempty : ({} : Draft).graph.KeepsTypes p := List.forall_mem_nil _
  have hfacts : (facts.foldl (Draft.add p) {}).graph.KeepsTypes p :=
    List.foldlRecOn facts (Draft.add p) (motive := fun d => d.graph.KeepsTypes p) hempty
      fun _ hd fact _ => hd.add fact
  exact List.foldlRecOn _ Draft.attach (motive := fun d => d.graph.KeepsTypes p) hfacts
    fun _ hd e _ => hd.attach e

/-- A graph whose types all have names that are kept has none under a name that is left out. -/
theorem KeepsTypes.forgets (hg : g.KeepsTypes p) : g.Forgets p := by
  intro name hout
  cases hid : g.id? name with
  | none => rfl
  | some i =>
    obtain ⟨n, hn, hname⟩ := id?_eq_some_iff.1 hid
    have hkeeps := hg n.name (List.mem_map_of_mem (List.mem_of_getElem? hn))
    unfold Draft.keepsType at hkeeps
    rw [hname, hout, Bool.not_true, Bool.and_false] at hkeeps
    cases hkeeps

/-- The analyzed graph has no type under a name that is left out. -/
theorem forgets_analyze (p : Policy) (facts : List Fact) : (analyze p facts).1.Forgets p := by
  unfold Forgets
  rw [id?_analyze]
  exact (keepsTypes_build p facts).forgets

/-- The analyzed graph of the facts that count is the analyzed graph of all facts, narrowed. -/
theorem fst_analyze_purge (p : Policy) (facts : List Fact) :
    (analyze p (Fact.purge p facts)).1 = (analyze p facts).1.narrow p := by
  have hforgets : ((build p facts).1.classify p).1.Forgets p := by
    unfold Forgets
    rw [id?_classify]
    exact (keepsTypes_build p facts).forgets
  calc (analyze p (Fact.purge p facts)).1
      = (((build p (Fact.purge p facts)).1.classify p).1.resolveCycles p).1 := rfl
    _ = ((((build p facts).1.narrow p).classify p).1.resolveCycles p).1 := by rw [fst_build_purge]
    _ = ((((build p facts).1.classify p).1.narrow p).resolveCycles p).1 := by
        rw [fst_classify_narrow]
    _ = (analyze p facts).1.narrow p := fst_resolveCycles_narrow hforgets

/-! ## Walks over a narrowed graph -/

/-- The turns of types do not depend on their properties. -/
theorem visit_narrow (n : Nat) : (g.narrow p).visit n = g.visit n := by
  induction n with
  | zero => rfl
  | succ n ih =>
    funext s i
    unfold visit
    rw [ih, parents_narrow, satisfies_narrow fun _ => rfl]

/-- The types that become queries are the same. -/
theorem emissionOrder_narrow (p : Policy) (g : TypeGraph) :
    (g.narrow p).emissionOrder p = g.emissionOrder p := by
  unfold emissionOrder ids
  rw [size_narrow, visit_narrow, satisfies_narrow fun _ => rfl]

/-- Properties on a walk, narrowed. -/
def Collection.narrow (p : Policy) (c : Collection) : Collection :=
  { c with properties := c.properties.mapWithKey fun _ decl => decl.narrow p }

/-- The properties of a type can be added before or after all are narrowed. -/
theorem Collection.narrow_add (c : Collection) (n : TypeNode) :
    (c.narrow p).add (n.narrow p) = (c.add n).narrow p := by
  let addNew (m : OrderedMap String PropertyDecl) (e : String × PropertyDecl) :=
    if m.contains e.1 then m else m.insert e.1 e.2
  let narrowAll (m : OrderedMap String PropertyDecl) := m.mapWithKey fun _ decl => decl.narrow p
  have hstep (m : OrderedMap String PropertyDecl) (e : String × PropertyDecl) :
      addNew (narrowAll m) (e.1, e.2.narrow p) = narrowAll (addNew m e) := by
    dsimp only [addNew, narrowAll]
    rw [OrderedMap.contains_mapWithKey]
    split
    · rfl
    · exact (OrderedMap.mapWithKey_insert _ m e.1 e.2).symm
  have hfold : (narrowAll n.properties).entries.foldl addNew (narrowAll c.properties) =
      narrowAll (n.properties.entries.foldl addNew c.properties) := by
    change (n.properties.entries.map fun e => (e.1, e.2.narrow p)).foldl _ _ = _
    rw [List.foldl_map]
    exact List.foldl_hom narrowAll hstep
  exact congrArg (Collection.mk c.visited) hfold

/-- The properties of structs can be collected before or after they are narrowed. -/
theorem collect_narrow (everything : Bool) (k : Nat) (c : Collection) (name : String) :
    (g.narrow p).collect p everything k (c.narrow p) name =
      (g.collect p everything k c name).narrow p := by
  induction k generalizing c name with
  | zero => rfl
  | succ k ih =>
    unfold collect
    rw [get?_narrow]
    cases g.get? name with
    | none => rfl
    | some node =>
      dsimp only [Option.map_some]
      have hvisited : (c.narrow p).visited = c.visited := rfl
      have hkind : (node.narrow p).classification = node.classification := rfl
      have hparents : (node.narrow p).parents = node.parents := rfl
      have hcons : ({ c.narrow p with visited := name :: c.visited } : Collection) =
          Collection.narrow p { c with visited := name :: c.visited } := rfl
      -- The walk turns on the names, the kinds and the parents of types, which are the same.
      rw [hvisited, hkind, hparents, hcons, Collection.narrow_add]
      split
      · rfl
      split
      · rfl
      split
      · rfl
      · exact List.foldl_hom (Collection.narrow p) fun c parent => ih c parent

/-- The properties of a struct are the same, narrowed. -/
theorem structProperties_narrow (p : Policy) (g : TypeGraph) (name : String) :
    (g.narrow p).structProperties p name =
      (g.structProperties p name).map (PropertyDecl.narrow p) := by
  unfold structProperties
  rw [size_narrow]
  have hempty : ({} : Collection) = Collection.narrow p {} := rfl
  rw [hempty, collect_narrow]
  unfold OrderedMap.values
  rw [List.map_map]
  exact List.map_map

end TypeGraph

end VocabularyCompiler
