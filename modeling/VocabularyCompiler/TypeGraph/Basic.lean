import VocabularyCompiler.Data.OrderedMap
import VocabularyCompiler.Data.OrderedSet

/-!
# Type graphs

The types of a vocabulary with their parents, properties and literals. A node is addressed by its
position, in the order in which the types were first seen. No two nodes have one name, so a name
determines a position.
-/

namespace VocabularyCompiler

/-- A property as one type declares it. -/
structure PropertyDecl where
  name : String
  /-- The types of its values, in the order of their declaration. -/
  ranges : List String
  comment : String
  deriving DecidableEq, Inhabited

/-- What kind of type a node is. -/
structure Classification where
  isAction : Bool := false
  isEnum : Bool := false
  isItemList : Bool := false
  /-- The element type of a list type. -/
  itemType : Option String := none
  /-- Whether the type lies under a struct root. -/
  isStructSubtype : Bool := false
  /-- Whether values of the type are written in place. -/
  representAsStruct : Bool := false
  deriving DecidableEq, Inhabited

/-- A type. -/
structure TypeNode where
  name : String
  /-- The names of its parents, which need not be types of the graph. -/
  parents : List String := []
  properties : OrderedMap String PropertyDecl := ∅
  comment : String := ""
  /-- The literals of an enumeration. -/
  literals : OrderedSet String := ∅
  classification : Classification := {}
  deriving DecidableEq, Inhabited

/-- The types of a vocabulary. -/
structure TypeGraph where
  /-- The types, first seen first. -/
  nodes : List TypeNode
  /-- No two types have one name. -/
  nodup : (nodes.map TypeNode.name).Nodup

namespace TypeGraph

/-- The graph without types. -/
def empty : TypeGraph := ⟨[], List.nodup_nil⟩

instance : EmptyCollection TypeGraph := ⟨empty⟩

instance : Inhabited TypeGraph := ⟨empty⟩

/-- The number of types. -/
def size (g : TypeGraph) : Nat := g.nodes.length

/-- The positions of all types. -/
def ids (g : TypeGraph) : List Nat := List.range g.size

/-- The position of a type. -/
def id? (g : TypeGraph) (name : String) : Option Nat := g.nodes.findIdx? fun n => n.name = name

/-- Whether there is a type of that name. -/
def contains (g : TypeGraph) (name : String) : Bool := g.nodes.any fun n => n.name = name

/-- The type at a position. -/
def node? (g : TypeGraph) (id : Nat) : Option TypeNode := g.nodes[id]?

/-- The type of a name. -/
def get? (g : TypeGraph) (name : String) : Option TypeNode := g.nodes.find? fun n => n.name = name

/-- The name of the type at a position, and no text beyond the last position. -/
def nameOf (g : TypeGraph) (id : Nat) : String := (g.node? id).elim "" TypeNode.name

/-- Whether the type at a position satisfies `p`. -/
def satisfies (g : TypeGraph) (p : TypeNode → Bool) (id : Nat) : Bool := (g.node? id).any p

/-- The graph with a type of that name: a new one without parents goes to the end. -/
def ensure (g : TypeGraph) (name : String) : TypeGraph :=
  if h : name ∈ g.nodes.map TypeNode.name then g else
    { nodes := g.nodes ++ [{ name := name }]
      nodup := by
        rw [List.map_append]
        exact List.nodup_append.2 ⟨g.nodup, by simp, fun a ha b hb e =>
          h (by simp at hb; exact hb ▸ e ▸ ha)⟩ }

/-- Changes the type at a position, but not its name. -/
def modify (g : TypeGraph) (id : Nat) (f : TypeNode → TypeNode)
    (keepsName : ∀ n, (f n).name = n.name) : TypeGraph where
  nodes := g.nodes.modify id f
  nodup := by
    have h : (g.nodes.modify id f).map TypeNode.name = g.nodes.map TypeNode.name := by
      apply List.ext_getElem?
      intro i
      simp only [List.getElem?_map, List.getElem?_modify]
      by_cases hi : id = i
      · cases hn : g.nodes[i]? <;> simp [hi, keepsName]
      · cases hn : g.nodes[i]? <;> simp [hi]
    rw [h]
    exact g.nodup

/-- Replaces the parents of the type at a position. -/
def setParents (g : TypeGraph) (id : Nat) (parents : List String) : TypeGraph :=
  g.modify id (fun n => { n with parents := parents }) fun _ => rfl

/-- Declares a property of the type at a position; an earlier declaration is replaced in place. -/
def declare (g : TypeGraph) (id : Nat) (decl : PropertyDecl) : TypeGraph :=
  g.modify id (fun n => { n with properties := n.properties.insert decl.name decl }) fun _ => rfl

/-- Replaces the literals of the type at a position. -/
def setLiterals (g : TypeGraph) (id : Nat) (literals : OrderedSet String) : TypeGraph :=
  g.modify id (fun n => { n with literals := literals }) fun _ => rfl

/-- Replaces the classification of the type at a position. -/
def setClassification (g : TypeGraph) (id : Nat) (c : Classification) : TypeGraph :=
  g.modify id (fun n => { n with classification := c }) fun _ => rfl

/-- The type at a position is not written in place any more. -/
def demote (g : TypeGraph) (id : Nat) : TypeGraph :=
  g.modify id
    (fun n => { n with classification := { n.classification with representAsStruct := false } })
    fun _ => rfl

/-- Whether values of the type at a position are written in place. -/
def isStruct (g : TypeGraph) (id : Nat) : Bool :=
  g.satisfies (fun n => n.classification.representAsStruct) id

/-- Whether values of the type of a name are written in place. -/
def representsAsStruct (g : TypeGraph) (name : String) : Bool :=
  (g.get? name).any fun n => n.classification.representAsStruct

end TypeGraph

end VocabularyCompiler
