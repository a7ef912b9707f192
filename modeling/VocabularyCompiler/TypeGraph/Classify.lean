import VocabularyCompiler.Error
import VocabularyCompiler.Policy.Basic
import VocabularyCompiler.TypeGraph.Ancestry

/-!
# Classification

What kind each type is: an action, an enumeration, a list, a struct, or none of these. The kinds
follow from the ancestors of a type, except that an enumeration is a type with literals.
-/

namespace VocabularyCompiler.TypeGraph

/-- The element type of a list type by its name, without the first suffix that it ends with. -/
def itemType (g : TypeGraph) (p : Policy) (name : String) : String × Diagnostics :=
  let stems := p.listSuffixes.filterMap fun suffix =>
    (Text.dropEnd? suffix.toList name.toList).map String.ofList
  match stems.head? with
  | some stem =>
    if g.contains stem then (stem, [])
    else (p.rootType,
      [.warn name ("list element type " ++ stem ++ " is unknown, using " ++ p.rootType)])
  | none =>
    (p.rootType,
      [.warn name ("list type does not have a recognized suffix, using " ++ p.rootType)])

/-- The kind of the type at a position. -/
def classifyNode (g : TypeGraph) (p : Policy) (id : Nat) (n : TypeNode) :
    Classification × Diagnostics :=
  let isEnum := !n.literals.items.isEmpty
  let enumNotes : Diagnostics :=
    if !isEnum && g.isSubclass id p.enumerationRoot then
      [.note n.name "enumeration without literals, kept as an entity"]
    else []
  let isItemList := g.isSubclass id p.listRoot
  let (item, itemNotes) := if isItemList then
      let (item, notes) := g.itemType p n.name
      (some item, notes)
    else (none, [])
  let isStruct := p.structRoots.any (fun root => n.name = root || g.isSubclass id root)
    && !p.nonStructTypes.contains n.name
  ({ isAction := g.isSubclass id p.actionRoot
     isEnum := isEnum
     isItemList := isItemList
     itemType := item
     isStructSubtype := isStruct
     representAsStruct := isStruct }, enumNotes ++ itemNotes)

/-- The kinds of types, of which the first is at position `i`. -/
def classifyFrom (g : TypeGraph) (p : Policy) (i : Nat) :
    List TypeNode → List Classification × Diagnostics
  | [] => ([], [])
  | n :: rest =>
    let (c, notes) := g.classifyNode p i n
    let (cs, more) := g.classifyFrom p (i + 1) rest
    (c :: cs, notes ++ more)

/-- The graph with every type classified. -/
def classify (g : TypeGraph) (p : Policy) : TypeGraph × Diagnostics :=
  let (cs, notes) := g.classifyFrom p 0 g.nodes
  (cs.zipIdx.foldl (fun g c => g.setClassification c.2 c.1) g, notes)

end VocabularyCompiler.TypeGraph
