import VocabularyCompiler.Policy.Basic
import VocabularyCompiler.TypeGraph.Basic

/-!
# The properties of a struct

A struct has its own properties and those of its ancestors. The walk to the ancestors stays among
structs and ends at the struct roots, unless the struct asks for the properties of every ancestor.
-/

namespace VocabularyCompiler.TypeGraph

/-- The properties collected on a walk. -/
structure Collection where
  /-- The types that were come across. -/
  visited : List String := []
  /-- The properties, each as the type that was reached first declares it. -/
  properties : OrderedMap String PropertyDecl := ∅

/-- Adds the properties of a type that are not there yet. -/
def Collection.add (c : Collection) (n : TypeNode) : Collection :=
  { c with
    properties := n.properties.entries.foldl
      (fun m e => if m.contains e.1 then m else m.insert e.1 e.2) c.properties }

/-- Collects from a type and then from its parents. Every step up visits another type, so `n` need
not exceed the number of types by more than one. -/
def collect (g : TypeGraph) (p : Policy) (everything : Bool) :
    Nat → Collection → String → Collection
  | 0, c, _ => c
  | n + 1, c, name =>
    match g.get? name with
    | none => c
    | some node =>
      if name ∈ c.visited then c
      else
        let c := { c with visited := name :: c.visited }
        if !everything && !node.classification.isStructSubtype then c
        else
          let c := c.add node
          if !everything && name ∈ p.structRoots then c
          else node.parents.foldl (g.collect p everything n) c

/-- The properties of a struct and of its struct ancestors. -/
def structProperties (g : TypeGraph) (p : Policy) (name : String) : List PropertyDecl :=
  (g.collect p (p.structIncludeRootProperties.contains name) (g.size + 1) {} name).properties.values

end VocabularyCompiler.TypeGraph
