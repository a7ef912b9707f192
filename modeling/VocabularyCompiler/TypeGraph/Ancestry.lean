import VocabularyCompiler.TypeGraph.Basic

/-!
# Ancestry

Which types a type extends, directly or through others. Parents may form cycles and may be names
that no type has; a name without a type has no parents of its own.
-/

namespace VocabularyCompiler.TypeGraph

/-- The names of the parents of the type at a position. -/
def parentNames (g : TypeGraph) (id : Nat) : List String := (g.node? id).elim [] TypeNode.parents

/-- The parents of the type at a position that are types of the graph. -/
def parents (g : TypeGraph) (id : Nat) : List Nat := (g.parentNames id).filterMap g.id?

/-- The types at growing distance: the parents of `layer` that were not seen before, then theirs,
and so on for at most `n` layers. -/
def layersAbove (g : TypeGraph) : Nat → List Nat → List Nat → List Nat
  | 0, _, _ => []
  | n + 1, seen, layer =>
    match ((layer.flatMap g.parents).filter (· ∉ seen)).eraseDups with
    | [] => []
    | next => next ++ g.layersAbove n (seen ++ next) next

/-- The other types that the type at a position extends, directly or through others, nearer ones
first. -/
def ancestors (g : TypeGraph) (id : Nat) : List Nat := g.layersAbove g.size [id] [id]

/-- Goes on to the parent of a name with a climb: the types that were visited by then, or nothing if
this parent is `name` or the climb has met it. A parent that is no type leads nowhere. -/
def climbTo (g : TypeGraph) (name : String) (climb : List Nat → Nat → Option (List Nat))
    (visited : List Nat) (parent : String) : Option (List Nat) :=
  if parent = name then none else (g.id? parent).elim (some visited) (climb visited)

/-- Climbs from the type at a position to its parents, one after another, and on from each of them,
never twice from one type, until `name` is met. Every step up visits another type, so `n` need not
exceed the number of types by more than one. -/
def climb (g : TypeGraph) (name : String) : Nat → List Nat → Nat → Option (List Nat)
  | 0, visited, _ => some visited
  | n + 1, visited, id =>
    if id ∈ visited then some visited
    else (g.parentNames id).foldlM (g.climbTo name (g.climb name n)) (id :: visited)

/-- Whether the type at a position extends the type `name`, directly or through others. -/
def isSubclass (g : TypeGraph) (id : Nat) (name : String) : Bool :=
  (g.climb name (g.size + 1) [] id).isNone

end VocabularyCompiler.TypeGraph
