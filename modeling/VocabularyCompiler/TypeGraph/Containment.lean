import VocabularyCompiler.Error
import VocabularyCompiler.Policy.Basic
import VocabularyCompiler.TypeGraph.Ancestry

/-!
# Containment cycles

A struct contains the structs that its properties range over. One that contains itself, directly
or through others, cannot be written in place; it is demoted to an entity, and so are all its
ancestors.
-/

namespace VocabularyCompiler.TypeGraph

/-- The structs that the type at a position contains, each with the property that holds it. -/
def contained (g : TypeGraph) (p : Policy) (id : Nat) : List (String × Nat) :=
  ((g.node? id).elim [] fun n => n.properties.values).flatMap fun decl =>
    decl.ranges.filterMap fun range =>
      if p.isBuiltin range then none
      else (g.id? range).bind fun next => if g.isStruct next then some (decl.name, next) else none

/-- The outcome of a search: the properties on the way to its target, if it was found, and the
types that were visited. -/
abbrev Search := Option (List String) × List Nat

/-- Searches along edges one after another until one of them leads to the target. -/
def searchEdges (search : List Nat → Nat → Search) (visited : List Nat) :
    List (String × Nat) → Search
  | [] => (none, visited)
  | (property, next) :: rest =>
    match search visited next with
    | (some path, visited) => (some (property :: path), visited)
    | (none, visited) => searchEdges search visited rest

/-- Searches for a way from `current` to `target`, never twice from one type. Every step down
visits another type, so `n` need not exceed the number of types by more than one. -/
def search (g : TypeGraph) (p : Policy) (target : Nat) : Nat → List Nat → Nat → Search
  | 0, visited, _ => (none, visited)
  | n + 1, visited, current =>
    if current ∈ visited then (if current = target then some [] else none, visited)
    else searchEdges (g.search p target n) (current :: visited) (g.contained p current)

/-- The properties on a way from a type through containment back to itself. -/
def cycle? (g : TypeGraph) (p : Policy) (id : Nat) : Option (List String) :=
  (g.search p id (g.size + 1) [] id).1

/-- Whether the type at a position may be written in place and is no enumeration. -/
def isCandidate (g : TypeGraph) (id : Nat) : Bool :=
  g.satisfies (fun n => !n.classification.isEnum && n.classification.representAsStruct) id

/-- A containment cycle: the type and the properties on the way. -/
structure Cycle where
  type : String
  path : List String
  deriving DecidableEq

/-- The structs that contain themselves. -/
def structCycles (g : TypeGraph) (p : Policy) : List Cycle :=
  (g.ids.filter g.isCandidate).filterMap fun id =>
    (g.cycle? p id).map fun path => ⟨g.nameOf id, path⟩

/-- Demotes the type at a position if it contains itself. -/
def breakCycle (p : Policy) (state : TypeGraph × Diagnostics) (id : Nat) :
    TypeGraph × Diagnostics :=
  let (g, notes) := state
  if g.isCandidate id then
    match g.cycle? p id with
    | some path =>
      let message := "struct containment cycle via " ++ " → ".intercalate path
        ++ ", represented as an entity"
      (g.demote id, notes ++ [.warn (g.nameOf id) message])
    | none => state
  else state

/-- Demotes an ancestor of the type `descendant`, which is no struct. -/
def demoteAncestor (descendant : String) (state : TypeGraph × Diagnostics) (id : Nat) :
    TypeGraph × Diagnostics :=
  let (g, notes) := state
  if g.isStruct id then
    (g.demote id, notes ++ [.note (g.nameOf id) ("demoted: ancestor of non-struct " ++ descendant)])
  else state

/-- Demotes the ancestors of the type at a position if it is no struct. -/
def demoteAncestors (state : TypeGraph × Diagnostics) (id : Nat) : TypeGraph × Diagnostics :=
  if state.1.isStruct id then state
  else (state.1.ancestors id).foldl (demoteAncestor (state.1.nameOf id)) state

/-- One round over the types, each of which demotes its ancestors if it is no struct. -/
def demoteRound (state : TypeGraph × Diagnostics) : TypeGraph × Diagnostics :=
  state.1.ids.foldl demoteAncestors state

/-- The number of structs. -/
def structCount (g : TypeGraph) : Nat := g.nodes.countP fun n => n.classification.representAsStruct

/-- Rounds until one of them demotes nothing. A round that demotes a type leaves fewer structs than
there were, which bounds their number. -/
def demoteUntilStable (state : TypeGraph × Diagnostics) : TypeGraph × Diagnostics :=
  let next := demoteRound state
  if next.1.structCount < state.1.structCount then demoteUntilStable next else next
termination_by state.1.structCount

/-- The graph without structs that contain themselves, and without structs among the ancestors of
a type that is none. -/
def resolveCycles (g : TypeGraph) (p : Policy) : TypeGraph × Diagnostics :=
  demoteUntilStable (g.ids.foldl (breakCycle p) (g, []))

end VocabularyCompiler.TypeGraph
