import VocabularyCompiler.Policy.Basic
import VocabularyCompiler.TypeGraph.Ancestry

/-!
# Emission order

The types that become queries, each behind its ancestors and otherwise in the order in which they
were first seen. Actions, enumerations and structs become none, nor do lists.
-/

namespace VocabularyCompiler.TypeGraph

/-- Whether a type can be scheduled. -/
def isScheduled (n : TypeNode) : Bool :=
  !n.classification.isAction && !n.classification.isEnum && !n.classification.representAsStruct

/-- The state of a schedule. -/
structure Schedule where
  /-- The types whose turn has begun. -/
  visited : List Nat := []
  /-- The types whose turn is over, in order. -/
  order : List Nat := []

/-- Schedules a type behind its parents. Every step up visits another type, so `n` need not exceed
the number of types by more than one. -/
def visit (g : TypeGraph) : Nat → Schedule → Nat → Schedule
  | 0, s, _ => s
  | n + 1, s, id =>
    if g.satisfies isScheduled id && id ∉ s.visited then
      let s := (g.parents id).foldl (g.visit n) { s with visited := id :: s.visited }
      { s with order := s.order ++ [id] }
    else s

/-- Whether a type becomes a query once it is scheduled. -/
def isEmitted (p : Policy) (n : TypeNode) : Bool :=
  n.name ≠ p.listRoot && !n.classification.isItemList

/-- The types that become queries, in order. -/
def emissionOrder (g : TypeGraph) (p : Policy) : List Nat :=
  (g.ids.foldl (g.visit (g.size + 1)) {}).order.filter (g.satisfies (isEmitted p))

end VocabularyCompiler.TypeGraph
