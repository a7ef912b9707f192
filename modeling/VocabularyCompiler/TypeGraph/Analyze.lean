import VocabularyCompiler.TypeGraph.Build
import VocabularyCompiler.TypeGraph.Classify
import VocabularyCompiler.TypeGraph.Containment

/-!
# Analysis

From facts to the graph that a class is made of: built, classified, and free of containment cycles.
-/

namespace VocabularyCompiler.TypeGraph

/-- The analyzed graph of a sequence of facts. -/
def analyze (p : Policy) (facts : List Fact) : TypeGraph × Diagnostics :=
  let (built, buildNotes) := build p facts
  let (classified, classNotes) := built.classify p
  let (resolved, cycleNotes) := classified.resolveCycles p
  (resolved, buildNotes ++ classNotes ++ cycleNotes)

end VocabularyCompiler.TypeGraph
