import VocabularyCompiler.ClassDefinition.ValueType

/-!
# Class definitions

A class holds one query for each emitted type of a vocabulary. The arguments of a query are its
fields and, under dotted paths, the members of compound types inside them.
-/

namespace VocabularyCompiler

/-- A query over the records of one type. -/
structure Query where
  name : String
  /-- The queries that this one extends. -/
  parents : List String
  /-- The phrase for the records. -/
  canonical : String
  /-- The phrase that asks for confirmation. -/
  confirmation : String
  isList : Bool
  isMonitorable : Bool
  /-- Whether a run has to be confirmed. -/
  confirm : Bool
  fields : List Field
  deriving Inhabited

/-- A capability that a class takes from a module. -/
structure Import where
  facet : String
  moduleName : String
  deriving DecidableEq, Inhabited

/-- A class of queries. -/
structure ClassDefinition where
  /-- The identifier of the class. -/
  kind : String
  /-- The name to show. -/
  name : String
  description : String
  imports : List Import
  queries : OrderedMap String Query
  deriving Inhabited

/-- The two capabilities that every generated class has. -/
def Import.standard : List Import :=
  [⟨"loader", "org.thingpedia.v2"⟩, ⟨"config", "org.thingpedia.config.none"⟩]

end VocabularyCompiler
