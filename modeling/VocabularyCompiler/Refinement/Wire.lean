import VocabularyCompiler.ClassDefinition.Json

/-!
# Requests and responses

What is asked of an oracle, for each argument of each query, and what it answers: more phrases,
under the names of queries, arguments and tags, and arguments whose bare value can be spoken.
-/

namespace VocabularyCompiler

open Json

/-- What is asked about an argument. Nothing is asked about one that is left alone. -/
structure ArgumentRequest where
  /-- The file with the values of the argument. -/
  path : Option String := none
  /-- The phrases so far. -/
  canonicals : Option PhraseSet := none
  /-- A few values. -/
  values : Option (List String) := none
  deriving DecidableEq, Inhabited

/-- What is asked about a query. -/
structure QueryRequest where
  canonical : String
  arguments : OrderedMap String ArgumentRequest
  deriving DecidableEq, Inhabited

/-- What is asked about a class: a request for each query. -/
abbrev RefinementRequest := OrderedMap String QueryRequest

/-- What an oracle answers. -/
structure RefinementResponse where
  /-- Phrases under the names of a query, an argument and a tag. -/
  synonyms : OrderedMap String (OrderedMap String (OrderedMap String (List String))) := ∅
  /-- Arguments, with the query in front, whose value can stand as an adjective. -/
  adjectives : List String := []
  /-- Arguments, with the query in front, whose value alone names the result. -/
  implicitIdentity : List String := []
  deriving DecidableEq, Inhabited

namespace ArgumentRequest

/-- A request as JSON; what is absent is left out. -/
def toJson (r : ArgumentRequest) : Value :=
  .object <|
    (r.path.map fun p => ("path", Value.string p)).toList
      ++ (r.canonicals.map fun c => ("canonicals", c.toJson)).toList
      ++ (r.values.map fun vs => ("values", Value.strings vs)).toList

end ArgumentRequest

namespace QueryRequest

/-- A request as JSON. -/
def toJson (r : QueryRequest) : Value :=
  .object
    [("canonical", .string r.canonical),
      ("args", .object (r.arguments.entries.map fun e => (e.1, e.2.toJson)))]

end QueryRequest

/-- A request as JSON. -/
def RefinementRequest.toJson (r : RefinementRequest) : Value :=
  .object (r.entries.map fun e => (e.1, e.2.toJson))

namespace RefinementResponse

/-- The name of a member. -/
def keyName? : Key → Option String
  | .name s => some s
  | _ => none

/-- Phrases, in an array or as the keys of an object whose values do not matter. -/
def candidates? : Source → Option (List String)
  | .array items _ => items.mapM fun
    | .string s => some s
    | _ => none
  | .object members => some (OrderedSet.ofList (members.filterMap fun m => keyName? m.1)).items
  | _ => none

/-- Reads a response; what is left out is empty. -/
def read : Reader RefinementResponse :=
  Reader.record "struct RefinementResponse"
    [.optional "synonyms" (.map (.map (.map (.oneOf "Candidates" candidates?))))
        fun r v => { r with synonyms := v },
      .optional "adjectives" (.list .string) fun r v => { r with adjectives := v },
      .optional "implicit_identity" (.list .string) fun r v => { r with implicitIdentity := v }]
    {}

end RefinementResponse

end VocabularyCompiler
