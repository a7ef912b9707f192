import VocabularyCompiler.ClassDefinition.Arguments
import VocabularyCompiler.Error
import VocabularyCompiler.Refinement.Wire

/-!
# Merging a response

An answer only adds: phrases that are not there yet, and the flag of implicit identity. What the
answer addresses and the class does not have is ignored with a warning. The identifier of a record
is never touched.
-/

namespace VocabularyCompiler.Refinement

/-- The warnings about the queries and arguments that a response addresses in vain. -/
def unknownTargets (c : ClassDefinition) (r : RefinementResponse) : Diagnostics :=
  r.synonyms.entries.flatMap fun (query, arguments) =>
    match c.queries.get? query with
    | none => [.warn query "refinements for an unknown query, ignored"]
    | some q =>
      (arguments.keys.filter fun path => (q.argument? path).isNone).map fun path =>
        .warn (query ++ "." ++ path) "refinements for an unknown argument, ignored"

/-- What a response holds for one argument. -/
structure Addition where
  adjective : Bool
  implicitIdentity : Bool
  /-- Phrases under the names of tags. -/
  candidates : Option (OrderedMap String (List String))

/-- What a response holds for the argument at a path, unless it is nothing. -/
def addition? (r : RefinementResponse) (query path : String) : Option Addition :=
  let full := query ++ "." ++ path
  let a : Addition :=
    { adjective := decide (full ∈ r.adjectives)
      implicitIdentity := decide (full ∈ r.implicitIdentity)
      candidates := (r.synonyms.get? query).bind fun arguments => arguments.get? path }
  if path = "id" || (!a.adjective && !a.implicitIdentity && a.candidates.isNone) then none
  else some a

/-- The phrases of an addition, each with its tag, in order. -/
def Addition.phrases (a : Addition) : List (PhraseTag × String) :=
  (if a.adjective then [(.adjective, "#")] else [])
    ++ (if a.implicitIdentity then [(.reverseProperty, "#")] else [])
    ++ ((a.candidates.elim [] OrderedMap.entries).flatMap fun (name, phrases) =>
      match PhraseTag.ofName? name with
      | some tag => phrases.map fun phrase => (tag, phrase)
      | none => [])

/-- The warnings about the tags of an addition that are none. -/
def Addition.notes (a : Addition) (full : String) : Diagnostics :=
  (a.candidates.elim [] OrderedMap.keys).filterMap fun name =>
    match PhraseTag.ofName? name with
    | some _ => none
    | none => some (.warn full ("unknown phrase tag `" ++ name ++ "`, ignored"))

/-- A set with an addition. -/
def Addition.addTo (a : Addition) (s : PhraseSet) : PhraseSet :=
  let s := a.phrases.foldl (fun s e => s.push e.1 e.2) s
  { s with implicitIdentity := s.implicitIdentity || a.implicitIdentity }

/-- Merges a response into one argument. -/
def mergeArgument (r : RefinementResponse) (query : String) (state : Query × Diagnostics)
    (path : String) : Query × Diagnostics :=
  let (q, notes) := state
  match addition? r query path with
  | none => state
  | some a =>
    match q.argument? path with
    | none => state
    | some _ =>
      let merge (f : Field) : Field :=
        { f with canonical := some (a.addTo (f.canonical.getD (.new .property))) }
      (q.modifyArgument path merge, notes ++ a.notes (query ++ "." ++ path))

/-- Merges a response into the arguments of a query. -/
def mergeQuery (r : RefinementResponse) (name : String) (q : Query) : Query × Diagnostics :=
  q.arguments.foldl (mergeArgument r name) (q, [])

/-- Merges a response into a class. -/
def merge (r : RefinementResponse) (c : ClassDefinition) : ClassDefinition × Diagnostics :=
  let merged := c.queries.mapWithKey (mergeQuery r)
  ({ c with queries := merged.mapWithKey fun _ m => m.1 },
    unknownTargets c r ++ merged.values.flatMap Prod.snd)

end VocabularyCompiler.Refinement
