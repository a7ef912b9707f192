import VocabularyCompiler.ClassDefinition.Arguments
import VocabularyCompiler.Phrase.SpelledOut
import VocabularyCompiler.Policy.Basic
import VocabularyCompiler.Refinement.Wire
import VocabularyCompiler.Samples.Source

/-!
# Before the oracle is asked

Phrases are tidied up and gathered into a request. Arguments with curated phrases are left alone.
Of the others, phrases lose the name of their query in front, the base phrases stand in for missing
property phrases, and an entity that only one argument of a query can hold may stand for that
argument.
-/

namespace VocabularyCompiler.Refinement

open Text

/-- Whether the phrases at a path are curated, by the whole path or as those of a member. -/
def isCurated (p : Policy) (path : String) : Bool :=
  let member := (path.toList.dropWhile (· ≠ '.')).drop 1
  p.manualCanonicalOverrides.contains path
    || ('.' ∈ path.toList && p.manualCanonicalOverrides.contains (String.ofList member))

/-- A phrase without `start` in front. -/
def withoutStart (start phrase : String) : String :=
  match dropStart? start.toList phrase.toList with
  | some rest => String.ofList rest
  | none => phrase

/-- A set whose phrases do not begin with `start`. -/
def stripPhrases (start : String) (s : PhraseSet) : PhraseSet :=
  { s with phrases := s.phrases.mapWithKey fun _ phrases => phrases.map (withoutStart start) }

/-- A set whose base phrases stand in for missing property phrases. -/
def fillProperty (s : PhraseSet) : PhraseSet :=
  if s.phrases.contains .property || (s.get .base).isEmpty then s
  else s.set .property (s.get .base)

/-- The part of an entity kind behind its first colon, or all of it. -/
def localKind (kind : String) : String :=
  if ':' ∈ kind.toList then String.ofList ((kind.toList.dropWhile (· ≠ ':')).drop 1) else kind

/-- The phrases of an argument that alone holds entities of some kind. `emitted` names the queries
of the class. -/
def nameByEntity (emitted : List String) (kind : String) (s : PhraseSet) : PhraseSet :=
  let name := localKind kind
  let s :=
    if s.phrases.contains .property then s
    else
      let noun := Phrase.spellOut name
      (s.set .property [noun]).set .base [noun]
  let s := if name ∈ emitted then s else s.push .property "#"
  if [':', 'P', 'e', 'r', 's', 'o', 'n'].isSuffixOf kind.toList then
    s.set .adjective ["# 's", "#"]
  else s

/-- How often each kind of entity occurs among the arguments of a query. -/
def entityKinds (q : Query) : List String :=
  q.arguments.filterMap fun path => (q.argument? path).bind fun f => f.type.entityKind?

/-- What annotation goes by. -/
structure Context where
  policy : Policy
  /-- The identifier of the class. -/
  kind : String
  /-- The names of its queries. -/
  emitted : List String
  source : Option SampleSource

/-- The phrases of an argument, tidied up. `kinds` lists the kinds of entities in its query. -/
def tidy (c : Context) (query : String) (kinds : List String) (f : Field) (s : PhraseSet) :
    PhraseSet :=
  let s := fillProperty (stripPhrases (lowercase query ++ " ") s)
  match f.type.entityKind? with
  | some kind => if kinds.count kind = 1 then nameByEntity c.emitted kind s else s
  | none => s

/-- Annotates one argument. -/
def annotateArgument (c : Context) (query : String) (kinds : List String)
    (state : Query × OrderedMap String ArgumentRequest) (path : String) :
    Query × OrderedMap String ArgumentRequest :=
  let (q, requests) := state
  let request := (requests.get? path).getD {}
  if isCurated c.policy path then (q, requests.insert path request)
  else
    match q.argument? path with
    | none => (q, requests.insert path request)
    | some f =>
      let keys := SampleSource.lookupKeys c.kind query path f
      let request := { request with path := c.source.bind fun s => s.findPath keys }
      match f.canonical with
      | none => (q, requests.insert path request)
      | some set =>
        let set := tidy c query kinds f set
        let q := q.modifyArgument path fun f => { f with canonical := some set }
        match c.source.bind fun s => s.findSamples keys with
        | none => (q, requests.insert path request)
        | some values =>
          (q, requests.insert path { request with canonicals := some set, values := some values })

/-- Annotates the arguments of a query. -/
def annotateQuery (c : Context) (name : String) (q : Query) : Query × QueryRequest :=
  let (annotated, requests) :=
    q.arguments.foldl (annotateArgument c name (entityKinds q)) (q, ∅)
  (annotated, ⟨q.canonical, requests⟩)

/-- Annotates a class and gathers the request. -/
def annotate (p : Policy) (source : Option SampleSource) (c : ClassDefinition) :
    ClassDefinition × RefinementRequest :=
  let context : Context := ⟨p, c.kind, c.queries.keys, source⟩
  let annotated := c.queries.mapWithKey (annotateQuery context)
  ({ c with queries := annotated.mapWithKey fun _ r => r.1 }, annotated.mapWithKey fun _ r => r.2)

end VocabularyCompiler.Refinement
