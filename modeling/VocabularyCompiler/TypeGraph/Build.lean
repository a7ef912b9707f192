import VocabularyCompiler.Fact.Basic
import VocabularyCompiler.Policy.Basic
import VocabularyCompiler.TypeGraph.Basic

/-!
# From facts to a type graph

Facts come in any order: a type comes into being with its class fact or with the first property
that it is a domain of. What the policy leaves out, and what is superseded, leaves no trace in the
graph except as the range of a property.
-/

namespace VocabularyCompiler.TypeGraph

/-- A graph under construction. -/
structure Draft where
  graph : TypeGraph := ∅
  /-- The literals of each enumeration, which need not be a type yet. -/
  literals : OrderedMap String (OrderedSet String) := ∅
  notes : Diagnostics := []

namespace Draft

/-- Whether the policy keeps a type. -/
def keepsType (p : Policy) (name : String) : Bool :=
  !p.isBuiltin name && !p.excludedTypes.contains name

/-- The parents of a class: those that are kept, or else the root type. -/
def parentsOf (p : Policy) (name : String) (parents : List String) : List String :=
  match parents.filter fun q => !p.excludedTypes.contains q with
  | [] => if name = p.rootType then [] else [p.rootType]
  | kept => kept

/-- Adds a class. -/
def addClass (p : Policy) (d : Draft) (name : String) (parents : List String) (comment : String) :
    Draft :=
  let g := d.graph.ensure name
  match g.id? name with
  | some id =>
    let g := g.modify id
      (fun n => { n with parents := parentsOf p name parents, comment := comment }) fun _ => rfl
    { d with graph := g }
  | none => { d with graph := g }

/-- Declares a property on a type. -/
def addDeclaration (decl : PropertyDecl) (g : TypeGraph) (domain : String) : TypeGraph :=
  let g := g.ensure domain
  match g.id? domain with
  | some id => g.declare id decl
  | none => g

/-- Adds a property to the domains that are kept. -/
def addProperty (p : Policy) (d : Draft) (decl : PropertyDecl) (domains : List String) : Draft :=
  { d with graph := (domains.filter (keepsType p)).foldl (addDeclaration decl) d.graph }

/-- Adds a literal of an enumeration. -/
def addLiteral (d : Draft) (name enumType : String) : Draft :=
  let known := (d.literals.get? enumType).getD ∅
  { d with literals := d.literals.insert enumType (known.insert name) }

/-- Adds a fact. -/
def add (p : Policy) (d : Draft) (fact : Fact) : Draft :=
  if !keepsType p fact.name then d
  else if fact.isSuperseded then
    { d with notes := d.notes ++ [.note fact.name "superseded, skipped"] }
  else
    match fact with
    | .literalFact name enumType _ => d.addLiteral name enumType
    | .propertyFact name domains ranges comment _ =>
      if p.excludedProperties.contains name then d
      else d.addProperty p ⟨name, ranges, comment⟩ domains
    | .classFact name parents comment _ => d.addClass p name parents comment

/-- Gives an enumeration its literals, if it is a type. -/
def attach (d : Draft) (e : String × OrderedSet String) : Draft :=
  match d.graph.id? e.1 with
  | some id => { d with graph := d.graph.setLiterals id e.2 }
  | none =>
    let message := "enumeration literals for an undeclared type, ignored"
    { d with notes := d.notes ++ [.note e.1 message] }

end Draft

/-- The graph of a sequence of facts. -/
def build (p : Policy) (facts : List Fact) : TypeGraph × Diagnostics :=
  let d := facts.foldl (Draft.add p) {}
  let d := d.literals.entries.foldl Draft.attach d
  (d.graph, d.notes)

end VocabularyCompiler.TypeGraph
