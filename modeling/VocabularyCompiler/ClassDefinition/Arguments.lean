import VocabularyCompiler.ClassDefinition.Basic
import VocabularyCompiler.Text.Words

/-!
# The arguments of a query

Every field of a query is an argument, and so is every member of a compound type inside it, at any
depth and through any layers of arrays. An argument is addressed by the names on the way to it
with points between them. Where two fields of one list share a name, an address means the first.
-/

namespace VocabularyCompiler

/-- The names in a path. -/
def splitPath (path : String) : List String :=
  (Text.splitWhere (· = '.') path.toList).map String.ofList

mutual

/-- The paths of the members inside a type; `stem` is the path of the field that has the type. -/
def ValueType.memberPaths (stem : String) : ValueType → List String
  | .array t => t.memberPaths stem
  | .compound _ fields => argumentPaths (stem ++ ".") fields
  | _ => []
termination_by structural t => t

/-- The paths of fields and of the members inside them, each field right before its members;
`start` is what every path begins with. -/
def argumentPaths (start : String) : List Field → List String
  | [] => []
  | ⟨name, type, _, _⟩ :: rest =>
    (start ++ name) :: (type.memberPaths (start ++ name) ++ argumentPaths start rest)
termination_by structural l => l

end

/-- The field at the end of a way through fields. -/
def findArgument? (fields : List Field) : List String → Option Field
  | [] => none
  | [name] => fields.find? fun f => f.name = name
  | name :: rest => do
    let field ← fields.find? fun f => f.name = name
    findArgument? (← field.type.members?) rest

/-- Changes the first element that satisfies `p`. -/
def modifyFirst {α : Type _} (p : α → Bool) (f : α → α) : List α → List α
  | [] => []
  | a :: rest => if p a then f a :: rest else a :: modifyFirst p f rest

/-- Changes the field at the end of a way through fields. -/
def modifyArgument (change : Field → Field) : List String → List Field → List Field
  | [] => id
  | [name] => modifyFirst (fun f => f.name = name) change
  | name :: rest =>
    modifyFirst (fun f => f.name = name) fun f =>
      { f with type := f.type.mapMembers (modifyArgument change rest) }

namespace Query

/-- The field with a name. -/
def field? (q : Query) (name : String) : Option Field := q.fields.find? fun f => f.name = name

/-- The paths of all arguments, each field right before its members. -/
def arguments (q : Query) : List String := argumentPaths "" q.fields

/-- The argument at a path. -/
def argument? (q : Query) (path : String) : Option Field := findArgument? q.fields (splitPath path)

/-- Changes the argument at a path, if there is one. -/
def modifyArgument (q : Query) (path : String) (change : Field → Field) : Query :=
  { q with fields := VocabularyCompiler.modifyArgument change (splitPath path) q.fields }

end Query

end VocabularyCompiler
