import VocabularyCompiler.Filter.Native
import VocabularyCompiler.Filter.Term

/-!
# Names in filters

A filter may use the variables and filters that are in scope. Filters are told apart by their names
and by how many arguments they take.
-/

namespace VocabularyCompiler.Filter

/-- A name that a filter can use. -/
inductive Name where
  | filter (name : String) (arity : Nat)
  | var (name : String)
  deriving DecidableEq, Repr

/-- The wording of a name that is not in scope. -/
def Name.describe : Name → String
  | filter name arity => "Filter(" ++ toString arity ++ ") `" ++ name ++ "`"
  | var name => "Var `$" ++ name ++ "`"

/-- The names that parameters bring into scope. -/
def namesOf (ps : List Parameter) : List Name :=
  ps.flatMap fun p =>
    if p.isVariable then [.var p.name, .filter p.name 0] else [.filter p.name 0]

/-- Whether a name can be used. -/
def isKnown (scope : List Name) : Name → Bool
  | .filter name arity => scope.contains (.filter name arity) || (native? name arity).isSome
  | .var name => scope.contains (.var name)

/-- A name alone if it cannot be used. -/
def unlessKnown (scope : List Name) (name : Name) : List Name :=
  if isKnown scope name then [] else [name]

mutual

/-- The names that a filter uses and that are not in scope, in the order of their uses; what holds
elsewhere comes before a condition, and arguments come before what they are given to. -/
def unknownNames (scope : List Name) : Term → List Name
  | .identity | .everything | .literal _ => []
  | .array t | .negate t | .iterate t _ => unknownNames scope t
  | .member a b | .pipe a b | .both a b | .operate _ a b | .compare _ a b | .conjunction a b
  | .disjunction a b | .alternative a b | .assign a b | .update a b | .operateOn _ a b
  | .setMissing a b | .attempt a b | .index a b _ => unknownNames scope a ++ unknownNames scope b
  | .conditional condition yes no =>
    unknownNames scope no ++ unknownNames scope condition ++ unknownNames scope yes
  | .slice a b c _ => unknownNames scope a ++ unknownNames scope b ++ unknownNames scope c
  | .bind value name body => unknownNames scope value ++ unknownNames (.var name :: scope) body
  | .reduce items name start step =>
    unknownNames scope items ++ unknownNames scope start ++ unknownNames (.var name :: scope) step
  | .define name ps body rest =>
    let inside := .filter name ps.length :: scope
    unknownNames (namesOf ps ++ inside) body ++ unknownNames inside rest
  | .call name ts => unknownNamesOfAll scope ts ++ unlessKnown scope (.filter name ts.length)
  | .var name => unlessKnown scope (.var name)
termination_by structural t => t

/-- The names that filters use and that are not in scope. -/
def unknownNamesOfAll (scope : List Name) : List Term → List Name
  | [] => []
  | t :: rest => unknownNames scope t ++ unknownNamesOfAll scope rest
termination_by structural l => l

end

end VocabularyCompiler.Filter
