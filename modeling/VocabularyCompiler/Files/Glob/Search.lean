import VocabularyCompiler.Files.Glob.Pattern
import VocabularyCompiler.Files.Host

/-!
# Searching for files

A pattern for paths is matched component by component. What fits it is listed directory by
directory, the names in each in order and whatever lies in a directory right behind it. The search
reads a directory only where a component has wildcards; elsewhere it goes where the path leads.
-/

namespace VocabularyCompiler.Glob

variable {m : Type → Type} [Monad m]

/-- A pattern for paths. -/
structure PathPattern where
  /-- The directory that the search starts in. -/
  start : String
  components : List Pattern
  /-- Whether only directories fit. -/
  directoriesOnly : Bool

/-- The texts of the components of a pattern, without the empty one behind a last slash. -/
def componentTexts (s : List Char) : List (List Char) :=
  let pieces := Text.splitWhere (· = '/') s
  if pieces.getLast? = some [] then pieces.dropLast else pieces

/-- Reads a pattern for paths. Both the whole and each component have to be patterns. -/
def PathPattern.parse (text : String) : Except PatternFault PathPattern := do
  let s := text.toList
  let _ ← Glob.parse s
  let absolute := Path.isAbsolute text
  let components ← (componentTexts (if absolute then s.drop 1 else s)).mapM Glob.parse
  return ⟨if absolute then "/" else ".", components, s.getLast? = some '/'⟩

/-- The path of a name in a directory. In the current directory it is the name alone. -/
def within (directory name : String) : String :=
  if Path.isHere directory then name else Path.join directory name

/-- Whether a path leads to a directory. -/
def isDirectory (h : Host m) (path : String) : m Bool :=
  return (← h.kind? path) = some .directory

/-- The paths of what lies in a directory, in the order of the names. -/
def children (h : Host m) (directory : String) : m (List String) :=
  return ((← h.names directory).mergeSort fun a b => !(b < a)).map (within directory)

/-- The longest path that a host can use has fewer components. -/
def maxDepth : Nat := 4096

/-- The paths of all that lies in a directory and, to a depth of `n`, below it. -/
def descendants (h : Host m) : Nat → String → m (List String)
  | 0, _ => return []
  | n + 1, directory => do
    (← children h directory).flatMapM fun child => do
      if ← isDirectory h child then return child :: (← descendants h n child) else return [child]

/-- The directory itself and the one above, where a pattern that begins with a point fits them. -/
def pointEntries (p : Pattern) (directory : String) : List String :=
  if p.head? = some (.char '.') then
    ([("..", ['.', '.']), (".", ['.'])].filter fun e => fits p e.2).map fun e =>
      Path.join directory e.1
  else []

mutual

/-- What fits the components behind a path. -/
def expand (h : Host m) (directoriesOnly : Bool) : List Pattern → String → m (List String)
  | [], path => do
    if directoriesOnly && !(← isDirectory h path) then return [] else return [path]
  | p :: ps, path => do
    match literal? p with
    | some name =>
      let next := within path name
      let found ←
        if name = "." || name = ".." then isDirectory h path
        else pure (← h.kind? next).isSome
      if found then expand h directoriesOnly ps next else return []
    | none =>
      if !(← isDirectory h path) then return []
      else if p = [.anyDirectories] then expandBelow h directoriesOnly ps path
      else
        let special ← (pointEntries p path).flatMapM (expand h directoriesOnly ps)
        let rest ← (← children h path).flatMapM fun child =>
          if fits p (Path.fileName child).toList then expand h directoriesOnly ps child
          else return []
        return special ++ rest
termination_by structural ps => ps

/-- What fits the components behind a path and any number of directories below it. -/
def expandBelow (h : Host m) (directoriesOnly : Bool) : List Pattern → String → m (List String)
  | [], path => do
    (← descendants h maxDepth path).filterM (isDirectory h)
  | q :: rest, path => do
    if q = [.anyDirectories] then
      if !(← isDirectory h path) then return []
      else expandBelow h directoriesOnly rest path
    else
      (← descendants h maxDepth path).flatMapM fun child =>
        if fits q (Path.fileName child).toList then expand h directoriesOnly rest child
        else return []
termination_by structural ps => ps

end

/-- The paths that fit a pattern. -/
def PathPattern.search (h : Host m) (p : PathPattern) : m (List String) :=
  expand h p.directoriesOnly p.components p.start

end VocabularyCompiler.Glob
