import VocabularyCompiler.Data.OrderedMap
import VocabularyCompiler.Error
import VocabularyCompiler.Files.Path

/-!
# Files

A directory with text files in it and in the directories below it. A place is the list of the names
that lead to it from the directory; names that are two points each lead out of it, to directories
that nothing else is known of.
-/

namespace VocabularyCompiler

/-- The files in a directory and below it. -/
structure FileTree where
  /-- The contents of the files by their places. -/
  files : OrderedMap (List String) String
  /-- The places of directories, besides those that a file lies in. -/
  directories : List (List String)

/-- What lies at a place. -/
inductive FileKind where
  | file
  | directory
  deriving DecidableEq, Repr

namespace FileTree

/-- The directory with the given files, by their paths in it. -/
def ofFiles (files : List (String × String)) : FileTree :=
  ⟨.ofList (files.map fun f => (Path.components f.1, f.2)), []⟩

/-- Whether a place is the directory itself or leads out of it. -/
def isAbove (place : List String) : Bool := place.all (· = "..")

/-- What lies at a place. -/
def kindAt? (t : FileTree) (place : List String) : Option FileKind :=
  if t.files.contains place then some .file
  else if isAbove place || (t.files.keys ++ t.directories).any place.isPrefixOf then some .directory
  else none

/-- The place that a component leads to from a place. -/
def enter (place : List String) (component : String) : List String :=
  if Path.isIdle component then place
  else if component = ".." && !isAbove place then place.dropLast
  else place ++ [component]

/-- One step along a path, from something that has to be a directory. -/
def step (t : FileTree) (place : List String) (component : String) :
    Except FileFault (List String) :=
  match t.kindAt? place with
  | some .directory => .ok (enter place component)
  | some .file => .error .notADirectory
  | none => .error .notFound

/-- The place that a path leads to. Something need not lie there, but all before it has to. -/
def locate (t : FileTree) (path : String) : Except FileFault (List String) :=
  if path.isEmpty || Path.isAbsolute path then .error .notFound
  else (Path.components path).foldlM t.step []

/-- What a path leads to. -/
def kind? (t : FileTree) (path : String) : Option FileKind :=
  match t.locate path with
  | .ok place => t.kindAt? place
  | .error _ => none

/-- The content of the file at a path. -/
def read (t : FileTree) (path : String) : Except FileFault String := do
  let place ← t.locate path
  match t.files.get? place, t.kindAt? place with
  | some content, _ => return content
  | none, some _ => throw .isADirectory
  | none, none => throw .notFound

/-- The names in the directory at a path. -/
def names (t : FileTree) (path : String) : List String :=
  match t.locate path with
  | .error _ => []
  | .ok place =>
    ((t.files.keys ++ t.directories).filterMap fun k =>
      if place.isPrefixOf k then (k.drop place.length).head? else none).eraseDups

/-- Makes the directory at a path and all that are missing on the way to it. -/
def makeDirectories (t : FileTree) (path : String) : Except FileFault FileTree := do
  let walk (place : List String) (component : String) : Except FileFault (List String) :=
    if t.files.contains place then .error .notADirectory else .ok (enter place component)
  let place ← (Path.components path).foldlM walk []
  if t.files.contains place then throw .alreadyExists
  return { t with directories := t.directories ++ [place] }

/-- Writes the file at a path, anew or over what it held. -/
def write (t : FileTree) (path content : String) : Except FileFault FileTree := do
  if Path.fileName path = "" && t.kind? (path.dropEnd 1).toString = none then throw .isADirectory
  let place ← t.locate path
  if t.kindAt? place = some .directory then throw .isADirectory
  return { t with files := t.files.insert place content }

end FileTree

end VocabularyCompiler
