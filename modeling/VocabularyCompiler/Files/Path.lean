import VocabularyCompiler.Text.Words

/-!
# Paths

Paths as texts with slashes between their components. An empty component and a single point lead
nowhere, so at the end of a path they do not count; a point at its beginning stands for the current
directory and does.
-/

namespace VocabularyCompiler.Path

/-- The components of a path, empty ones included. -/
def components (path : String) : List String :=
  (Text.splitWhere (· = '/') path.toList).map String.ofList

/-- Whether a path starts at the root of all files. -/
def isAbsolute (path : String) : Bool := path.toList.head? = some '/'

/-- Whether a component leads nowhere else. -/
def isIdle (component : String) : Bool := component = "" || component = "."

/-- The path that `path` means in the directory `base`. -/
def join (base path : String) : String :=
  if isAbsolute path then path
  else if base.isEmpty || base.toList.getLast? = some '/' then base ++ path
  else base ++ "/" ++ path

/-- Components without the idle ones behind the first at the end. -/
def trimComponents : List String → List String
  | [] => []
  | c :: rest => c :: (rest.reverse.dropWhile isIdle).reverse

/-- The directory that a path lies in. It is empty if the path names none. -/
def parent (path : String) : String :=
  let above := trimComponents (trimComponents (components path)).dropLast
  if above = [""] then "/" else "/".intercalate above

/-- Whether a path is the current directory. -/
def isHere (path : String) : Bool :=
  match components path with
  | c :: rest => c = "." && rest.all isIdle
  | [] => false

/-- The last component of a path. -/
def fileName (path : String) : String := (components path).getLast?.getD ""

end VocabularyCompiler.Path
