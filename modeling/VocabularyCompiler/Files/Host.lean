import VocabularyCompiler.Files.Tree

/-!
# Hosts

What a run needs from the system that it runs on: standard input and files. A run is written for
any host, so the same run works on the files of a computer and on files that are a value.
-/

namespace VocabularyCompiler

/-- Operations on standard input and files. -/
structure Host (m : Type → Type) where
  /-- Reads standard input to its end. -/
  readInput : m (Except FileFault String)
  /-- Reads a file. -/
  readFile : String → m (Except FileFault String)
  /-- Tells what a path leads to. -/
  kind? : String → m (Option FileKind)
  /-- Lists the names in a directory, in any order; none if it cannot be read. -/
  names : String → m (List String)
  /-- Makes a directory and all that are missing on the way to it. -/
  makeDirectories : String → m (Except FileFault Unit)
  /-- Writes a file, anew or over what it held. -/
  writeFile : String → String → m (Except FileFault Unit)

/-- Files and the text at standard input, as values. -/
structure Machine where
  tree : FileTree
  input : String

namespace Machine

/-- Reads all that is left of standard input. -/
def readInput : StateM Machine (Except FileFault String) := do
  let machine ← get
  set { machine with input := "" }
  return .ok machine.input

/-- Changes the files, unless that fails. -/
def change (f : FileTree → Except FileFault FileTree) : StateM Machine (Except FileFault Unit) := do
  let machine ← get
  match f machine.tree with
  | .error fault => return .error fault
  | .ok tree =>
    set { machine with tree := tree }
    return .ok ()

/-- The host whose state is a machine. -/
def host : Host (StateM Machine) where
  readInput := readInput
  readFile path := return (← get).tree.read path
  kind? path := return (← get).tree.kind? path
  names path := return (← get).tree.names path
  makeDirectories path := change fun t => t.makeDirectories path
  writeFile path content := change fun t => t.write path content

end Machine

end VocabularyCompiler
