import VocabularyCompiler.CommandLine.Run

/-!
# The program

The command line on the files of the computer that it runs on.
-/

namespace VocabularyCompiler

/-- What a system error says about a file. -/
def FileFault.ofSystem : IO.Error → FileFault
  | .noFileOrDirectory .. => .notFound
  | .alreadyExists .. => .alreadyExists
  | .inappropriateType _ code details =>
    if code = 20 then .notADirectory
    else if code = 21 then .isADirectory
    else .other details
  | e => .other (toString e)

/-- The result of an operation on files. -/
def attempt {α : Type} (operation : IO α) : IO (Except FileFault α) := do
  match ← operation.toBaseIO with
  | .ok a => return .ok a
  | .error e => return .error (.ofSystem e)

/-- Bytes as text. -/
def decode (bytes : ByteArray) : Except FileFault String :=
  match String.fromUTF8? bytes with
  | some text => .ok text
  | none => .error .notText

/-- The names in the directory at a path. -/
def listNames (path : String) : IO (List String) := do
  let entries ← ((← IO.currentDir) / path).readDir
  return entries.toList.map fun e => e.fileName

/-- The computer that the program runs on. -/
def computer : Host IO where
  readInput := do
    let text ← attempt do
      let stdin ← IO.getStdin
      let mut bytes := ByteArray.empty
      repeat
        let block ← stdin.read 65536
        if block.isEmpty then break
        bytes := bytes ++ block
      return bytes
    return text.bind decode
  readFile path := return (← attempt (IO.FS.readBinFile path)).bind decode
  kind? path := do
    if path.isEmpty then return none
    match ← attempt (listNames path) with
    | .ok _ => return some .directory
    | .error .notADirectory => return some .file
    | .error _ => return none
  names path := do
    return (← attempt (listNames path)).toOption.getD []
  makeDirectories path := attempt (IO.FS.createDirAll path)
  writeFile path content := attempt (IO.FS.writeFile path content)

end VocabularyCompiler

/-- Runs the program. -/
def main (arguments : List String) : IO UInt32 := do
  let outcome ← VocabularyCompiler.CommandLine.run VocabularyCompiler.computer arguments
  IO.print outcome.output
  for message in outcome.messages do
    IO.eprintln message
  return outcome.exitCode.toUInt32
