import VocabularyCompiler.Data.OrderedMap
import VocabularyCompiler.Data.OrderedSet
import VocabularyCompiler.Decimal.Shortest
import VocabularyCompiler.Json.Scan
import VocabularyCompiler.Text.Quoted

/-!
# Reading typed data

A reader turns a source into a value of some type, or says where it met the first thing that it
cannot use, and what that is. It looks at a source from left to right, so of two faults the one
that stands first is reported.
-/

namespace VocabularyCompiler.Json

/-- A step from a value to a part of it. -/
inductive Segment where
  | key (name : String)
  | index (i : Nat)
  /-- The place where a key should stand. -/
  | unknown
  deriving DecidableEq, Repr

/-- The steps from a value to a part of it, as text: keys with points between them and indexes in
brackets, or a single point for the value itself. -/
def renderPath (path : List Segment) : String :=
  let step (first : Bool) : Segment → String
    | .key name => (if first then "" else ".") ++ name
    | .index i => "[" ++ toString i ++ "]"
    | .unknown => (if first then "" else ".") ++ "?"
  match path with
  | [] => "."
  | s :: rest => step true s ++ String.join (rest.map (step false))

/-- What a reader found in the place of something else. -/
inductive Found where
  | null
  | bool (b : Bool)
  | number (n : Number)
  | string (s : String)
  | sequence
  | map
  /-- The bare name of a variant. -/
  | unitVariant

/-- The wording of what a reader found. -/
def Found.describe : Found → String
  | null => "null"
  | bool true => "boolean `true`"
  | bool false => "boolean `false`"
  | number (.int n) => "integer `" ++ toString n ++ "`"
  | number (.float x) => "floating point `" ++ Decimal.renderFloat x ++ "`"
  | string s => "string " ++ Text.quotation s
  | sequence => "sequence"
  | map => "map"
  | unitVariant => "unit variant"

/-- Why a source cannot be read as the type that is wanted. -/
inductive Complaint where
  | malformed (fault : SyntaxFault)
  | invalidType (found : Found) (expected : String)
  | missingField (name : String)
  | duplicateField (name : String)
  | unknownVariant (name : String) (known : List String)
  /-- None of the forms that a type allows. -/
  | noForm (type : String)
  /-- An object where the name of a variant should be the only key. -/
  | notSingleKey
  | invalidLength (length : Nat) (expected : String)

/-- The wording of a complaint. -/
def Complaint.message : Complaint → String
  | malformed fault => fault.message
  | invalidType found expected => "invalid type: " ++ found.describe ++ ", expected " ++ expected
  | missingField name => "missing field `" ++ name ++ "`"
  | duplicateField name => "duplicate field `" ++ name ++ "`"
  | unknownVariant name known =>
    "unknown variant `" ++ name ++ "`, expected one of "
      ++ ", ".intercalate (known.map fun k => "`" ++ k ++ "`")
  | noForm type => "data did not match any variant of untagged enum " ++ type
  | notSingleKey => "invalid value: map, expected map with a single key"
  | invalidLength length expected =>
    "invalid length " ++ toString length ++ ", expected " ++ expected

/-- A complaint and the place that it is about. -/
structure ReadError where
  path : List Segment
  complaint : Complaint

/-- The wording of an error, with its place. -/
def ReadError.message (e : ReadError) : String :=
  "at JSON path " ++ renderPath e.path ++ " → " ++ e.complaint.message

/-- Where a source comes from: text is read as it stands, a value in memory is complete. -/
inductive Origin where
  | text
  | memory
  deriving DecidableEq

/-- What a reader knows about its surroundings. -/
structure Scope where
  origin : Origin
  /-- How many containers may still be opened, one inside the other. -/
  budget : Nat

/-- A reader of values of a type. -/
abbrev Reader (α : Type) := Scope → Source → Except ReadError α

namespace Reader

/-- Gives up with a complaint about the value at hand. -/
def fail {α : Type} (complaint : Complaint) : Except ReadError α := .error ⟨[], complaint⟩

/-- The result of reading a part: the place of an error begins with the step to the part. -/
def within {α : Type} (segment : Segment) (result : Except ReadError α) : Except ReadError α :=
  match result with
  | .ok a => .ok a
  | .error e => .error { e with path := segment :: e.path }

/-- The result of reading a member. If no colon follows its key, the object is at fault. -/
def atMember {α : Type} (name : String) (read : Source → Except ReadError α) :
    Source → Except ReadError α
  | .unset fault => fail (.malformed fault)
  | value => within (.key name) (read value)

/-- The scope inside a container. -/
def enter (scope : Scope) : Except ReadError Scope :=
  match scope.budget with
  | 0 => fail (.malformed .tooDeep)
  | n + 1 => .ok { scope with budget := n }

/-- What a complete value is, for a message. -/
def found : Source → Except SyntaxFault Found
  | .null => .ok .null
  | .bool b => .ok (.bool b)
  | .number n => .ok (.number n)
  | .string s => .ok (.string s)
  | .array .. => .ok .sequence
  | .object .. => .ok .map
  | .missing => .error .endInValue
  | .unset fault => .error fault
  | .broken _ read _ => .error read

/-- Complains that something else was expected. -/
def mismatch {α : Type} (expected : String) (source : Source) : Except ReadError α :=
  match found source with
  | .ok f => fail (.invalidType f expected)
  | .error fault => fail (.malformed fault)

/-- Reads a string. -/
def string : Reader String
  | _, .string s => .ok s
  | _, other => mismatch "a string" other

/-- Reads a Boolean. -/
def bool : Reader Bool
  | _, .bool b => .ok b
  | _, other => mismatch "a boolean" other

/-- Reads `null` as absence, and anything else as a value. -/
def option {α : Type} (read : Reader α) : Reader (Option α)
  | _, .null => .ok none
  | scope, other => (read scope other).map some

/-- Reads items one after another; `i` is the index of the first. -/
def items {α : Type} (read : Source → Except ReadError α) (i : Nat) :
    List Source → Except ReadError (List α)
  | [] => .ok []
  | s :: rest => do
    let a ← within (.index i) (read s)
    let as ← items read (i + 1) rest
    return a :: as

/-- Reads an array that goes by the name `expected`. -/
def sequence {α : Type} (expected : String) (read : Reader α) : Reader (List α)
  | scope, .array sources breach => do
    let inner ← enter scope
    let as ← items (read inner) 0 sources
    match breach with
    | some b => fail (.malformed b.read)
    | none => return as
  | _, other => mismatch expected other

/-- Reads an array. -/
def list {α : Type} (read : Reader α) : Reader (List α) := sequence "a sequence" read

/-- Reads an array of strings as a set. -/
def set : Reader (OrderedSet String) := fun scope source =>
  (sequence "a set" string scope source).map OrderedSet.ofList

/-- Reads members one after another. -/
def members {α : Type} (read : Source → Except ReadError α) :
    List (Key × Source) → Except ReadError (List (String × α))
  | [] => .ok []
  | (.absent fault _, _) :: _ => within .unknown (fail (.malformed fault))
  | (.flawed fault, _) :: _ => within .unknown (fail (.malformed fault))
  | (.name name, s) :: rest => do
    let a ← atMember name read s
    let as ← members read rest
    return (name, a) :: as

/-- Reads an object with any keys. Of a repeated key the last value counts. -/
def map {α : Type} (read : Reader α) : Reader (OrderedMap String α)
  | scope, .object sources => do
    let inner ← enter scope
    return .ofList (← members (read inner) sources)
  | _, other => mismatch "a map" other

mutual

/-- Reads any value. Of a repeated key the last value counts. -/
def any (budget : Nat) : Source → Except ReadError Value
  | .null => .ok .null
  | .bool b => .ok (.bool b)
  | .number n => .ok (.number n)
  | .string s => .ok (.string s)
  | .missing => fail (.malformed .endInValue)
  | .unset fault => fail (.malformed fault)
  | .broken _ fault _ => fail (.malformed fault)
  | .array items breach =>
    match budget with
    | 0 => fail (.malformed .tooDeep)
    | n + 1 => do
      let values ← anyItems n 0 items
      match breach with
      | some b => fail (.malformed b.read)
      | none => return .array values
  | .object members =>
    match budget with
    | 0 => fail (.malformed .tooDeep)
    | n + 1 => return .object (OrderedMap.ofList (← anyMembers n members)).entries
termination_by structural s => s

/-- Reads any items; `i` is the index of the first. -/
def anyItems (budget i : Nat) : List Source → Except ReadError (List Value)
  | [] => .ok []
  | s :: rest => do
    let v ← within (.index i) (any budget s)
    let vs ← anyItems budget (i + 1) rest
    return v :: vs
termination_by structural l => l

/-- Reads any members. -/
def anyMembers (budget : Nat) : List (Key × Source) → Except ReadError (List (String × Value))
  | [] => .ok []
  | (key, s) :: rest =>
    match key with
    | .absent fault _ => within .unknown (fail (.malformed fault))
    | .flawed fault => within .unknown (fail (.malformed fault))
    | .name name => do
      let v ← match s with
        | .unset fault => fail (.malformed fault)
        | value => within (.key name) (any budget value)
      let vs ← anyMembers budget rest
      return (name, v) :: vs
termination_by structural l => l

end

/-- Reads any value. -/
def value : Reader Value := fun scope source => any scope.budget source

/-- Reads a value that has one of several forms: the whole of it is read first, and then it has to
fit. -/
def oneOf {α : Type} (type : String) (fit : Source → Option α) : Reader α := fun scope source => do
  let _ ← any scope.budget source
  match fit source with
  | some a => return a
  | none => fail (.noForm type)

end Reader

/-- The greatest number of containers in text, one inside the other. -/
def maxDepth : Nat := 127

/-- Reads the value at the start of a text; what follows it is not looked at. -/
def readText {α : Type} (read : Reader α) (text : String) : Except ReadError α :=
  read ⟨.text, maxDepth⟩ (Scan.scan text.toList).1

/-- Reads a value in memory, however deep it is. -/
def readValue {α : Type} (read : Reader α) (v : Value) : Except ReadError α :=
  let source := Source.ofValue v
  read ⟨.memory, source.height⟩ source

/-- Reads a text that holds one value and nothing else. -/
def parse (text : String) : Except Complaint Value :=
  match Scan.scan text.toList with
  | (source, rest) =>
    match Reader.any maxDepth source with
    | .error e => .error e.complaint
    | .ok v =>
      match rest.map Scan.skipSpace with
      | some (_ :: _) => .error (.malformed .trailingCharacters)
      | _ => .ok v

end VocabularyCompiler.Json
