import VocabularyCompiler.Json.Decode

/-!
# Reading records and variants

A record is written as an object, or as an array of its fields in the order of their declaration.
Fields that the record does not have are passed over. A variant is written as its bare name, or as
an object whose only key is the name.
-/

namespace VocabularyCompiler.Json

/-- How one field of a record is read into a record under construction. -/
structure FieldReader (σ : Type) where
  /-- The name that messages use. -/
  name : String
  /-- Other keys that it may be written under. -/
  aliases : List String
  /-- Whether a record without it is refused. -/
  required : Bool
  /-- Reads the field's value and puts it into the record. -/
  read : σ → Reader σ

namespace FieldReader

variable {σ α : Type}

/-- A field that a record must have. -/
def mandatory (name : String) (read : Reader α) (put : σ → α → σ) : FieldReader σ :=
  ⟨name, [], true, fun st scope source => (read scope source).map (put st)⟩

/-- A field that a record may leave out. -/
def optional (name : String) (read : Reader α) (put : σ → α → σ) : FieldReader σ :=
  ⟨name, [], false, fun st scope source => (read scope source).map (put st)⟩

/-- The same field, written under other keys too. -/
def orUnder (f : FieldReader σ) (aliases : List String) : FieldReader σ :=
  { f with aliases := aliases }

/-- Whether a key names the field. -/
def isNamed (f : FieldReader σ) (key : String) : Bool := f.name = key || key ∈ f.aliases

end FieldReader

namespace Reader

variable {σ α : Type}

/-- Reads the members of an object into a record; `seen` names the fields read so far. -/
def recordMembers (fields : List (FieldReader σ)) (scope : Scope) (st : σ) (seen : List String) :
    List (Key × Source) → Except ReadError (σ × List String)
  | [] => .ok (st, seen)
  | (.absent fault _, _) :: _ => within .unknown (fail (.malformed fault))
  | (.flawed fault, _) :: _ => within .unknown (fail (.malformed fault))
  | (.name key, source) :: rest =>
    match fields.find? fun f => f.isNamed key with
    | none => do
      atMember key (fun s => match s.skipFault? with
        | some fault => fail (.malformed fault)
        | none => .ok ()) source
      recordMembers fields scope st seen rest
    | some f =>
      if f.name ∈ seen then fail (.duplicateField f.name)
      else do
        let st ← atMember key (f.read st scope) source
        recordMembers fields scope st (f.name :: seen) rest

/-- The complaint about an array with more items than a record has fields. -/
def surplus (origin : Origin) (length : Nat) (rest : List Source) (breach : Option Breach) :
    Except ReadError Unit :=
  match origin, rest, breach with
  | _, [], none => .ok ()
  | .memory, _, _ => fail (.invalidLength length "fewer elements in array")
  | .text, _ :: _, _ => fail (.malformed .trailingCharacters)
  | .text, [], some b =>
    match b.read with
    | .trailingComma => fail (.malformed .trailingComma)
    | .endInList => fail (.malformed .endInList)
    | _ => fail (.malformed .trailingCharacters)

/-- Reads items as the fields of a record, in order; `i` is the index of the first. Returns the
items that are left. -/
def recordItems (expected : String) (scope : Scope) (breach : Option Breach) (i : Nat) (st : σ) :
    List (FieldReader σ) → List Source → Except ReadError (σ × List Source)
  | [], sources => .ok (st, sources)
  | f :: fields, s :: sources => do
    let st ← within (.index i) (f.read st scope s)
    recordItems expected scope breach (i + 1) st fields sources
  | f :: fields, [] =>
    match breach with
    | some b => fail (.malformed b.read)
    | none =>
      if f.required then fail (.invalidLength i expected)
      else recordItems expected scope breach (i + 1) st fields []

/-- The number of fields in words. -/
def elements (n : Nat) : String := toString n ++ (if n = 1 then " element" else " elements")

/-- Reads the fields of an object into a record. -/
def recordObject (fields : List (FieldReader σ)) (start : σ) (scope : Scope)
    (sources : List (Key × Source)) : Except ReadError σ := do
  let inner ← enter scope
  let (st, seen) ← recordMembers fields inner start [] sources
  match fields.find? fun f => f.required && f.name ∉ seen with
  | some f => fail (.missingField f.name)
  | none => return st

/-- Reads a record that goes by the name `expected`, starting from its default. -/
def record (expected : String) (fields : List (FieldReader σ)) (start : σ) : Reader σ
  | scope, .object sources => recordObject fields start scope sources
  | scope, .array sources breach => do
    let inner ← enter scope
    let label := expected ++ " with " ++ elements fields.length
    let (st, rest) ← recordItems label inner breach 0 start fields sources
    surplus scope.origin sources.length rest breach
    return st
  | _, other => mismatch expected other

/-- How the content of a variant is read. -/
inductive Content (α : Type) where
  /-- The variant holds nothing. -/
  | unit (a : α)
  /-- The variant holds one value. -/
  | single (read : Reader α)
  /-- The variant holds a record. -/
  | fields (read : Reader α)

/-- A variant under its name. -/
structure Variant (α : Type) where
  name : String
  content : Content α

/-- Finds a variant by its name. -/
def variant? (variants : List (Variant α)) (name : String) : Except ReadError (Variant α) :=
  match variants.find? fun v => v.name = name with
  | some v => .ok v
  | none => fail (.unknownVariant name (variants.map Variant.name))

/-- Reads the bare name of a variant. -/
def bareVariant (variants : List (Variant α)) (name : String) : Except ReadError α := do
  let v ← variant? variants name
  within (.key v.name) <| match v.content with
    | .unit a => .ok a
    | .single _ => fail (.invalidType .unitVariant "newtype variant")
    | .fields _ => fail (.invalidType .unitVariant "struct variant")

/-- Reads the content of a variant. -/
def variantContent (v : Variant α) (scope : Scope) (source : Source) : Except ReadError α :=
  match v.content with
  | .unit a =>
    match source with
    | .null => .ok a
    | other => mismatch "unit" other
  | .single read => read scope source
  | .fields read =>
    match scope.origin, source with
    | .text, _ | _, .object _ => read scope source
    | .memory, other => mismatch "struct variant" other

/-- Reads a variant from an object in memory, which has the variant's name as its only key. -/
def variantInMemory (variants : List (Variant α)) (scope : Scope) :
    List (Key × Source) → Except ReadError α
  | [(.name name, source)] => do
    let v ← variant? variants name
    within (.key v.name) (variantContent v scope source)
  | _ => fail .notSingleKey

/-- Reads a variant from an object in a text, where nothing but the end of the object may follow
the content. -/
def variantInText (variants : List (Variant α)) (scope : Scope) :
    List (Key × Source) → Except ReadError α
  | [] => fail (.malformed .expectedValue)
  | (.absent .., source) :: _ => mismatch "variant identifier" source
  | (.flawed fault, _) :: _ => fail (.malformed fault)
  | (.name name, source) :: rest => do
    let v ← variant? variants name
    let a ← atMember v.name (variantContent v scope) source
    match rest with
    | [] => return a
    | (.absent .endInObject _, _) :: _ => fail (.malformed .endInObject)
    | _ => fail (.malformed .expectedValue)

/-- Reads one of the given variants. -/
def variant (variants : List (Variant α)) : Reader α
  | _, .string name => bareVariant variants name
  | scope, .object sources => do
    let inner ← enter scope
    match scope.origin with
    | .memory => variantInMemory variants inner sources
    | .text => variantInText variants inner sources
  | scope, other =>
    match scope.origin, other with
    | .memory, _ => mismatch "string or map" other
    | .text, .missing => fail (.malformed .endInValue)
    | .text, .broken true fault _ => fail (.malformed fault)
    | .text, _ => fail (.malformed .expectedValue)

end Reader

end VocabularyCompiler.Json
