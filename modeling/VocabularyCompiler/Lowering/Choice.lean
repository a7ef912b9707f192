import VocabularyCompiler.Error
import VocabularyCompiler.Policy.Basic
import VocabularyCompiler.Text.Lowercase
import VocabularyCompiler.TypeGraph.Basic

/-!
# The choice of a range

A property may range over several types, and its values are of one. The range of the highest rank
wins, the first of them if there are several. Whether the property holds one value or a list of
them is told from its ranges, its comment and the policy.
-/

namespace VocabularyCompiler

/-- How much a range is preferred. -/
inductive RangeRank where
  /-- Neither in the graph nor built in; never chosen. -/
  | unrecognized
  | otherKnown
  | genericText
  | struct
  | builtinScalar
  | enum
  deriving DecidableEq, Repr

namespace RangeRank

/-- The place in the order of preference, weakest first. -/
def strength : RangeRank → Nat
  | unrecognized => 0
  | otherKnown => 1
  | genericText => 2
  | struct => 3
  | builtinScalar => 4
  | enum => 5

/-- The name of a rank. -/
def name : RangeRank → String
  | unrecognized => "Unrecognized"
  | otherKnown => "OtherKnown"
  | genericText => "GenericText"
  | struct => "Struct"
  | builtinScalar => "BuiltinScalar"
  | enum => "Enum"

/-- The rank of a range. -/
def of (g : TypeGraph) (p : Policy) (range : String) : RangeRank :=
  let node := g.get? range
  if node.any fun n => n.classification.isEnum then enum
  else if range = p.textType then genericText
  else if p.isBuiltin range then builtinScalar
  else
    match node with
    | none => unrecognized
    | some n => if n.classification.representAsStruct then struct else otherKnown

end RangeRank

/-- What becomes of the range that was chosen. -/
inductive Shape where
  /-- The type is settled. -/
  | fixed (type : ValueType)
  /-- The range has yet to be lowered; the property holds a list if `array` is set. -/
  | lower (array : Bool)

/-- The chosen range of a property. -/
structure Choice where
  /-- The range, as the vocabulary names it. -/
  range : String
  shape : Shape

namespace Choice

/-- The first of the ranges with the greatest rank. -/
def best? (rank : String → RangeRank) : List String → Option String
  | [] => none
  | r :: rest =>
    match best? rank rest with
    | none => some r
    | some s => if (rank r).strength < (rank s).strength then some s else some r

/-- Whether a comment begins with an indefinite article, which tells that there may be several
values: "A review of the item." -/
def startsWithArticle (comment : String) : Bool :=
  let start := (comment.toList.take 3).map Text.lowerAscii
  ['a', ' '].isPrefixOf start || ['a', 'n', ' '].isPrefixOf start

/-- The type of some quantity, told from the name of the property. -/
def quantity (name : String) : ValueType × Diagnostics :=
  let lower := Text.lowerChars name.toList
  let mentions (word : String) : Bool := Text.isInside word.toList lower
  if mentions "number" || mentions "level" || mentions "quantity" then (.number, [])
  else if mentions "duration" then (.measure "ms", [])
  else
    (.number, [.warn name "cannot guess the type of a quantitative value, assuming Number"])

/-- Whether a range is a list type. -/
def isList (g : TypeGraph) (range : String) : Bool :=
  (g.get? range).any fun n => n.classification.isItemList

/-- Whether a property of which `range` was chosen holds a list. A list type is one by itself. -/
def holdsSeveral (g : TypeGraph) (p : Policy) (name : String) (decl : PropertyDecl)
    (range : String) : Bool :=
  !isList g range && !p.forceSingular.contains name
    && (decl.ranges.any (isList g) || startsWithArticle decl.comment || p.forceArray.contains name)

/-- The choice for a property; there is none if the property is dropped. -/
def choose (g : TypeGraph) (p : Policy) (name : String) (decl : PropertyDecl) :
    Option Choice × Diagnostics :=
  if p.excludedProperties.contains name then (none, [.note name "excluded property, dropped"])
  else
    let dropped : Option Choice × Diagnostics :=
      (none, [.warn name
        ("no recognized range among [" ++ ", ".intercalate decl.ranges ++ "], dropped")])
    match best? (RangeRank.of g p) decl.ranges with
    | none => dropped
    | some range =>
      if RangeRank.of g p range = .unrecognized then dropped
      else
        match p.typeOverrides.get? name with
        | some type => (some ⟨range, .fixed type⟩, [])
        | none =>
          if range = p.quantitativeType then
            let (type, notes) := quantity name
            (some ⟨range, .fixed type⟩, notes)
          else (some ⟨range, .lower (holdsSeveral g p name decl range)⟩, [])

end Choice

/-- A type or the array of it. There are no arrays of Booleans or of enumerations. -/
def ValueType.wrap (array : Bool) (type : ValueType) : ValueType :=
  match type with
  | .boolean | .enum _ => type
  | _ => if array then .array type else type

end VocabularyCompiler
