import VocabularyCompiler.ClassDefinition.Json
import VocabularyCompiler.Policy.Basic

/-!
# Policies as JSON

A policy is written as an object with a member for each rule. Any of them may be left out and then
has its default.
-/

namespace VocabularyCompiler.Policy

open Json

/-- A rule of a policy with its written form. -/
structure Rule where
  /-- The key of the rule. -/
  name : String
  /-- Reads the rule into a policy. -/
  read : FieldReader Policy
  /-- The rule as JSON. -/
  toJson : Policy → Value

namespace Rule

/-- A rule with the reader and the written form of its value. -/
def of {α : Type} (name : String) (read : Reader α) (put : Policy → α → Policy)
    (toJson : α → Value) (get : Policy → α) : Rule :=
  ⟨name, .optional name read put, fun p => toJson (get p)⟩

/-- A rule that is one name. -/
def text (name : String) (get : Policy → String) (put : Policy → String → Policy) : Rule :=
  .of name .string put .string get

/-- A rule that is a list of names. -/
def texts (name : String) (get : Policy → List String) (put : Policy → List String → Policy) :
    Rule :=
  .of name (.list .string) put .strings get

/-- A rule that is a set of names. -/
def nameSet (name : String) (get : Policy → OrderedSet String)
    (put : Policy → OrderedSet String → Policy) : Rule :=
  .of name .set put (fun s => .strings s.items) get

/-- A rule that is a table. -/
def table {α : Type} (read : Reader α) (toJson : α → Value) (name : String)
    (get : Policy → OrderedMap String α) (put : Policy → OrderedMap String α → Policy) : Rule :=
  .of name (.map read) put (fun m => .object (m.entries.map fun e => (e.1, toJson e.2))) get

end Rule

/-- All rules, in the order of their declaration. -/
def rules : List Rule :=
  [.texts "namespaces" namespaces fun p v => { p with namespaces := v },
    .text "root_type" rootType fun p v => { p with rootType := v },
    .text "action_root" actionRoot fun p v => { p with actionRoot := v },
    .text "enumeration_root" enumerationRoot fun p v => { p with enumerationRoot := v },
    .text "list_root" listRoot fun p v => { p with listRoot := v },
    .texts "list_suffixes" listSuffixes fun p v => { p with listSuffixes := v },
    .text "text_type" textType fun p v => { p with textType := v },
    .text "quantitative_type" quantitativeType fun p v => { p with quantitativeType := v },
    .table ValueType.read ValueType.toJson "builtin_types" builtinTypes
      fun p v => { p with builtinTypes := v },
    .nameSet "excluded_types" excludedTypes fun p v => { p with excludedTypes := v },
    .nameSet "excluded_properties" excludedProperties
      fun p v => { p with excludedProperties := v },
    .texts "struct_roots" structRoots fun p v => { p with structRoots := v },
    .nameSet "non_struct_types" nonStructTypes fun p v => { p with nonStructTypes := v },
    .nameSet "struct_include_root_properties" structIncludeRootProperties
      fun p v => { p with structIncludeRootProperties := v },
    .nameSet "force_array" forceArray fun p v => { p with forceArray := v },
    .nameSet "force_singular" forceSingular fun p v => { p with forceSingular := v },
    .table ValueType.read ValueType.toJson "type_overrides" typeOverrides
      fun p v => { p with typeOverrides := v },
    .nameSet "no_filter" noFilter fun p v => { p with noFilter := v },
    .nameSet "drop_with_geo" dropWithGeo fun p v => { p with dropWithGeo := v },
    .text "geo_property" geoProperty fun p v => { p with geoProperty := v },
    .table .string .string "string_value_overrides" stringValueOverrides
      fun p v => { p with stringValueOverrides := v },
    .nameSet "keywords" keywords fun p v => { p with keywords := v },
    .table PhraseSet.read PhraseSet.toJson "canonical_overrides" canonicalOverrides
      fun p v => { p with canonicalOverrides := v },
    .table PhraseSet.read PhraseSet.toJson "manual_canonical_overrides" manualCanonicalOverrides
      fun p v => { p with manualCanonicalOverrides := v }]

/-- Reads a policy; what is left out has its default. -/
def read : Reader Policy := Reader.record "struct Policy" (rules.map Rule.read) standard

/-- A rule of a policy as JSON, by its key. -/
def rule? (p : Policy) (name : String) : Option Value :=
  (rules.find? fun r => r.name = name).map fun r => r.toJson p

/-- A policy as JSON. -/
def toJson (p : Policy) : Value := .object (rules.map fun r => (r.name, r.toJson p))

end VocabularyCompiler.Policy
