import VocabularyCompiler.Policy.Json
import VocabularyCompiler.Proofs.ClassDefinition.RoundTrip
import VocabularyCompiler.Proofs.ClassDefinition.Texts
import VocabularyCompiler.Proofs.FirstOccurrences

/-!
# Policies that leave rules out

A policy may be written in part. What is written replaces the default, whole tables with the order
of their entries included, and what is left out has the default, rule by rule (`read_part`). Every
rule is a text, a list, a set or a table with a key of its own, so there is one statement for each
of these four kinds (`Rule.ReadsBack`), and the record of all rules is read in any order.
-/

namespace VocabularyCompiler

open Json

namespace Policy

/-- The policy with the rules of `p` under some keys and the default in place of all others. -/
def keeping (p : Policy) (kept : List String) : Policy where
  namespaces := if "namespaces" ∈ kept then p.namespaces else standard.namespaces
  rootType := if "root_type" ∈ kept then p.rootType else standard.rootType
  actionRoot := if "action_root" ∈ kept then p.actionRoot else standard.actionRoot
  enumerationRoot :=
    if "enumeration_root" ∈ kept then p.enumerationRoot else standard.enumerationRoot
  listRoot := if "list_root" ∈ kept then p.listRoot else standard.listRoot
  listSuffixes := if "list_suffixes" ∈ kept then p.listSuffixes else standard.listSuffixes
  textType := if "text_type" ∈ kept then p.textType else standard.textType
  quantitativeType :=
    if "quantitative_type" ∈ kept then p.quantitativeType else standard.quantitativeType
  builtinTypes := if "builtin_types" ∈ kept then p.builtinTypes else standard.builtinTypes
  excludedTypes := if "excluded_types" ∈ kept then p.excludedTypes else standard.excludedTypes
  excludedProperties :=
    if "excluded_properties" ∈ kept then p.excludedProperties else standard.excludedProperties
  structRoots := if "struct_roots" ∈ kept then p.structRoots else standard.structRoots
  nonStructTypes :=
    if "non_struct_types" ∈ kept then p.nonStructTypes else standard.nonStructTypes
  structIncludeRootProperties :=
    if "struct_include_root_properties" ∈ kept then p.structIncludeRootProperties
    else standard.structIncludeRootProperties
  forceArray := if "force_array" ∈ kept then p.forceArray else standard.forceArray
  forceSingular := if "force_singular" ∈ kept then p.forceSingular else standard.forceSingular
  typeOverrides := if "type_overrides" ∈ kept then p.typeOverrides else standard.typeOverrides
  noFilter := if "no_filter" ∈ kept then p.noFilter else standard.noFilter
  dropWithGeo := if "drop_with_geo" ∈ kept then p.dropWithGeo else standard.dropWithGeo
  geoProperty := if "geo_property" ∈ kept then p.geoProperty else standard.geoProperty
  stringValueOverrides :=
    if "string_value_overrides" ∈ kept then p.stringValueOverrides
    else standard.stringValueOverrides
  keywords := if "keywords" ∈ kept then p.keywords else standard.keywords
  canonicalOverrides :=
    if "canonical_overrides" ∈ kept then p.canonicalOverrides else standard.canonicalOverrides
  manualCanonicalOverrides :=
    if "manual_canonical_overrides" ∈ kept then p.manualCanonicalOverrides
    else standard.manualCanonicalOverrides

/-- The members of a written policy under some keys. -/
def part (p : Policy) (kept : List String) : List (String × Value) :=
  (rules.map fun r => (r.name, r.toJson p)).filter fun m => m.1 ∈ kept

/-- A rule can be read from what is written of it in `p`, wherever that stands, and may be left
out. -/
structure Rule.ReadsBack (r : Rule) (p : Policy) : Prop where
  /-- The rule has one key. -/
  keys : r.read.keys = [r.name]
  /-- The rule may be left out. -/
  optional : r.read.required = false
  /-- What is written can stand in memory. -/
  wellFormed : (r.toJson p).WellFormed
  /-- What is written is put under the key of the rule. -/
  reads : ∀ seen, (r.read.read (p.keeping seen)).Reads (r.toJson p) (p.keeping (r.name :: seen))
  /-- What is read in memory is read in a text. -/
  carries : ∀ q, (r.read.read q).Carries .memory .text

namespace Rule.ReadsBack

variable {p : Policy} {name : String}

/-- A rule is read back if its value is. -/
theorem of {α : Type} {read : Reader α} {put : Policy → α → Policy} {toJson : α → Value}
    {get : Policy → α} (hread : read.Reads (toJson (get p)) (get p))
    (hcarries : read.Carries .memory .text) (hwf : (toJson (get p)).WellFormed)
    (hput : ∀ seen, put (p.keeping seen) (get p) = p.keeping (name :: seen)) :
    (Rule.of name read put toJson get).ReadsBack p where
  keys := rfl
  optional := rfl
  wellFormed := hwf
  reads seen := hput seen ▸ hread.map (put (p.keeping seen))
  carries q := hcarries.map (put q)

/-- A name is read back. -/
theorem text {get : Policy → String} {put : Policy → String → Policy}
    (hput : ∀ seen, put (p.keeping seen) (get p) = p.keeping (name :: seen)) :
    (Rule.text name get put).ReadsBack p :=
  of (Reader.reads_string _) Reader.carries_string (.string _) hput

/-- A list of names is read back. -/
theorem texts {get : Policy → List String} {put : Policy → List String → Policy}
    (hput : ∀ seen, put (p.keeping seen) (get p) = p.keeping (name :: seen)) :
    (Rule.texts name get put).ReadsBack p :=
  of (reads_strings _) Reader.carries_string.list (wellFormed_strings _) hput

/-- A set of names is read back in order. -/
theorem nameSet {get : Policy → OrderedSet String} {put : Policy → OrderedSet String → Policy}
    (hput : ∀ seen, put (p.keeping seen) (get p) = p.keeping (name :: seen)) :
    (Rule.nameSet name get put).ReadsBack p := by
  refine of ?_ Reader.carries_set (wellFormed_strings _) hput
  have hitems : (Reader.sequence "a set" .string).Reads (.strings (get p).items) (get p).items :=
    Reader.reads_sequence (List.forall₂_map_left_iff.2
      (List.forall₂_same.2 fun s _ => Reader.reads_string s))
  have hset := hitems.map OrderedSet.ofList
  rw [OrderedSet.ofList_items] at hset
  exact hset

/-- A table is read back in order if its entries are. -/
theorem table {α : Type} {read : Reader α} {toJson : α → Value}
    (hread : ∀ a, read.Reads (toJson a) a) (hcarries : read.Carries .memory .text)
    (hwf : ∀ a, (toJson a).WellFormed) {get : Policy → OrderedMap String α}
    {put : Policy → OrderedMap String α → Policy}
    (hput : ∀ seen, put (p.keeping seen) (get p) = p.keeping (name :: seen)) :
    (Rule.table read toJson name get put).ReadsBack p := by
  refine of ?_ hcarries.mapOf (.object ?_ (List.forall_mem_map.2 fun e _ => hwf e.2)) hput
  · have hentries : OrderedMap.ofList (get p).entries = get p :=
      OrderedMap.ext (OrderedMap.entries_ofList_eq_iff.2 (get p).nodup)
    have htable : (Reader.map read).Reads
        (.object ((get p).entries.map fun e => (e.1, toJson e.2))) (.ofList (get p).entries) :=
      Reader.reads_map (List.forall₂_map_left_iff.2
        (List.forall₂_same.2 fun e _ => ⟨rfl, hread e.2⟩))
    rw [hentries] at htable
    exact htable
  · rw [List.map_map]
    exact (get p).nodup

end Rule.ReadsBack

/-- Every rule is read back. -/
theorem readsBack_of_mem_rules (p : Policy) : ∀ r ∈ rules, r.ReadsBack p := by
  unfold rules
  simp only [List.forall_mem_cons]
  refine ⟨.texts ?_, .text ?_, .text ?_, .text ?_, .text ?_, .texts ?_, .text ?_, .text ?_,
    .table ValueType.reads_toJson ValueType.carries_read ValueType.wellFormed_toJson ?_,
    .nameSet ?_, .nameSet ?_, .texts ?_, .nameSet ?_, .nameSet ?_, .nameSet ?_, .nameSet ?_,
    .table ValueType.reads_toJson ValueType.carries_read ValueType.wellFormed_toJson ?_,
    .nameSet ?_, .nameSet ?_, .text ?_,
    .table Reader.reads_string Reader.carries_string .string ?_, .nameSet ?_,
    .table PhraseSet.reads_toJson PhraseSet.carries_read PhraseSet.wellFormed_toJson ?_,
    .table PhraseSet.reads_toJson PhraseSet.carries_read PhraseSet.wellFormed_toJson ?_,
    List.forall_mem_nil _⟩
  -- To put one value of `p` into its place is to keep one more key.
  all_goals
    intro seen
    simp [keeping]

/-- No two rules share a key. -/
theorem nodup_map_name_rules : (rules.map Rule.name).Nodup := by decide

/-- Without any rule of its own a policy is the default. -/
theorem keeping_nil (p : Policy) : p.keeping [] = standard := by
  simp only [keeping, List.not_mem_nil, if_false]

/-- What keys are kept matters only as far as they are keys of rules. -/
theorem keeping_congr (p : Policy) {kept kept' : List String}
    (h : ∀ r ∈ rules, r.name ∈ kept ↔ r.name ∈ kept') :
    p.keeping kept = p.keeping kept' := by
  have hkeys : ∀ key ∈ rules.map Rule.name, (key ∈ kept) = (key ∈ kept') :=
    List.forall_mem_map.2 fun r hr => propext (h r hr)
  simp only [rules, Rule.text, Rule.texts, Rule.nameSet, Rule.table, Rule.of, List.map_cons,
    List.map_nil, List.forall_mem_cons] at hkeys
  simp only [keeping, hkeys]

section Part

variable {p : Policy} {kept : List String} {ms : List (String × Value)}

/-- A part of a written policy has each key once. -/
theorem nodup_keys_part (p : Policy) (kept : List String) :
    ((p.part kept).map Prod.fst).Nodup := by
  refine (List.filter_sublist.map Prod.fst).nodup ?_
  rw [List.map_map]
  exact nodup_map_name_rules

/-- Under the key of a rule stands what is written of it, if the rule is kept. -/
theorem valuesUnder_part (hms : ms.Perm (p.part kept)) {r : Rule} (hr : r ∈ rules) :
    valuesUnder [r.name] ms = if r.name ∈ kept then [r.toJson p] else [] := by
  have hkeys : (ms.map Prod.fst).Nodup := (hms.map Prod.fst).nodup_iff.2 (nodup_keys_part p kept)
  split
  next hkept =>
    refine valuesUnder_eq_singleton hkeys (hms.mem_iff.2 (List.mem_filter.2 ⟨?_, by simpa⟩))
    exact List.mem_map_of_mem (f := fun r : Rule => (r.name, r.toJson p)) hr
  next hkept =>
    refine List.eq_nil_iff_forall_not_mem.2 fun v hv => hkept ?_
    obtain ⟨key, hkey, hm⟩ := mem_valuesUnder_iff.1 hv
    rw [List.mem_singleton.1 hkey] at hm
    simpa using (List.mem_filter.1 (hms.mem_iff.1 hm)).2

/-- A policy is read from a part of what is written of it. -/
theorem reads_part (hms : ms.Perm (p.part kept)) :
    Policy.read.Reads (.object ms) (p.keeping kept) := by
  have hvalues : ∀ r ∈ rules, valuesUnder r.read.keys ms =
      if r.name ∈ kept then [r.toJson p] else [] := fun r hr => by
    rw [(p.readsBack_of_mem_rules r hr).keys, valuesUnder_part hms hr]
  have hname : ∀ r ∈ rules, r.read.name = r.name := fun r hr =>
    (List.cons.inj (p.readsBack_of_mem_rules r hr).keys).1
  have hkeys : ((rules.map Rule.read).flatMap FieldReader.keys).Nodup := by decide
  -- The record being read is `p` under the keys seen so far, and these are in the end those kept.
  refine Reader.reads_record p.keeping p.keeping_nil hkeys (List.forall_mem_map.2 fun r hr => ?_)
    fun seen hseen => p.keeping_congr fun r hr => ?_
  · have hback := p.readsBack_of_mem_rules r hr
    by_cases hkept : r.name ∈ kept
    · refine .inr ⟨r.toJson p, (hvalues r hr).trans (if_pos hkept), fun seen => ?_⟩
      rw [hname r hr]
      exact hback.reads seen
    · exact .inl ⟨hback.optional, (hvalues r hr).trans (if_neg hkept)⟩
  · have hgiven := hseen r.read (List.mem_map_of_mem hr)
    rw [hname r hr, hvalues r hr] at hgiven
    simpa using hgiven

/-- A policy is the same in a text as in memory. -/
theorem carries_read : Policy.read.Carries .memory .text :=
  Reader.carries_record (List.forall_mem_map.2 fun r hr =>
    (standard.readsBack_of_mem_rules r hr).carries) _ _

end Part

/-- A policy that is written in part, with its members in any order, is read as itself under the
keys that are kept and as the default under all others, whether it stands in memory or in a text. -/
theorem read_part (p : Policy) (kept : List String) {ms : List (String × Value)}
    (hms : ms.Perm (p.part kept)) :
    (Value.object ms).WellFormed ∧ readValue Policy.read (.object ms) = .ok (p.keeping kept) ∧
      ∀ text, (Scan.scan text.toList).1.DistinctKeys → parse text = .ok (.object ms) →
        readText Policy.read text = .ok (p.keeping kept) := by
  refine ⟨.object ((hms.map Prod.fst).nodup_iff.2 (nodup_keys_part p kept)) fun m hm => ?_,
    (reads_part hms).readValue,
    fun text hdistinct hparse => readText_eq_ok (reads_part hms) carries_read hdistinct hparse⟩
  obtain ⟨r, hr, rfl⟩ := List.mem_map.1 (List.mem_filter.1 (hms.mem_iff.1 hm)).1
  exact (p.readsBack_of_mem_rules r hr).wellFormed

/-- A policy that differs from the default in three rules. -/
def agesPolicy : Policy :=
  { standard with
    rootType := "Entity"
    typeOverrides := .ofList [("age", .array .number), ("about", .any)]
    forceArray := .ofList ["knowsAbout", "age"] }

/-- Two of these rules as they may stand in a file. -/
def agesText : String :=
  "\x7b\"type_overrides\": \x7b\"age\": \x7b\"Array\": \"Number\"\x7d, \"about\": \"Any\"\x7d,
    \"force_array\": [\"knowsAbout\", \"age\"]\x7d"

/-- The value that the file is. -/
def agesMembers : List (String × Value) :=
  [("type_overrides", .object [("age", .object [("Array", .string "Number")]),
      ("about", .string "Any")]),
    ("force_array", .strings ["knowsAbout", "age"])]

set_option maxRecDepth 20000 in
/-- A file with two tables replaces these and leaves the root type as it is by default. -/
theorem read_part_ages :
    agesMembers.Perm (agesPolicy.part ["force_array", "type_overrides"]) ∧
    (Scan.scan agesText.toList).1.DistinctKeys ∧ parse agesText = .ok (.object agesMembers) ∧
    readText Policy.read agesText = .ok (agesPolicy.keeping ["force_array", "type_overrides"]) ∧
    (agesPolicy.keeping ["force_array", "type_overrides"]).rootType = "Thing" := by
  have hpart : agesPolicy.part ["force_array", "type_overrides"] = agesMembers.reverse := rfl
  have hperm : agesMembers.Perm (agesPolicy.part ["force_array", "type_overrides"]) := by
    rw [hpart]
    exact agesMembers.reverse_perm.symm
  obtain ⟨hwf, -, htext⟩ := read_part agesPolicy ["force_array", "type_overrides"] hperm
  have hscan : Scan.scan agesText.toList = (.ofValue (.object agesMembers), some []) := by cbv
  have hdistinct : (Scan.scan agesText.toList).1.DistinctKeys := by
    rw [hscan]
    exact distinctKeys_ofValue _ hwf
  have hparse : parse agesText = .ok (.object agesMembers) := by
    rw [parse_eq_ok_iff, hscan]
    exact ⟨rfl, by simp⟩
  have hroot : (agesPolicy.keeping ["force_array", "type_overrides"]).rootType = "Thing" := by
    simp [keeping, standard]
  exact ⟨hperm, hdistinct, hparse, htext agesText hdistinct hparse, hroot⟩

end Policy

end VocabularyCompiler
