import VocabularyCompiler.ClassDefinition.Json
import VocabularyCompiler.Proofs.Json.Reading

/-!
# Class definitions are read back as they were written

The JSON form of a class loses nothing: a reader makes the same class of it again, with everything
in its order (`readValue_toJson`). There is one such statement for each part of a class, from the
tags of phrases up. Types and fields hold each other, so theirs are proved together, by recursion on
the type; the reader of types counts its steps, and the height of what was written is enough of
them.
-/

namespace VocabularyCompiler

open Json

/-- Strings are read back. -/
theorem reads_strings (l : List String) : (Reader.list .string).Reads (.strings l) l := by
  refine Reader.reads_sequence ?_
  rw [List.forall₂_map_left_iff]
  exact List.forall₂_same.2 fun s _ => Reader.reads_string s

/-! ## Phrases -/

/-- A tag is read back from its name. -/
theorem PhraseTag.reads_name (tag : PhraseTag) : PhraseTag.read.Reads (.string tag.name) tag := by
  refine Reader.reads_variant_unit ?_
  cases tag <;> rfl

namespace PhraseSet

/-- No tag has the name of a field that stands beside the tags. -/
theorem find?_flags_name (tag : PhraseTag) :
    (flags.find? fun f => f.isNamed tag.name) = none := by
  cases tag <;> decide

/-- The members that hold the phrases under tags. -/
def phraseMembers (entries : List (PhraseTag × List String)) : List (String × Value) :=
  entries.map fun e => (e.1.name, .strings e.2)

/-- The members that hold the flags that are set. -/
def flagMembers (s : PhraseSet) : List (String × Value) :=
  (if s.apv then [("apv", .bool true)] else [])
    ++ (if s.implicitIdentity then [("implicit_identity", .bool true)] else [])

/-- A set is written as its default, its phrases and its flags. -/
theorem toJson_eq (s : PhraseSet) : s.toJson = .object
    (("default", .string s.defaultTag.name) ::
      (phraseMembers s.phrases.entries ++ s.flagMembers)) := by
  rw [toJson, List.cons_append, List.cons_append, List.append_assoc]
  rfl

/-- The members that hold phrases are put aside in order. -/
theorem readMembers_phrases {n : Nat} {seen : List String} {rest : List (String × Value)}
    (entries : List (PhraseTag × List String)) (d : Draft)
    (h : Source.heightOfMembers (Source.ofMembers (phraseMembers entries)) ≤ n) :
    readMembers ⟨.memory, n⟩ d seen (Source.ofMembers (phraseMembers entries ++ rest)) =
      readMembers ⟨.memory, n⟩
        { d with
          others := d.others ++ entries.map fun e => (e.1.name, Source.ofValue (.strings e.2)) }
        seen (Source.ofMembers rest) := by
  induction entries generalizing d with
  | nil =>
    rw [List.map_nil, List.append_nil]
    rfl
  | cons e entries ih =>
    obtain ⟨hhead, htail⟩ := Nat.max_le.1 h
    -- The name of a tag is that of no flag, so the member is kept for later.
    obtain ⟨w, hw⟩ := Reader.exists_any_ofValue _ hhead
    change readMembers ⟨.memory, n⟩ d seen ((.name e.1.name, Source.ofValue (.strings e.2)) ::
      Source.ofMembers (phraseMembers entries ++ rest)) = _
    rw [readMembers, find?_flags_name]
    change (Reader.atMember _ (Reader.any n) _ >>= fun _ => _) = _
    rw [Reader.atMember_eq_ok _ hw]
    have hrest := ih { d with
      others := d.others ++ [(e.1.name, Source.ofValue (.strings e.2))] } htail
    rw [List.append_assoc, List.singleton_append] at hrest
    exact hrest

/-- The phrases that were put aside are read in order. -/
theorem readPhrases_eq (entries : List (PhraseTag × List String)) (s : PhraseSet) :
    readPhrases s (entries.map fun e => (e.1.name, Source.ofValue (.strings e.2))) =
      .ok { s with phrases := entries.foldl (fun m e => m.insert e.1 e.2) s.phrases } := by
  induction entries generalizing s with
  | nil => rfl
  | cons e entries ih =>
    have htag : PhraseTag.read _ (.string e.1.name) = .ok e.1 :=
      e.1.reads_name (Source.ofValue (.strings e.2)).height (Nat.zero_le _)
    have hphrases := reads_strings e.2 _ (Nat.le_refl _)
    rw [List.map_cons, readPhrases, htag, hphrases]
    exact ih (s.set e.1 e.2)

/-- The flags are read, and those that are not set are missed. -/
theorem exists_readMembers_flags (s : PhraseSet) (n : Nat) (d : Draft) (hapv : d.apv = none)
    (himplicit : d.implicitIdentity = none) :
    ∃ d' : Draft, readMembers ⟨.memory, n⟩ d ["default"] (Source.ofMembers s.flagMembers) = .ok d' ∧
      d'.defaultTag = d.defaultTag ∧ d'.others = d.others ∧ d'.apv.getD false = s.apv ∧
        d'.implicitIdentity.getD false = s.implicitIdentity := by
  obtain ⟨tag, apv, implicitIdentity, others⟩ := d
  cases hapv
  cases himplicit
  unfold flagMembers
  cases s.apv <;> cases s.implicitIdentity <;> exact ⟨_, rfl, rfl, rfl, rfl, rfl⟩

/-- The members are read: the default, then the phrases, then the flags. -/
theorem exists_readMembers (s : PhraseSet) {n : Nat}
    (h : Source.heightOfMembers (Source.ofMembers (phraseMembers s.phrases.entries)) ≤ n) :
    ∃ d : Draft, readMembers ⟨.memory, n⟩ {} [] (Source.ofMembers
        (("default", .string s.defaultTag.name) ::
          (phraseMembers s.phrases.entries ++ s.flagMembers))) = .ok d ∧
      d.defaultTag = some s.defaultTag ∧
      d.others = (s.phrases.entries.map fun e => (e.1.name, Source.ofValue (.strings e.2))) ∧
      d.apv.getD false = s.apv ∧ d.implicitIdentity.getD false = s.implicitIdentity := by
  -- What has been read when the flags begin.
  let beforeFlags : Draft :=
    { defaultTag := some s.defaultTag
      others := s.phrases.entries.map fun e => (e.1.name, Source.ofValue (.strings e.2)) }
  obtain ⟨d, hd, hrest⟩ := s.exists_readMembers_flags n beforeFlags rfl rfl
  have htag : PhraseTag.read ⟨.memory, n⟩ (.string s.defaultTag.name) = .ok s.defaultTag :=
    s.defaultTag.reads_name n (Nat.zero_le _)
  refine ⟨d, ?_, hrest⟩
  change ((Reader.within _ ((PhraseTag.read ⟨.memory, n⟩ (.string s.defaultTag.name)).map _)) >>=
    fun d => readMembers ⟨.memory, n⟩ d ["default"]
      (Source.ofMembers (phraseMembers s.phrases.entries ++ s.flagMembers))) = _
  rw [htag, ← hd]
  exact readMembers_phrases s.phrases.entries _ h

/-- A set is read back. -/
theorem reads_toJson (s : PhraseSet) : PhraseSet.read.Reads s.toJson s := by
  intro budget hbudget
  rw [toJson_eq] at hbudget ⊢
  rw [Source.ofValue, Source.height] at hbudget
  obtain ⟨n, rfl⟩ : ∃ n, budget = n + 1 := ⟨budget - 1, by omega⟩
  have hphrases :
      Source.heightOfMembers (Source.ofMembers (phraseMembers s.phrases.entries)) ≤ n := by
    have hall := Source.heightOfMembers_le_iff.1 (Nat.le_of_succ_le_succ hbudget)
    refine Source.heightOfMembers_le_iff.2 fun m hm => hall m ?_
    rw [Source.ofMembers_eq_map] at hm ⊢
    exact List.map_subset _ (by simp) hm
  obtain ⟨d, hmembers, hdefault, hothers, hapv, himplicit⟩ := s.exists_readMembers hphrases
  have hentries : s.phrases.entries.foldl (fun m e => m.insert e.1 e.2) ∅ = s.phrases :=
    OrderedMap.ext (OrderedMap.entries_ofList_eq_iff.2 s.phrases.nodup)
  rw [Source.ofValue, read, Reader.enter_succ]
  dsimp only [bind, Except.bind]
  rw [hmembers]
  dsimp only
  rw [hdefault, hothers, hapv, himplicit]
  dsimp only
  rw [readPhrases_eq, hentries]

end PhraseSet

/-! ## Annotations -/

/-- What is there if and only if its key was seen is what was seen of it. -/
theorem ite_mem_seen {α : Type} {key : String} {seen : List String} {a? : Option α}
    (h : key ∈ seen ↔ a? ≠ none) : (if key ∈ seen then a? else none) = a? := by
  split
  next => rfl
  next hkey => exact (not_not.1 fun hne => hkey (h.2 fun h => hne h.symm))

namespace Annotations

/-- The annotations with some names. -/
def upTo (a : Annotations) (seen : List String) : Annotations where
  orgSchemaType := if "org_schema_type" ∈ seen then a.orgSchemaType else none
  unique := if "unique" ∈ seen then a.unique else none
  filterable := if "filterable" ∈ seen then a.filterable else none
  drop := if "drop" ∈ seen then a.drop else none
  stringValues := if "string_values" ∈ seen then a.stringValues else none

/-- Annotations are read back. -/
theorem reads_toJson (a : Annotations) : Annotations.read.Reads a.toJson a := by
  have htext (s : String) : Reader.string.Reads (.string s) s ∧ Value.string s ≠ .null :=
    ⟨Reader.reads_string s, Value.noConfusion⟩
  have hflag (b : Bool) : Reader.bool.Reads (.bool b) b ∧ Value.bool b ≠ .null :=
    ⟨Reader.reads_bool b, Value.noConfusion⟩
  refine Reader.reads_record a.upTo rfl (by simp) ?_ fun seen hseen => ?_
  · simp only [List.forall_mem_cons]
    refine ⟨.of_option a.orgSchemaType (by simp) (fun s _ => htext s) fun seen => ?_,
      .of_option a.unique (by simp) (fun b _ => hflag b) fun seen => ?_,
      .of_option a.filterable (by simp) (fun b _ => hflag b) fun seen => ?_,
      .of_option a.drop (by simp) (fun b _ => hflag b) fun seen => ?_,
      .of_option a.stringValues (by simp) (fun s _ => htext s) fun seen => ?_,
      List.forall_mem_nil _⟩
    all_goals simp [upTo]
  · simp at hseen
    obtain ⟨htype, hunique, hfilterable, hdrop, hvalues⟩ := hseen
    rw [upTo, ite_mem_seen htype, ite_mem_seen hunique, ite_mem_seen hfilterable,
      ite_mem_seen hdrop, ite_mem_seen hvalues]

end Annotations

/-! ## Types and fields -/

namespace Field

/-- The field with what stands under some names. -/
def upTo (f : Field) (seen : List String) : Field where
  name := if "name" ∈ seen then f.name else ""
  type := if "ty" ∈ seen then f.type else .any
  canonical := if "canonical" ∈ seen then f.canonical else none
  annotations := if "annotations" ∈ seen then f.annotations else {}

/-- A field is read back if its type is. -/
theorem reads_toJson {readType : Reader ValueType} (f : Field)
    (htype : readType.Reads f.type.toJson f.type) : (readWith readType).Reads f.toJson f := by
  refine Reader.reads_record f.upTo rfl (by simp) ?_ fun seen hseen => ?_
  · simp only [List.forall_mem_cons]
    refine ⟨.of_value (fun _ => rfl) (by simp) (Reader.reads_string f.name) fun seen => ?_,
      .of_value (fun _ => rfl) (by simp) htype fun seen => ?_,
      .of_option f.canonical (by simp)
        (fun s _ => ⟨s.reads_toJson, Value.noConfusion⟩) fun seen => ?_,
      .of_value (fun _ => rfl) (by simp) f.annotations.reads_toJson fun seen => ?_,
      List.forall_mem_nil _⟩
    all_goals simp [upTo]
  · obtain ⟨hname, hty, hcanonical, hannotations⟩ : "name" ∈ seen ∧ "ty" ∈ seen ∧
        ("canonical" ∈ seen ↔ f.canonical ≠ none) ∧ "annotations" ∈ seen := by simpa using hseen
    rw [upTo, if_pos hname, if_pos hty, ite_mem_seen hcanonical, if_pos hannotations]
    cases f
    rfl

end Field

/-- Fields are written one by one. -/
theorem fieldsToJson_eq_map (fields : List Field) :
    fieldsToJson fields = fields.map Field.toJson := by
  induction fields with
  | nil => rfl
  | cons f rest ih =>
    cases f
    rw [fieldsToJson, ih]
    rfl

/-- The type of a field is written lower than the field. -/
theorem Field.height_type_lt (f : Field) :
    (Source.ofValue f.type.toJson).height < (Source.ofValue f.toJson).height := by
  have hmem : (Key.name "ty", Source.ofValue f.type.toJson) ∈ Source.ofMembers
      (("name", .string f.name) :: ("ty", f.type.toJson)
        :: (f.canonical.map fun c => ("canonical", c.toJson)).toList
        ++ [("annotations", f.annotations.toJson)]) := by
    rw [Source.ofMembers_eq_map]
    simp
  exact Nat.lt_succ_of_le (Source.heightOfMembers_le_iff.1 (Nat.le_refl _) _ hmem)

/-- What a compound type holds is read back if its fields are. -/
theorem reads_compound {readType : Reader ValueType} (name : String) {fields : List Field}
    (h : List.Forall₂ (Field.readWith readType).Reads (fieldsToJson fields) fields) :
    (Reader.record "struct variant Ty::Compound"
      [.mandatory "name" .string fun p v => (v, p.2),
        .mandatory "fields" (.list (Field.readWith readType)) fun p v => (p.1, v)]
      ("", [])).Reads
      (.object [("name", .string name), ("fields", .array (fieldsToJson fields))])
      (name, fields) := by
  let upTo (seen : List String) : String × List Field :=
    (if "name" ∈ seen then name else "", if "fields" ∈ seen then fields else [])
  refine Reader.reads_record upTo rfl (by simp) ?_ fun seen hseen => ?_
  · simp only [List.forall_mem_cons]
    refine ⟨.of_value (fun _ => rfl) (by simp) (Reader.reads_string name) fun seen => ?_,
      .of_value (fun _ => rfl) (by simp) (Reader.reads_sequence h) fun seen => ?_,
      List.forall_mem_nil _⟩
    all_goals simp [upTo]
  · obtain ⟨hname, hfields⟩ : "name" ∈ seen ∧ "fields" ∈ seen := by simpa using hseen
    dsimp only [upTo]
    rw [if_pos hname, if_pos hfields]

mutual

/-- A type is read back in more steps than it is high. -/
theorem ValueType.readWithin_reads_toJson : ∀ (t : ValueType) {n : Nat},
    (Source.ofValue t.toJson).height < n → (ValueType.readWithin n).Reads t.toJson t
  | _, 0, h => absurd h (Nat.not_lt_zero _)
  | .any, _ + 1, _ => Reader.reads_variant_unit rfl
  | .boolean, _ + 1, _ => Reader.reads_variant_unit rfl
  | .number, _ + 1, _ => Reader.reads_variant_unit rfl
  | .string, _ + 1, _ => Reader.reads_variant_unit rfl
  | .date, _ + 1, _ => Reader.reads_variant_unit rfl
  | .time, _ + 1, _ => Reader.reads_variant_unit rfl
  | .location, _ + 1, _ => Reader.reads_variant_unit rfl
  | .currency, _ + 1, _ => Reader.reads_variant_unit rfl
  | .measure unit, _ + 1, _ =>
    Reader.reads_variant_content rfl
      ((Reader.reads_string unit).map ValueType.measure).contentSingle
  | .entity kind, _ + 1, _ =>
    Reader.reads_variant_content rfl
      ((Reader.reads_string kind).map ValueType.entity).contentSingle
  | .enum literals, _ + 1, _ =>
    Reader.reads_variant_content rfl ((reads_strings literals).map ValueType.enum).contentSingle
  | .array t, n + 1, h => by
    -- A step goes with each object around a type, so what is left is enough for the type inside.
    have ht : (Source.ofValue t.toJson).height < n := by
      have : max (Source.ofValue t.toJson).height 0 + 1 < n + 1 := h
      omega
    have hread := t.readWithin_reads_toJson ht
    exact Reader.reads_variant_content rfl (hread.map ValueType.array).contentSingle
  | .compound name fields, n + 1, h => by
    have hfields : Source.heightOfItems (Source.ofItems (fieldsToJson fields)) < n := by
      have : max (max 0 (max (Source.heightOfItems (Source.ofItems (fieldsToJson fields)) + 1) 0)
        + 1) 0 + 1 < n + 1 := h
      omega
    have hread := reads_compound name (readWithin_reads_fieldsToJson fields hfields)
    exact Reader.reads_variant_content rfl
      (hread.map fun p => ValueType.compound p.1 p.2).contentFields
termination_by structural t => t

/-- Fields are read back in more steps than they are high. -/
theorem readWithin_reads_fieldsToJson : ∀ (fields : List Field) {n : Nat},
    Source.heightOfItems (Source.ofItems (fieldsToJson fields)) < n →
      List.Forall₂ (Field.readWith (ValueType.readWithin n)).Reads (fieldsToJson fields) fields
  | [], _, _ => .nil
  | ⟨name, type, canonical, annotations⟩ :: rest, n, h => by
    obtain ⟨hfield, hrest⟩ := Nat.max_lt.1 h
    have htype := Field.height_type_lt ⟨name, type, canonical, annotations⟩
    have hread := type.readWithin_reads_toJson (Nat.lt_trans htype hfield)
    exact .cons (Field.reads_toJson ⟨name, type, canonical, annotations⟩ hread)
      (readWithin_reads_fieldsToJson rest hrest)
termination_by structural fields => fields

end

/-- A type is read back. -/
theorem ValueType.reads_toJson (t : ValueType) : ValueType.read.Reads t.toJson t :=
  fun budget hbudget => t.readWithin_reads_toJson (Nat.lt_succ_of_le hbudget) budget hbudget

/-- Fields are read back. -/
theorem reads_fieldsToJson (fields : List Field) :
    (Reader.list Field.read).Reads (.array (fieldsToJson fields)) fields := by
  refine Reader.reads_sequence ?_
  rw [fieldsToJson_eq_map, List.forall₂_map_left_iff]
  exact List.forall₂_same.2 fun f _ => f.reads_toJson f.type.reads_toJson

/-! ## Classes -/

namespace Query

/-- The query with what stands under some names. -/
def upTo (q : Query) (seen : List String) : Query where
  name := if "name" ∈ seen then q.name else ""
  parents := if "extends" ∈ seen then q.parents else []
  canonical := if "canonical" ∈ seen then q.canonical else ""
  confirmation := if "confirmation" ∈ seen then q.confirmation else ""
  isList := if "is_list" ∈ seen then q.isList else false
  isMonitorable := if "is_monitorable" ∈ seen then q.isMonitorable else false
  confirm := if "confirm" ∈ seen then q.confirm else false
  fields := if "fields" ∈ seen then q.fields else []

/-- A query is read back. -/
theorem reads_toJson (q : Query) : Query.read.Reads q.toJson q := by
  refine Reader.reads_record q.upTo rfl (by simp) ?_ fun seen hseen => ?_
  · simp only [List.forall_mem_cons]
    refine ⟨.of_value (fun _ => rfl) (by simp) (Reader.reads_string q.name) fun seen => ?_,
      .of_value (fun _ => rfl) (by simp) (reads_strings q.parents) fun seen => ?_,
      .of_value (fun _ => rfl) (by simp) (Reader.reads_string q.canonical) fun seen => ?_,
      .of_value (fun _ => rfl) (by simp) (Reader.reads_string q.confirmation) fun seen => ?_,
      .of_value (fun _ => rfl) (by simp) (Reader.reads_bool q.isList) fun seen => ?_,
      .of_value (fun _ => rfl) (by simp) (Reader.reads_bool q.isMonitorable) fun seen => ?_,
      .of_value (fun _ => rfl) (by simp) (Reader.reads_bool q.confirm) fun seen => ?_,
      .of_value (fun _ => rfl) (by simp) (reads_fieldsToJson q.fields) fun seen => ?_,
      List.forall_mem_nil _⟩
    all_goals simp [upTo]
  · obtain ⟨hname, hparents, hcanonical, hconfirmation, hlist, hmonitorable, hconfirm, hfields⟩ :
        "name" ∈ seen ∧ "extends" ∈ seen ∧ "canonical" ∈ seen ∧ "confirmation" ∈ seen ∧
          "is_list" ∈ seen ∧ "is_monitorable" ∈ seen ∧ "confirm" ∈ seen ∧ "fields" ∈ seen := by
      simpa using hseen
    rw [upTo, if_pos hname, if_pos hparents, if_pos hcanonical, if_pos hconfirmation,
      if_pos hlist, if_pos hmonitorable, if_pos hconfirm, if_pos hfields]

end Query

namespace Import

/-- The import with what stands under some names. -/
def upTo (i : Import) (seen : List String) : Import where
  facet := if "facet" ∈ seen then i.facet else ""
  moduleName := if "module" ∈ seen then i.moduleName else ""

/-- An import is read back. -/
theorem reads_toJson (i : Import) : Import.read.Reads i.toJson i := by
  refine Reader.reads_record i.upTo rfl (by simp) ?_ fun seen hseen => ?_
  · simp only [List.forall_mem_cons]
    refine ⟨.of_value (fun _ => rfl) (by simp) (Reader.reads_string i.facet) fun seen => ?_,
      .of_value (fun _ => rfl) (by simp) (Reader.reads_string i.moduleName) fun seen => ?_,
      List.forall_mem_nil _⟩
    all_goals simp [upTo]
  · obtain ⟨hfacet, hmodule⟩ : "facet" ∈ seen ∧ "module" ∈ seen := by simpa using hseen
    rw [upTo, if_pos hfacet, if_pos hmodule]

end Import

namespace ClassDefinition

/-- The class with what stands under some names. -/
def upTo (c : ClassDefinition) (seen : List String) : ClassDefinition where
  kind := if "kind" ∈ seen then c.kind else ""
  name := if "name" ∈ seen then c.name else ""
  description := if "description" ∈ seen then c.description else ""
  imports := if "imports" ∈ seen then c.imports else []
  queries := if "queries" ∈ seen then c.queries else ∅

/-- A class is read back. -/
theorem reads_toJson (c : ClassDefinition) : ClassDefinition.read.Reads c.toJson c := by
  have himports : (Reader.list Import.read).Reads (.array (c.imports.map Import.toJson))
      c.imports := by
    refine Reader.reads_sequence ?_
    rw [List.forall₂_map_left_iff]
    exact List.forall₂_same.2 fun i _ => i.reads_toJson
  have hqueries : (Reader.map Query.read).Reads
      (.object (c.queries.entries.map fun e => (e.1, e.2.toJson))) c.queries := by
    have hentries : OrderedMap.ofList c.queries.entries = c.queries :=
      OrderedMap.ext (OrderedMap.entries_ofList_eq_iff.2 c.queries.nodup)
    have hmembers : List.Forall₂ (fun m e => m.1 = e.1 ∧ Query.read.Reads m.2 e.2)
        (c.queries.entries.map fun e => (e.1, e.2.toJson)) c.queries.entries := by
      rw [List.forall₂_map_left_iff]
      exact List.forall₂_same.2 fun e _ => ⟨rfl, e.2.reads_toJson⟩
    have hmap := Reader.reads_map hmembers
    rw [hentries] at hmap
    exact hmap
  refine Reader.reads_record c.upTo rfl (by simp) ?_ fun seen hseen => ?_
  · simp only [List.forall_mem_cons]
    refine ⟨.of_value (fun _ => rfl) (by simp) (Reader.reads_string c.kind) fun seen => ?_,
      .of_value (fun _ => rfl) (by simp) (Reader.reads_string c.name) fun seen => ?_,
      .of_value (fun _ => rfl) (by simp) (Reader.reads_string c.description) fun seen => ?_,
      .of_value (fun _ => rfl) (by simp) himports fun seen => ?_,
      .of_value (fun _ => rfl) (by simp) hqueries fun seen => ?_, List.forall_mem_nil _⟩
    all_goals simp [upTo]
  · obtain ⟨hkind, hname, hdescription, himports, hqueries⟩ : "kind" ∈ seen ∧ "name" ∈ seen ∧
        "description" ∈ seen ∧ "imports" ∈ seen ∧ "queries" ∈ seen := by simpa using hseen
    rw [upTo, if_pos hkind, if_pos hname, if_pos hdescription, if_pos himports, if_pos hqueries]

end ClassDefinition

/-! ## Well-formed values

What is written has each key of an object once, so it can stand in memory as it is.
-/

/-- Strings are written well-formed. -/
theorem wellFormed_strings (l : List String) : (Value.strings l).WellFormed :=
  .array fun _ hv => by
    obtain ⟨s, -, rfl⟩ := List.mem_map.1 hv
    exact .string s

/-- A member that may be left out adds no key but its own. -/
theorem keys_option_sublist {α : Type} (key : String) (f : α → Value) (a? : Option α) :
    List.Sublist ((a?.map fun a => (key, f a)).toList.map Prod.fst) [key] := by
  cases a? with
  | none => exact List.nil_sublist _
  | some a => exact List.Sublist.refl _

/-- What stands in a member that may be left out is what is written if it is there. -/
theorem wellFormed_option {α : Type} {key : String} {f : α → Value} {a? : Option α}
    (h : ∀ a, (f a).WellFormed) :
    ∀ m ∈ (a?.map fun a => (key, f a)).toList, m.2.WellFormed := by
  cases a? with
  | none => exact List.forall_mem_nil _
  | some a => exact List.forall_mem_singleton.2 (h a)

namespace PhraseSet

/-- The flags add no key but their own. -/
theorem keys_flagMembers_sublist (s : PhraseSet) :
    List.Sublist (s.flagMembers.map Prod.fst) ["apv", "implicit_identity"] := by
  unfold flagMembers
  cases s.apv <;> cases s.implicitIdentity <;> decide

/-- The flags are written well-formed. -/
theorem wellFormed_flagMembers (s : PhraseSet) : ∀ m ∈ s.flagMembers, m.2.WellFormed := by
  have hflag (set : Bool) (key : String) :
      ∀ m ∈ (if set then [(key, Value.bool true)] else []), m.2.WellFormed := by
    cases set with
    | false => exact List.forall_mem_nil _
    | true => exact List.forall_mem_singleton.2 (.bool true)
  exact List.forall_mem_append.2
    ⟨hflag s.apv "apv", hflag s.implicitIdentity "implicit_identity"⟩

/-- No tag has the name of a member that is not for phrases. -/
theorem notMem_map_name (tags : List PhraseTag) :
    ∀ key ∈ ["default", "apv", "implicit_identity"], key ∉ tags.map PhraseTag.name := by
  intro key hkey hname
  obtain ⟨tag, -, rfl⟩ := List.mem_map.1 hname
  cases tag <;> exact absurd hkey (by decide)

/-- A set is written well-formed: no tag has the name of another one or of a flag. -/
theorem wellFormed_toJson (s : PhraseSet) : s.toJson.WellFormed := by
  have hphrases : (phraseMembers s.phrases.entries).map Prod.fst =
      s.phrases.keys.map PhraseTag.name := by
    rw [phraseMembers, OrderedMap.keys, List.map_map, List.map_map]
    rfl
  have hflags := s.keys_flagMembers_sublist
  have hother := notMem_map_name s.phrases.keys
  have hnodup : (s.phrases.keys.map PhraseTag.name).Nodup :=
    s.phrases.nodup.map PhraseTag.name_injective
  rw [toJson_eq]
  refine .object ?_ ?_
  · -- The default, the tags and the flags are apart from each other, and each has no key twice.
    rw [List.map_cons, List.map_append, hphrases, List.nodup_cons, List.mem_append, not_or]
    refine ⟨⟨hother "default" (by decide), fun h => absurd (hflags.subset h) (by simp)⟩,
      hnodup.append (hflags.nodup (by decide)) fun key hname hflag => ?_⟩
    exact hother key (List.mem_cons_of_mem _ (hflags.subset hflag)) hname
  · rw [List.forall_mem_cons, List.forall_mem_append]
    refine ⟨.string _, fun m hm => ?_, s.wellFormed_flagMembers⟩
    obtain ⟨e, -, rfl⟩ := List.mem_map.1 hm
    exact wellFormed_strings e.2

end PhraseSet

/-- Annotations are written well-formed. -/
theorem Annotations.wellFormed_toJson (a : Annotations) : a.toJson.WellFormed := by
  refine .object ?_ ?_
  · simp only [List.map_append]
    exact ((((keys_option_sublist _ _ _).append (keys_option_sublist _ _ _)).append
      (keys_option_sublist _ _ _)).append (keys_option_sublist _ _ _)).append
        (keys_option_sublist _ _ _) |>.nodup (by decide)
  · simp only [List.forall_mem_append]
    exact ⟨⟨⟨⟨wellFormed_option .string, wellFormed_option .bool⟩, wellFormed_option .bool⟩,
      wellFormed_option .bool⟩, wellFormed_option .string⟩

/-- A field is written well-formed if its type is. -/
theorem Field.wellFormed_toJson (f : Field) (htype : f.type.toJson.WellFormed) :
    f.toJson.WellFormed := by
  refine .object ?_ ?_
  · have hkeys := (keys_option_sublist "canonical" PhraseSet.toJson f.canonical).append
      (List.Sublist.refl ["annotations"])
    rw [List.map_append]
    exact ((hkeys.cons_cons "ty").cons_cons "name").nodup (by decide)
  · simp only [List.forall_mem_append, List.forall_mem_cons]
    exact ⟨⟨.string _, htype, wellFormed_option PhraseSet.wellFormed_toJson⟩,
      f.annotations.wellFormed_toJson, List.forall_mem_nil _⟩

mutual

/-- A type is written well-formed. -/
theorem ValueType.wellFormed_toJson : ∀ t : ValueType, t.toJson.WellFormed
  | .any | .boolean | .number | .string | .date | .time | .location | .currency => .string _
  | .measure unit => .singleton (.string unit)
  | .entity kind => .singleton (.string kind)
  | .enum literals => .singleton (wellFormed_strings literals)
  | .array t => .singleton t.wellFormed_toJson
  | .compound name fields => by
    have hfields : (Value.array (fieldsToJson fields)).WellFormed :=
      .array (wellFormed_fieldsToJson fields)
    refine .singleton (.object (by simp) ?_)
    simp only [List.forall_mem_cons]
    exact ⟨.string name, hfields, List.forall_mem_nil _⟩
termination_by structural t => t

/-- Fields are written well-formed. -/
theorem wellFormed_fieldsToJson : ∀ fields : List Field,
    ∀ v ∈ fieldsToJson fields, v.WellFormed
  | [] => List.forall_mem_nil _
  | ⟨name, type, canonical, annotations⟩ :: rest =>
    List.forall_mem_cons.2 ⟨Field.wellFormed_toJson ⟨name, type, canonical, annotations⟩
      type.wellFormed_toJson, wellFormed_fieldsToJson rest⟩
termination_by structural fields => fields

end

/-- A query is written well-formed. -/
theorem Query.wellFormed_toJson (q : Query) : q.toJson.WellFormed := by
  refine .object (by simp) ?_
  simp only [List.forall_mem_cons]
  exact ⟨.string _, wellFormed_strings _, .string _, .string _, .bool _, .bool _, .bool _,
    .array (wellFormed_fieldsToJson q.fields), List.forall_mem_nil _⟩

/-- An import is written well-formed. -/
theorem Import.wellFormed_toJson (i : Import) : i.toJson.WellFormed := by
  refine .object (by simp) ?_
  simp only [List.forall_mem_cons]
  exact ⟨.string _, .string _, List.forall_mem_nil _⟩

/-- A class is written well-formed: its queries have names of their own. -/
theorem ClassDefinition.wellFormed_toJson (c : ClassDefinition) : c.toJson.WellFormed := by
  have himports : (Value.array (c.imports.map Import.toJson)).WellFormed :=
    .array (List.forall_mem_map.2 fun i _ => i.wellFormed_toJson)
  have hqueries : (Value.object (c.queries.entries.map fun e => (e.1, e.2.toJson))).WellFormed := by
    refine .object ?_ (List.forall_mem_map.2 fun e _ => e.2.wellFormed_toJson)
    rw [List.map_map]
    exact c.queries.nodup
  refine .object (by simp) ?_
  simp only [List.forall_mem_cons]
  exact ⟨.string _, .string _, .string _, himports, hqueries, List.forall_mem_nil _⟩

/-- A class loses nothing when it is written: what is written can stand in memory as it is, and is
read as the same class, with its queries, their fields and the phrases of these in order. -/
theorem ClassDefinition.readValue_toJson (c : ClassDefinition) :
    c.toJson.WellFormed ∧ readValue ClassDefinition.read c.toJson = .ok c :=
  ⟨c.wellFormed_toJson, c.reads_toJson.readValue⟩

end VocabularyCompiler
