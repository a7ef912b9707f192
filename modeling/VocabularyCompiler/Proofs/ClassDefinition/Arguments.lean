import Mathlib.Data.List.Nodup
import VocabularyCompiler.ClassDefinition.Arguments

/-!
# Ways to arguments

The names on the way to an argument determine it, and the path of the argument gives them back
unless a name holds a point. `mapPhrases` changes the phrases of the fields at all depths, each as
its way tells, and nothing else about them. Where the names in every list of fields are different,
the ways of the fields are those on which an argument is found, and to change the phrases of an
argument is to change those of the one field whose way it is.
-/

namespace VocabularyCompiler

/-! ## Paths -/

/-- A path is the names in it, with points between them. -/
theorem intercalate_splitPath (path : String) : ".".intercalate (splitPath path) = path := by
  have hchars : (splitPath path).map String.toList = Text.splitWhere (· = '.') path.toList := by
    unfold splitPath
    rw [List.map_map]
    exact (List.map_congr_left fun _ _ => String.toList_ofList).trans (List.map_id _)
  rw [← String.toList_inj, String.toList_intercalate, hchars]
  exact Text.intercalate_splitWhere '.' path.toList

/-- Names without points are the names in their path. -/
theorem splitPath_intercalate {way : List String} (hne : way ≠ [])
    (h : ∀ name ∈ way, '.' ∉ name.toList) : splitPath (".".intercalate way) = way := by
  have hpieces : ∀ piece ∈ way.map String.toList, '.' ∉ piece := List.forall_mem_map.2 h
  have hsplit := Text.splitWhere_intercalate (List.map_eq_nil_iff.not.2 hne) hpieces
  unfold splitPath
  rw [String.toList_intercalate]
  change (Text.splitWhere (· = '.') (['.'].intercalate (way.map String.toList))).map _ = way
  rw [hsplit, List.map_map]
  exact (List.map_congr_left fun _ _ => String.ofList_toList).trans (List.map_id _)

/-! ## Ways -/

mutual

/-- The ways from a type to the fields inside it. -/
def ValueType.memberWays : ValueType → List (List String)
  | .array t => t.memberWays
  | .compound _ fields => fieldWays fields
  | _ => []
termination_by structural t => t

/-- The ways to fields and to the members inside them, each field right before its members. -/
def fieldWays : List Field → List (List String)
  | [] => []
  | ⟨name, type, _, _⟩ :: rest =>
    [name] :: (type.memberWays.map (name :: ·) ++ fieldWays rest)
termination_by structural l => l

end

/-- The ways to a field and to the members inside it. -/
def Field.ways (f : Field) : List (List String) := [f.name] :: f.type.memberWays.map (f.name :: ·)

/-- The ways to fields are those to each of them, in order. -/
theorem fieldWays_eq_flatMap (fields : List Field) :
    fieldWays fields = fields.flatMap Field.ways := by
  induction fields with
  | nil => rfl
  | cons f rest ih =>
    obtain ⟨name, type, canonical, annotations⟩ := f
    rw [fieldWays, ih]
    rfl

/-- The ways to the fields inside a type are those to the members of its compound. -/
theorem ValueType.memberWays_eq : ∀ t : ValueType,
    t.memberWays = (t.members?.map fieldWays).getD []
  | .array t => t.memberWays_eq
  | .compound _ _ | .any | .boolean | .number | .string | .date | .time | .location | .currency
  | .measure _ | .entity _ | .enum _ => rfl

/-- A way leads inside a type if and only if it leads to a member of its compound. -/
theorem ValueType.mem_memberWays_iff {t : ValueType} {way : List String} :
    way ∈ t.memberWays ↔ ∃ members, t.members? = some members ∧ way ∈ fieldWays members := by
  rw [t.memberWays_eq]
  cases t.members? <;> simp

/-- A way leads to a field or through it to a field inside its type. -/
theorem mem_fieldWays_iff {fields : List Field} {way : List String} :
    way ∈ fieldWays fields ↔ ∃ f ∈ fields, ∃ rest, way = f.name :: rest ∧
      (rest = [] ∨ rest ∈ f.type.memberWays) := by
  rw [fieldWays_eq_flatMap, List.mem_flatMap]
  refine exists_congr fun f => and_congr_right fun _ => ?_
  unfold Field.ways
  rw [List.mem_cons, List.mem_map]
  constructor
  · rintro (rfl | ⟨rest, hrest, rfl⟩)
    · exact ⟨[], rfl, Or.inl rfl⟩
    · exact ⟨rest, rfl, Or.inr hrest⟩
  · rintro ⟨rest, rfl, rfl | hrest⟩
    · exact Or.inl rfl
    · exact Or.inr ⟨rest, hrest, rfl⟩

/-- No way is empty. -/
theorem ne_nil_of_mem_fieldWays {fields : List Field} {way : List String}
    (h : way ∈ fieldWays fields) : way ≠ [] := by
  obtain ⟨f, -, rest, rfl, -⟩ := mem_fieldWays_iff.1 h
  exact List.cons_ne_nil _ _

/-- No way inside a type is empty. -/
theorem ne_nil_of_mem_memberWays {t : ValueType} {way : List String} (h : way ∈ t.memberWays) :
    way ≠ [] := by
  obtain ⟨members, -, hway⟩ := ValueType.mem_memberWays_iff.1 h
  exact ne_nil_of_mem_fieldWays hway

/-- The field at the end of a way: it is one of the fields, or stands inside the type of one of
them, through any layers of arrays. -/
inductive LiesAt : List Field → List String → Field → Prop where
  | here {fields : List Field} {f : Field} (hf : f ∈ fields) : LiesAt fields [f.name] f
  | inside {fields members : List Field} {f g : Field} {way : List String} (hf : f ∈ fields)
      (hmembers : f.type.members? = some members) (h : LiesAt members way g) :
      LiesAt fields (f.name :: way) g

/-- Every name on a way is that of a field on the way. -/
theorem LiesAt.exists_of_mem {fields : List Field} {way : List String} {g : Field}
    (h : LiesAt fields way g) {name : String} (hname : name ∈ way) :
    ∃ start f, LiesAt fields start f ∧ f.name = name := by
  induction h with
  | here hf =>
    obtain rfl := List.mem_singleton.1 hname
    exact ⟨_, _, .here hf, rfl⟩
  | inside hf hmembers _ ih =>
    rcases List.mem_cons.1 hname with rfl | hname
    · exact ⟨_, _, .here hf, rfl⟩
    · obtain ⟨start, f, hlies, rfl⟩ := ih hname
      exact ⟨_, f, .inside hf hmembers hlies, rfl⟩

mutual

/-- The paths of members are the ways to them, with points between the names. -/
theorem ValueType.memberPaths_eq_map (stem : String) : ∀ t : ValueType,
    t.memberPaths stem = t.memberWays.map fun way => stem ++ "." ++ ".".intercalate way
  | .array t => t.memberPaths_eq_map stem
  | .compound _ fields => argumentPaths_eq_map (stem ++ ".") fields
  | .any | .boolean | .number | .string | .date | .time | .location | .currency | .measure _
  | .entity _ | .enum _ => rfl

/-- The paths of arguments are the ways to them, with points between the names. -/
theorem argumentPaths_eq_map (start : String) : ∀ fields : List Field,
    argumentPaths start fields = (fieldWays fields).map fun way => start ++ ".".intercalate way
  | [] => rfl
  | ⟨name, type, _, _⟩ :: rest => by
    have hmembers : type.memberPaths (start ++ name) =
        (type.memberWays.map (name :: ·)).map fun way => start ++ ".".intercalate way := by
      rw [type.memberPaths_eq_map (start ++ name), List.map_map]
      refine List.map_congr_left fun way hway => ?_
      rw [Function.comp_apply, String.intercalate_cons_of_ne_nil (ne_nil_of_mem_memberWays hway)]
      simp only [String.append_assoc]
    rw [argumentPaths, fieldWays, hmembers, argumentPaths_eq_map start rest, List.map_cons,
      List.map_append, String.intercalate_singleton]

end

/-! ## Changing phrases -/

mutual

/-- A type with the phrases of the fields inside it changed, each as the way to it tells. -/
def ValueType.mapPhrases :
    (List String → Option PhraseSet → Option PhraseSet) → ValueType → ValueType
  | g, .array t => .array (t.mapPhrases g)
  | g, .compound name fields => .compound name (mapPhrases g fields)
  | _, t => t
termination_by structural _ t => t

/-- Fields with their phrases and those of the members inside them changed, each as the way to it
tells. -/
def mapPhrases : (List String → Option PhraseSet → Option PhraseSet) → List Field → List Field
  | _, [] => []
  | g, ⟨name, type, canonical, annotations⟩ :: rest =>
    ⟨name, type.mapPhrases fun way => g (name :: way), g [name] canonical, annotations⟩
      :: mapPhrases g rest
termination_by structural _ l => l

end

/-- A field with its phrases and those of the members inside it changed, each as the way to it
tells. -/
def Field.mapPhrases (g : List String → Option PhraseSet → Option PhraseSet) (f : Field) : Field :=
  { f with
    type := f.type.mapPhrases fun way => g (f.name :: way)
    canonical := g [f.name] f.canonical }

variable {g h : List String → Option PhraseSet → Option PhraseSet}

/-- To change fields is to change each of them. -/
theorem mapPhrases_eq_map (g : List String → Option PhraseSet → Option PhraseSet)
    (fields : List Field) : mapPhrases g fields = fields.map (Field.mapPhrases g) := by
  induction fields with
  | nil => rfl
  | cons f rest ih =>
    obtain ⟨name, type, canonical, annotations⟩ := f
    rw [mapPhrases, ih]
    rfl

mutual

/-- Only the ways inside a type matter. -/
theorem ValueType.mapPhrases_congr : ∀ {g h : List String → Option PhraseSet → Option PhraseSet}
    (t : ValueType), (∀ way ∈ t.memberWays, ∀ s, g way s = h way s) →
      t.mapPhrases g = t.mapPhrases h
  | _, _, .array t, heq => congrArg ValueType.array (t.mapPhrases_congr heq)
  | _, _, .compound name fields, heq =>
    congrArg (ValueType.compound name) (mapPhrases_congr fields heq)
  | _, _, .any, _ | _, _, .boolean, _ | _, _, .number, _ | _, _, .string, _ | _, _, .date, _
  | _, _, .time, _ | _, _, .location, _ | _, _, .currency, _ | _, _, .measure _, _
  | _, _, .entity _, _ | _, _, .enum _, _ => rfl

/-- Only the ways to the fields and to the members inside them matter. -/
theorem mapPhrases_congr : ∀ {g h : List String → Option PhraseSet → Option PhraseSet}
    (fields : List Field), (∀ way ∈ fieldWays fields, ∀ s, g way s = h way s) →
      mapPhrases g fields = mapPhrases h fields
  | _, _, [], _ => rfl
  | g, h, ⟨name, type, canonical, annotations⟩ :: rest, heq => by
    rw [fieldWays, List.forall_mem_cons, List.forall_mem_append, List.forall_mem_map] at heq
    rw [mapPhrases, mapPhrases, heq.1, mapPhrases_congr rest heq.2.2,
      type.mapPhrases_congr heq.2.1]

end

mutual

/-- A change that changes nothing leaves a type as it is. -/
theorem ValueType.mapPhrases_id : ∀ t : ValueType, t.mapPhrases (fun _ s => s) = t
  | .array t => congrArg ValueType.array t.mapPhrases_id
  | .compound name fields => congrArg (ValueType.compound name) (mapPhrases_id fields)
  | .any | .boolean | .number | .string | .date | .time | .location | .currency | .measure _
  | .entity _ | .enum _ => rfl

/-- A change that changes nothing leaves fields as they are. -/
theorem mapPhrases_id : ∀ fields : List Field, mapPhrases (fun _ s => s) fields = fields
  | [] => rfl
  | ⟨name, type, canonical, annotations⟩ :: rest => by
    rw [mapPhrases, type.mapPhrases_id, mapPhrases_id rest]

end

mutual

/-- One change of a type after another is one change. -/
theorem ValueType.mapPhrases_mapPhrases :
    ∀ (g h : List String → Option PhraseSet → Option PhraseSet) (t : ValueType),
      (t.mapPhrases h).mapPhrases g = t.mapPhrases fun way s => g way (h way s)
  | g, h, .array t => congrArg ValueType.array (t.mapPhrases_mapPhrases g h)
  | g, h, .compound name fields =>
    congrArg (ValueType.compound name) (mapPhrases_mapPhrases g h fields)
  | _, _, .any | _, _, .boolean | _, _, .number | _, _, .string | _, _, .date | _, _, .time
  | _, _, .location | _, _, .currency | _, _, .measure _ | _, _, .entity _ | _, _, .enum _ => rfl

/-- One change of fields after another is one change. -/
theorem mapPhrases_mapPhrases :
    ∀ (g h : List String → Option PhraseSet → Option PhraseSet) (fields : List Field),
      mapPhrases g (mapPhrases h fields) = mapPhrases (fun way s => g way (h way s)) fields
  | _, _, [] => rfl
  | g, h, ⟨name, type, canonical, annotations⟩ :: rest => by
    rw [mapPhrases, mapPhrases, mapPhrases, type.mapPhrases_mapPhrases,
      mapPhrases_mapPhrases g h rest]

end

mutual

/-- The ways inside a type are the same after a change of phrases. -/
theorem ValueType.memberWays_mapPhrases :
    ∀ (g : List String → Option PhraseSet → Option PhraseSet) (t : ValueType),
      (t.mapPhrases g).memberWays = t.memberWays
  | g, .array t => t.memberWays_mapPhrases g
  | g, .compound _ fields => fieldWays_mapPhrases g fields
  | _, .any | _, .boolean | _, .number | _, .string | _, .date | _, .time | _, .location
  | _, .currency | _, .measure _ | _, .entity _ | _, .enum _ => rfl

/-- The ways to fields are the same after a change of phrases. -/
theorem fieldWays_mapPhrases :
    ∀ (g : List String → Option PhraseSet → Option PhraseSet) (fields : List Field),
      fieldWays (mapPhrases g fields) = fieldWays fields
  | _, [] => rfl
  | g, ⟨name, type, canonical, annotations⟩ :: rest => by
    rw [mapPhrases, fieldWays, fieldWays, type.memberWays_mapPhrases, fieldWays_mapPhrases g rest]

end

/-- What holds of every type that is no array, and of an array if it holds of its elements, holds of
every type. -/
theorem ValueType.induction_array {motive : ValueType → Prop}
    (array : ∀ t, motive t → motive (.array t)) (element : ∀ t, t.isArray = false → motive t) :
    ∀ t, motive t
  | .array t => array t (t.induction_array array element)
  | .compound _ _ | .any | .boolean | .number | .string | .date | .time | .location | .currency
  | .measure _ | .entity _ | .enum _ => element _ rfl

/-- The members of a changed type are the changed members of the type. -/
theorem ValueType.members?_mapPhrases (g : List String → Option PhraseSet → Option PhraseSet) :
    ∀ t : ValueType, (t.mapPhrases g).members? = t.members?.map (VocabularyCompiler.mapPhrases g)
  | .array t => t.members?_mapPhrases g
  | .compound _ _ | .any | .boolean | .number | .string | .date | .time | .location | .currency
  | .measure _ | .entity _ | .enum _ => rfl

/-- To change the members of a type is to change the type. -/
theorem ValueType.mapMembers_eq_mapPhrases {F : List Field → List Field} :
    ∀ {t : ValueType},
      (∀ members, t.members? = some members → F members = VocabularyCompiler.mapPhrases g members) →
        t.mapMembers F = t.mapPhrases g
  | .array _, hF => congrArg ValueType.array (mapMembers_eq_mapPhrases hF)
  | .compound name fields, hF => congrArg (ValueType.compound name) (hF fields rfl)
  | .any, _ | .boolean, _ | .number, _ | .string, _ | .date, _ | .time, _ | .location, _
  | .currency, _ | .measure _, _ | .entity _, _ | .enum _, _ => rfl

/-- A change that leaves out the ways inside a type leaves the type as it is. -/
theorem ValueType.mapPhrases_eq_self {t : ValueType} (hg : ∀ way ∈ t.memberWays, ∀ s, g way s = s) :
    t.mapPhrases g = t := (t.mapPhrases_congr hg).trans t.mapPhrases_id

/-- A change that leaves out the ways through a field leaves the field as it is. -/
theorem Field.mapPhrases_eq_self {f : Field} (hg : ∀ way s, way.head? = some f.name → g way s = s) :
    f.mapPhrases g = f := by
  obtain ⟨name, type, canonical, annotations⟩ := f
  unfold Field.mapPhrases
  dsimp only at hg ⊢
  rw [hg _ _ rfl, ValueType.mapPhrases_eq_self fun way _ s => hg _ s rfl]

/-! ## Looking up and changing arguments -/

/-- The first field of a name, with its phrases changed. -/
theorem find?_mapPhrases (g : List String → Option PhraseSet → Option PhraseSet)
    (fields : List Field) (name : String) :
    (mapPhrases g fields).find? (fun f => f.name = name) =
      (fields.find? fun f => f.name = name).map (Field.mapPhrases g) := by
  rw [mapPhrases_eq_map, List.find?_map]
  rfl

/-- The way through a field to a member of its compound. -/
theorem findArgument?_cons_cons (fields : List Field) (name next : String) (rest : List String) :
    findArgument? fields (name :: next :: rest) =
      (fields.find? fun f => f.name = name).bind fun f =>
        f.type.members?.bind fun members => findArgument? members (next :: rest) := rfl

/-- An argument is found with its phrases changed as the way to it tells. -/
theorem findArgument?_mapPhrases :
    ∀ (g : List String → Option PhraseSet → Option PhraseSet) (way : List String)
      (fields : List Field), findArgument? (mapPhrases g fields) way =
        (findArgument? fields way).map fun f =>
          { f with
            type := f.type.mapPhrases fun rest => g (way ++ rest)
            canonical := g way f.canonical }
  | _, [], _ => rfl
  | g, [name], fields => by
    change (mapPhrases g fields).find? _ = (fields.find? _).map _
    rw [find?_mapPhrases]
    cases hf : fields.find? fun f => f.name = name with
    | none => rfl
    | some f =>
      obtain rfl : f.name = name := by simpa using List.find?_some hf
      rfl
  | g, name :: next :: rest, fields => by
    rw [findArgument?_cons_cons, findArgument?_cons_cons, find?_mapPhrases]
    cases hf : fields.find? fun f => f.name = name with
    | none => rfl
    | some f =>
      obtain rfl : f.name = name := by simpa using List.find?_some hf
      simp only [Option.map_some, Option.bind_some, Field.mapPhrases,
        ValueType.members?_mapPhrases]
      cases f.type.members? with
      | none => rfl
      | some members =>
        exact findArgument?_mapPhrases (fun way => g (f.name :: way)) (next :: rest) members

/-- Where the names are different, the first field of a name is the only one that can be changed. -/
theorem modifyFirst_eq_mapPhrases {name : String} {F : Field → Field} {fields : List Field}
    (hnames : (fields.map Field.name).Nodup)
    (hF : ∀ f ∈ fields, f.name = name → F f = f.mapPhrases g)
    (hg : ∀ way s, way.head? ≠ some name → g way s = s) :
    modifyFirst (fun f => f.name = name) F fields = mapPhrases g fields := by
  -- Fields of other names are left as they are by either change.
  have hother : ∀ f : Field, f.name ≠ name → f.mapPhrases g = f := fun f hne =>
    Field.mapPhrases_eq_self fun way s hway =>
      hg way s (by rw [hway]; exact fun h => hne (Option.some_inj.1 h))
  rw [mapPhrases_eq_map]
  induction fields with
  | nil => rfl
  | cons f rest ih =>
    rw [List.map_cons, List.nodup_cons] at hnames
    rw [List.forall_mem_cons] at hF
    rw [modifyFirst, List.map_cons]
    by_cases hname : f.name = name
    · have hrest : rest.map (Field.mapPhrases g) = rest := by
        refine (List.map_congr_left fun f' hf' => hother f' ?_).trans (List.map_id _)
        exact fun h => hnames.1 (List.mem_map.2 ⟨f', hf', h.trans hname.symm⟩)
      rw [if_pos (decide_eq_true hname), hF.1 hname, hrest]
    · rw [if_neg (by simpa using hname), hother f hname, ih hnames.2 hF.2]

/-- In every list of fields, at any depth, the names are different and hold no points. -/
inductive WellNamed : List Field → Prop where
  | intro {fields : List Field} (names : (fields.map Field.name).Nodup)
      (points : ∀ f ∈ fields, '.' ∉ f.name.toList)
      (members : ∀ f ∈ fields, ∀ members, f.type.members? = some members → WellNamed members) :
      WellNamed fields

namespace WellNamed

variable {fields : List Field}

theorem names (h : WellNamed fields) : (fields.map Field.name).Nodup := by
  cases h
  assumption

theorem points (h : WellNamed fields) : ∀ f ∈ fields, '.' ∉ f.name.toList := by
  cases h
  assumption

theorem members (h : WellNamed fields) {f : Field} (hf : f ∈ fields) {members : List Field}
    (hmembers : f.type.members? = some members) : WellNamed members := by
  cases h with
  | intro _ _ hall => exact hall f hf members hmembers

/-- A change of phrases changes no name. -/
theorem mapPhrases (h : WellNamed fields)
    (g : List String → Option PhraseSet → Option PhraseSet) :
    WellNamed (VocabularyCompiler.mapPhrases g fields) := by
  induction h generalizing g with
  | intro names points _ ih =>
    rw [mapPhrases_eq_map]
    refine .intro ?_ ?_ ?_
    · rwa [List.map_map]
    · exact List.forall_mem_map.2 points
    · rw [List.forall_mem_map]
      intro f hf members hmembers
      dsimp only [Field.mapPhrases] at hmembers
      rw [ValueType.members?_mapPhrases, Option.map_eq_some_iff] at hmembers
      obtain ⟨members', hmembers', rfl⟩ := hmembers
      exact ih f hf members' hmembers' _

/-- No name on a way holds a point. -/
theorem notMem_of_mem_fieldWays (h : WellNamed fields) {way : List String}
    (hway : way ∈ fieldWays fields) : ∀ name ∈ way, '.' ∉ name.toList := by
  induction h generalizing way with
  | intro _ points _ ih =>
    obtain ⟨f, hf, rest, rfl, hrest⟩ := mem_fieldWays_iff.1 hway
    rw [List.forall_mem_cons]
    refine ⟨points f hf, ?_⟩
    rcases hrest with rfl | hrest
    · exact fun _ h => nomatch h
    · obtain ⟨members, hmembers, hrest⟩ := ValueType.mem_memberWays_iff.1 hrest
      exact ih f hf members hmembers hrest

/-- The path of an argument gives the way to it. -/
theorem splitPath_intercalate (h : WellNamed fields) {way : List String}
    (hway : way ∈ fieldWays fields) : splitPath (".".intercalate way) = way :=
  VocabularyCompiler.splitPath_intercalate (ne_nil_of_mem_fieldWays hway)
    (h.notMem_of_mem_fieldWays hway)

/-- No two fields have one way. -/
theorem nodup_fieldWays (h : WellNamed fields) : (fieldWays fields).Nodup := by
  induction h with
  | @intro fields names _ _ ih =>
    rw [fieldWays_eq_flatMap, List.nodup_flatMap]
    constructor
    · intro f hf
      refine List.nodup_cons.2 ⟨fun hmem => ?_, ?_⟩
      · obtain ⟨rest, hrest, heq⟩ := List.mem_map.1 hmem
        exact ne_nil_of_mem_memberWays hrest (List.cons_inj_right _ |>.1 heq)
      · refine List.Nodup.map (List.cons_injective) ?_
        rw [f.type.memberWays_eq]
        cases hmembers : f.type.members? with
        | none => exact List.nodup_nil
        | some members => exact ih f hf members hmembers
    · -- Ways through fields of different names begin differently.
      refine (List.pairwise_map.1 names).imp fun {f f'} hne way hway hway' => hne ?_
      have hhead : ∀ {f : Field}, way ∈ f.ways → way.head? = some f.name := by
        intro f hf
        rcases List.mem_cons.1 hf with rfl | hf
        · rfl
        · obtain ⟨rest, -, rfl⟩ := List.mem_map.1 hf
          rfl
      exact Option.some_inj.1 ((hhead hway).symm.trans (hhead hway'))

/-- A field is the first one of its name. -/
theorem find?_name (h : WellNamed fields) {f : Field} (hf : f ∈ fields) :
    fields.find? (fun f' => f'.name = f.name) = some f := by
  cases hfind : fields.find? fun f' => f'.name = f.name with
  | none => exact absurd (List.find?_eq_none.1 hfind f hf) (by simp)
  | some f' =>
    have hname : f'.name = f.name := by simpa using List.find?_some hfind
    rw [List.inj_on_of_nodup_map h.names (List.mem_of_find?_eq_some hfind) hf hname]

/-- An argument is found on the ways of the fields and on no other. -/
theorem isSome_findArgument?_iff (h : WellNamed fields) {way : List String} :
    (findArgument? fields way).isSome = true ↔ way ∈ fieldWays fields := by
  induction h generalizing way with
  | @intro fields names points hmembers ih =>
    match way with
    | [] => exact iff_of_false (by simp [findArgument?]) fun h => ne_nil_of_mem_fieldWays h rfl
    | [name] =>
      change (fields.find? fun f => f.name = name).isSome = true ↔ _
      rw [List.find?_isSome, mem_fieldWays_iff]
      constructor
      · rintro ⟨f, hf, hname⟩
        exact ⟨f, hf, [], by rw [of_decide_eq_true hname], Or.inl rfl⟩
      · rintro ⟨f, hf, rest, heq, -⟩
        exact ⟨f, hf, decide_eq_true (List.cons_eq_cons.1 heq).1.symm⟩
    | name :: next :: rest =>
      rw [findArgument?_cons_cons, mem_fieldWays_iff]
      simp only [Option.isSome_bind, Option.any_eq_true]
      constructor
      · rintro ⟨f, hf, members, hm, hfound⟩
        have hname : f.name = name := by simpa using List.find?_some hf
        have hmem := List.mem_of_find?_eq_some hf
        exact ⟨f, hmem, next :: rest, by rw [hname], Or.inr
          (ValueType.mem_memberWays_iff.2 ⟨members, hm, (ih f hmem members hm).1 hfound⟩)⟩
      · rintro ⟨f, hf, rest', heq, hrest⟩
        -- The way leads through this field, and it is the one that is found by its name.
        obtain ⟨rfl, rfl⟩ := List.cons_eq_cons.1 heq
        obtain ⟨members, hm, hway⟩ :=
          ValueType.mem_memberWays_iff.1 (hrest.resolve_left (List.cons_ne_nil _ _))
        exact ⟨f, find?_name (.intro names points hmembers) hf, members, hm,
          (ih f hf members hm).2 hway⟩

/-- To change the phrases of an argument is to change those of the field whose way it is. -/
theorem modifyArgument_eq_mapPhrases (h : WellNamed fields)
    (change : Option PhraseSet → Option PhraseSet) (way : List String) :
    modifyArgument (fun f => { f with canonical := change f.canonical }) way fields =
      VocabularyCompiler.mapPhrases (fun way' s => if way' = way then change s else s) fields := by
  induction h generalizing way with
  | @intro fields names points hmembers ih =>
    match way with
    | [] =>
      refine ((mapPhrases_congr fields fun way hway s => ?_).trans (mapPhrases_id fields)).symm
      exact if_neg (ne_nil_of_mem_fieldWays hway)
    | [name] =>
      -- The field itself: its members are on longer ways.
      refine modifyFirst_eq_mapPhrases names (fun f hf hname => ?_) fun way s hhead => if_neg ?_
      · subst hname
        have htype : f.type.mapPhrases (fun rest s =>
            if f.name :: rest = [f.name] then change s else s) = f.type :=
          ValueType.mapPhrases_eq_self fun rest hrest s =>
            if_neg fun heq => ne_nil_of_mem_memberWays hrest (List.cons_eq_cons.1 heq).2
        dsimp only [Field.mapPhrases]
        rw [htype, if_pos rfl]
      · rintro rfl
        exact hhead rfl
    | name :: next :: rest =>
      -- A member: the field on the way to it keeps its own phrases.
      refine modifyFirst_eq_mapPhrases names (fun f hf hname => ?_) fun way s hhead => if_neg ?_
      · subst hname
        have htype := ValueType.mapMembers_eq_mapPhrases fun members hm =>
          ih f hf members hm (next :: rest)
        dsimp only [Field.mapPhrases]
        rw [htype, if_neg fun heq => List.cons_ne_nil _ _ (List.cons_eq_cons.1 heq).2.symm]
        simp only [List.cons.injEq, true_and]
      · rintro rfl
        exact hhead rfl

end WellNamed

/-- The paths of the arguments of a query are the ways to its fields. -/
theorem Query.arguments_eq_map (q : Query) :
    q.arguments = (fieldWays q.fields).map fun way => ".".intercalate way := by
  unfold Query.arguments
  simp only [argumentPaths_eq_map, String.empty_append]

/-- An argument is found at the paths of the arguments and at no other. -/
theorem Query.mem_arguments_iff {q : Query} (h : WellNamed q.fields) {path : String} :
    path ∈ q.arguments ↔ (q.argument? path).isSome = true := by
  rw [q.arguments_eq_map, Query.argument?, h.isSome_findArgument?_iff, List.mem_map]
  constructor
  · rintro ⟨way, hway, rfl⟩
    rwa [h.splitPath_intercalate hway]
  · exact fun hway => ⟨_, hway, intercalate_splitPath path⟩

/-! ## Without phrases -/

/-- A query whose arguments have no phrases. -/
def Query.withoutPhrases (q : Query) : Query :=
  { q with fields := mapPhrases (fun _ _ => none) q.fields }

/-- A class whose arguments have no phrases. -/
def ClassDefinition.withoutPhrases (c : ClassDefinition) : ClassDefinition :=
  { c with queries := c.queries.mapWithKey fun _ q => q.withoutPhrases }

end VocabularyCompiler
