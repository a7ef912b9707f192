import VocabularyCompiler.Proofs.Lowering.Choice
import VocabularyCompiler.Proofs.Lowering.Outcome
import VocabularyCompiler.Proofs.TypeGraph.Declarations

/-!
# Compounds inside compounds

The only thing that keeps a struct from being written in place inside itself is the list of the
structs that are being written, since the resolution of cycles does not look at inherited
properties. `WellNested` is what lowering makes sure of for every type: read down from some outer
compounds, no compound bears the name of one around it, and each is a struct with members of
different names. The dataset keys that are attached afterwards change no shape.
-/

namespace VocabularyCompiler

/-- The type `u` stands inside the type `t`, through arrays and members of compounds; `outer` are
the names of the compounds around it, the outermost first. -/
inductive ValueType.Inside : List String → ValueType → ValueType → Prop where
  | refl {t : ValueType} : Inside [] t t
  | array {outer : List String} {t u : ValueType} (h : Inside outer t u) :
      Inside outer (.array t) u
  | member {outer : List String} {name : String} {fields : List Field} {f : Field} {u : ValueType}
      (hf : f ∈ fields) (h : Inside outer f.type u) :
      Inside (name :: outer) (.compound name fields) u

/-- Inside a type without a compound there is none. -/
theorem ValueType.Inside.members?_eq_none {outer : List String} {t u : ValueType}
    (h : Inside outer t u) (ht : t.members? = none) : u.members? = none := by
  induction h with
  | refl => exact ht
  | array _ ih => exact ih ht
  | member => cases ht

/-- The members of a compound of the given name. -/
def ValueType.membersOf? (name : String) : ValueType → Option (List Field)
  | .compound name' fields => if name' = name then some fields else none
  | _ => none

/-- What has members under a name is a compound of that name. -/
theorem ValueType.eq_compound_of_membersOf? {name : String} {t : ValueType} {fields : List Field}
    (h : t.membersOf? name = some fields) : t = .compound name fields := by
  unfold membersOf? at h
  split at h
  · split at h
    next hname =>
      cases h
      rw [hname]
    next => cases h
  · cases h

/-- A type without a compound has no members to name datasets. -/
theorem ValueType.attachDatasets_of_flat (p : Policy) (key : String) :
    ∀ {t : ValueType}, t.members? = none → t.attachDatasets p key = t
  | .array t, h => congrArg ValueType.array (attachDatasets_of_flat p key (t := t) h)
  | .any, _ | .boolean, _ | .number, _ | .string, _ | .date, _ | .time, _ | .location, _
  | .currency, _ | .measure _, _ | .entity _, _ | .enum _, _ => rfl
  | .compound _ _, h => nomatch h

/-- To name datasets changes no name of a member. -/
theorem map_name_attachDatasets (p : Policy) (stem : String) (fields : List Field) :
    (attachDatasets p stem fields).map Field.name = fields.map Field.name := by
  induction fields with
  | nil => rfl
  | cons f rest ih =>
    obtain ⟨name, type, canonical, annotations⟩ := f
    rw [attachDatasets, List.map_cons, List.map_cons, ih]
    split <;> rfl

/-- A member that names datasets is one of those that were there: as it was, if its name holds a
point, and else with a dataset under its name. -/
theorem exists_named_of_mem_attachDatasets {p : Policy} {stem : String} {fields : List Field}
    {f : Field} (h : f ∈ attachDatasets p stem fields) :
    ∃ f₀ ∈ fields, f₀.name = f.name ∧
      if '.' ∈ f.name.toList then f = f₀ else f = f₀.attachDatasets p (stem ++ "_" ++ f.name) := by
  induction fields with
  | nil => cases h
  | cons g rest ih =>
    obtain ⟨name, type, canonical, annotations⟩ := g
    rw [attachDatasets] at h
    rcases List.mem_cons.1 h with rfl | h
    · refine ⟨_, List.mem_cons_self, ?_⟩
      split
      next => exact ⟨rfl, rfl⟩
      next => exact ⟨rfl, rfl⟩
    · obtain ⟨f₀, hf₀, hnamed⟩ := ih h
      exact ⟨f₀, List.mem_cons_of_mem _ hf₀, hnamed⟩

/-- A member that names datasets has the type that it had, or that type with datasets. -/
theorem exists_of_mem_attachDatasets {p : Policy} {stem : String} {fields : List Field} {f : Field}
    (h : f ∈ attachDatasets p stem fields) :
    ∃ g ∈ fields, f.type = g.type ∨ ∃ key, f.type = g.type.attachDatasets p key := by
  obtain ⟨g, hg, -, hnamed⟩ := exists_named_of_mem_attachDatasets h
  refine ⟨g, hg, ?_⟩
  split at hnamed
  next => exact Or.inl (congrArg Field.type hnamed)
  next => exact Or.inr ⟨_, congrArg Field.type hnamed⟩

namespace Lowering

variable {l : Lowering}

/-- Read down from the compounds `outer`, no compound bears the name of one around it, and each is
made from a struct and has members, of different names. -/
inductive WellNested (l : Lowering) : List String → ValueType → Prop where
  | flat {outer : List String} {t : ValueType} (h : t.members? = none) : WellNested l outer t
  | array {outer : List String} {t : ValueType} (h : WellNested l outer t) :
      WellNested l outer (.array t)
  | compound {outer : List String} {name : String} {node : TypeNode} {fields : List Field}
      (hplace : l.InPlace name node) (hnew : name ∉ outer) (hne : fields ≠ [])
      (hnames : (fields.map Field.name).Nodup)
      (hfields : ∀ f ∈ fields, WellNested l (outer ++ [name]) f.type) :
      WellNested l outer (.compound name fields)

namespace WellNested

variable {outer : List String} {t : ValueType}

/-- A type that names datasets is as well nested as it was. -/
theorem attachDatasets (h : l.WellNested outer t) (key : String) :
    l.WellNested outer (t.attachDatasets l.policy key) := by
  induction h generalizing key with
  | flat h =>
    rw [ValueType.attachDatasets_of_flat l.policy key h]
    exact .flat h
  | array _ ih => exact (ih key).array
  | @compound outer name node fields hplace hnew hne hnames hfields ih =>
    have hmap := map_name_attachDatasets l.policy key fields
    refine .compound hplace hnew (fun hnil => ?_) (hmap ▸ hnames) fun f hf => ?_
    · rw [hnil] at hmap
      exact hne (List.map_eq_nil_iff.1 hmap.symm)
    · obtain ⟨g, hg, htype | ⟨key', htype⟩⟩ := exists_of_mem_attachDatasets hf
      · exact htype ▸ hfields g hg
      · exact htype ▸ ih g hg key'

/-- A compound inside a well nested type bears none of the names around it, and is made from a
struct and has members, of different names. -/
theorem compound_of_inside {inner : List String} {u : ValueType} {name : String}
    {fields : List Field} (h : l.WellNested outer t) (houter : outer.Nodup)
    (hinside : ValueType.Inside inner t u) (hu : u = .compound name fields) :
    (outer ++ inner ++ [name]).Nodup ∧ fields ≠ [] ∧ (fields.map Field.name).Nodup ∧
      ∃ node, l.InPlace name node := by
  -- No type on the way down is flat, since there is a compound inside it.
  have hflat : ∀ {inner : List String} {t : ValueType}, ValueType.Inside inner t u →
      t.members? ≠ none := by
    intro inner t hinside ht
    rw [hu] at hinside
    exact nomatch hinside.members?_eq_none ht
  induction hinside generalizing outer with
  | refl =>
    subst hu
    cases h with
    | flat ht => exact absurd ht (hflat .refl)
    | @compound _ _ node _ hplace hnew hne hnames _ =>
      refine ⟨?_, hne, hnames, node, hplace⟩
      rw [List.append_nil, List.nodup_append_comm, List.singleton_append, List.nodup_cons]
      exact ⟨hnew, houter⟩
  | array hinside ih =>
    cases h with
    | flat ht => exact absurd ht (hflat hinside.array)
    | array h => exact ih h houter hu hflat
  | @member inner name' fields' f u hf hinside ih =>
    cases h with
    | flat ht => exact absurd ht (hflat (.member hf hinside))
    | compound _ hnew _ _ hfields =>
      -- The compound that is entered is one more of those around what is inside it.
      have hnodup : (outer ++ [name']).Nodup := by
        rw [List.nodup_append_comm, List.singleton_append, List.nodup_cons]
        exact ⟨hnew, houter⟩
      have hinner := ih (hfields f hf) hnodup hu hflat
      rwa [List.append_assoc outer, List.singleton_append] at hinner

end WellNested

/-- The properties that become members stand in the order in which they are declared. -/
theorem map_fst_chosen_sublist (decls : List PropertyDecl) :
    ((l.chosen decls).map Prod.fst).Sublist (decls.map PropertyDecl.name) := by
  induction decls with
  | nil => exact .slnil
  | cons decl rest ih =>
    rw [chosen, List.filterMap_cons, List.map_cons]
    cases (Choice.choose l.graph l.policy decl.name decl).1 with
    | none => exact ih.cons _
    | some choice => exact ih.cons_cons _

/-- The tables of the policy hold no compound type. -/
structure FlatTables (p : Policy) : Prop where
  builtin : ∀ e ∈ p.builtinTypes.entries, e.2.members? = none
  override : ∀ e ∈ p.typeOverrides.entries, e.2.members? = none

/-- The default policy has no compound type in its tables. -/
theorem flatTables_standard : FlatTables .standard := ⟨by decide, by decide⟩

/-- A type that a property has whatever its range is holds no compound. -/
theorem FlatTables.members?_fixed (htables : FlatTables l.policy) {name range : String}
    {decl : PropertyDecl} {type : ValueType}
    (hchoice : (Choice.choose l.graph l.policy name decl).1 = some ⟨range, .fixed type⟩) :
    type.members? = none := by
  rcases Choice.type_of_choose hchoice with htable | rfl
  · exact htables.override _ (OrderedMap.get?_eq_some_iff.1 htable)
  · dsimp only [Choice.quantity]
    split_ifs <;> rfl

/-- Only a compound can fail to have the property: a type without members has it, and so has an
array if its elements have. -/
structure DecidedByCompounds (P : ValueType → Prop) : Prop where
  flat {t : ValueType} (h : t.members? = none) : P t
  array {t : ValueType} (h : P t) : P (.array t)

namespace DecidedByCompounds

variable {P : ValueType → Prop}

/-- A range that is made an array or not has the property if it had it before. -/
theorem wrap (hP : DecidedByCompounds P) {t : ValueType} (h : P t) (array : Bool) :
    P (t.wrap array) := by
  unfold ValueType.wrap
  split
  · exact h
  · exact h
  · split
    · exact hP.array h
    · exact h

/-- The type of a property has it if the type of its range has and the tables hold no compound
type. -/
theorem of_typed (hP : DecidedByCompounds P) (htables : FlatTables l.policy) {name : String}
    {decl : PropertyDecl} {choice : Choice} {type : ValueType}
    (hchoice : (Choice.choose l.graph l.policy name decl).1 = some choice)
    (h : Typed (fun _ t => P t) choice type) : P type := by
  cases h with
  | fixed => exact hP.flat (htables.members?_fixed hchoice)
  | lower h => exact hP.wrap h _

end DecidedByCompounds

/-- Every range is lowered to a type with the property if only compounds can fail to have it, a
compound has it if its members have, and the tables hold no compound type. -/
theorem FlatTables.invariant (htables : FlatTables l.policy) {hasGeo : Bool}
    {P : List String → ValueType → Prop} (hP : ∀ building, DecidedByCompounds (P building))
    (hcompound : ∀ {building : List String} {range : String} {node : TypeNode}
      {fields : List Field}, l.InPlace range node → range ∉ building → fields ≠ [] →
      List.Forall₂ (fun e f => ∃ type, P (building ++ [range]) type ∧
        f = l.memberOf hasGeo e.1 e.2 type)
        (l.chosen (l.graph.structProperties l.policy range)) fields →
      P building (.compound range fields)) :
    l.Invariant hasGeo (fun building _ t => P building t) fun _ _ _ => True where
  builtin h := (hP _).flat (htables.builtin _ (OrderedMap.get?_eq_some_iff.1 h))
  element _ _ _ htype := (hP _).array htype
  undeclared _ _ _ := (hP _).flat rfl
  enum _ _ _ := (hP _).flat rfl
  again _ _ := (hP _).flat rfl
  compound {building range node fields} h hnew hne hfields := by
    refine hcompound h hnew hne ?_
    -- What is said of the ranges of the properties holds of their types.
    refine ((List.forall₂_and_left _ _).2 ⟨fun e he => he, hfields⟩).imp fun e f => ?_
    rintro ⟨he, type, htype, rfl⟩
    obtain ⟨decl, -, -, hchoice⟩ := mem_chosen_iff.1 he
    exact ⟨type, (hP _).of_typed htables hchoice htype, rfl⟩
  entity _ _ _ _ := (hP _).flat rfl
  empty _ _ _ := trivial
  unknown _ _ := trivial
  endless := trivial
  call _ _ := trivial

/-- Only compounds can fail to be well nested. -/
theorem decidedByCompounds_wellNested (outer : List String) :
    DecidedByCompounds (l.WellNested outer) := ⟨.flat, .array⟩

/-- Every range inside structs is lowered to a type that is well nested there. -/
theorem wellNested_invariant (htables : FlatTables l.policy) (hg : l.graph.DeclaresByName)
    (hasGeo : Bool) :
    l.Invariant hasGeo (fun building _ t => l.WellNested building t) fun _ _ _ => True := by
  refine htables.invariant decidedByCompounds_wellNested fun {_ range _ _} h hnew hne hfields => ?_
  refine .compound h hnew hne ?_ fun f hf => ?_
  · have hnames := map_eq_map_of_forall₂ (f := Prod.fst) (g := Field.name) hfields fun e f => by
      rintro ⟨type, -, rfl⟩
      rfl
    rw [← hnames]
    -- Members are some of the properties of the struct, which are collected under their names.
    exact (TypeGraph.nodup_structProperties hg range).sublist (map_fst_chosen_sublist _)
  · obtain ⟨e, -, type, htype, rfl⟩ := exists_of_forall₂ hfields.flip hf
    exact htype

/-- The arguments that every query has hold no compound. -/
theorem members?_syntheticFields {name : String} {f : Field} (hf : f ∈ l.syntheticFields name) :
    f.type.members? = none := by
  unfold syntheticFields at hf
  obtain ⟨g, hg, rfl⟩ := List.mem_map.1 hf
  have hflat : g.type.members? = none := by
    split at hg
    · obtain rfl := List.mem_singleton.1 hg
      rfl
    · rcases List.mem_pair.1 hg with rfl | rfl <;> rfl
  dsimp only [Field.attachDatasets]
  rwa [ValueType.attachDatasets_of_flat _ _ hflat]

/-- The arguments of every query have well nested types. -/
theorem query_meets_wellNested (htables : FlatTables l.policy) (hg : l.graph.DeclaresByName)
    (node : TypeNode) :
    Meets (l.query node) (fun q => ∀ f ∈ q.fields, l.WellNested [] f.type) fun _ => True := by
  refine (query_meets (T := fun _ t => l.WellNested [] t) fun e _ hasGeo _ _ =>
    (wellNested_invariant htables hg hasGeo).lowerRange_meets _ _ _).imp ?_
  intro q hq f hf
  obtain ⟨arguments, hfields, harguments⟩ := hq.fields
  rw [hfields] at hf
  rcases List.mem_append.1 hf with hf | hf
  · exact .flat (members?_syntheticFields hf)
  · obtain ⟨e, he, type, htype, rfl⟩ := exists_of_forall₂ harguments.flip hf
    obtain ⟨decl, -, hchoice⟩ := exists_choose_of_mem_surviving he
    exact ((decidedByCompounds_wellNested []).of_typed htables hchoice htype).attachDatasets _

/-- In the class of any facts, if the tables of the policy hold no compound type, no compound stands
inside one of its name, however deep; each has members, no two of one name; and each bears the name
of a type that is marked as a struct and is neither an enumeration nor a list. -/
theorem compounds_nest_properly (p : Policy) (facts : List Fact) (options : Options)
    (htables : FlatTables p) {notes notes' : Diagnostics} {c : ClassDefinition}
    (hrun : (Lowering.mk (TypeGraph.analyze p facts).1 p options).classDefinition.run notes =
      .ok (c, notes'))
    {q : Query} (hq : q ∈ c.queries.values) {f : Field} (hf : f ∈ q.fields) {outer : List String}
    {name : String} {fields : List Field}
    (hinside : ValueType.Inside outer f.type (.compound name fields)) :
    (outer ++ [name]).Nodup ∧ fields ≠ [] ∧ (fields.map Field.name).Nodup ∧
      ∃ node, (TypeGraph.analyze p facts).1.get? name = some node ∧
        node.classification.isEnum = false ∧ node.classification.isItemList = false ∧
        node.classification.representAsStruct = true := by
  obtain ⟨qs, hqs, hqueries⟩ := (classDefinition_meets fun node _ =>
    query_meets_wellNested htables (TypeGraph.declaresByName_analyze p facts) node).ok hrun
  obtain ⟨e, he, rfl⟩ := List.mem_map.1 hq
  rw [hqueries] at he
  obtain ⟨q, hmem, rfl⟩ := List.mem_map.1 (OrderedMap.entries_ofList_subset he)
  obtain ⟨node, -, hwell⟩ := exists_of_forall₂ hqs.flip hmem
  obtain ⟨hnodup, hne, hnames, node, hplace⟩ :=
    (hwell f hf).compound_of_inside List.nodup_nil hinside rfl
  exact ⟨hnodup, hne, hnames, node, hplace.found, hplace.enum, hplace.list, hplace.struct⟩

/-- Addresses with a contact point, where both inherit a list of addresses. -/
def relatedContacts : List Fact :=
  [.classFact "Thing" [] "" false,
    .classFact "StructuredValue" ["Thing"] "" false,
    .classFact "PostalAddress" ["StructuredValue"] "" false,
    .classFact "ContactPoint" ["StructuredValue"] "" false,
    .classFact "ItemList" ["Thing"] "" false,
    .classFact "PostalAddressList" ["ItemList"] "" false,
    .classFact "Place" ["Thing"] "" false,
    .propertyFact "address" ["Place"] ["PostalAddress"] "" false,
    .propertyFact "contact" ["PostalAddress"] ["ContactPoint"] "" false,
    .propertyFact "related" ["StructuredValue"] ["PostalAddressList"] "" false]

/-- The contact point of an address stands in the address of a place, and holds no address. -/
theorem compounds_nest_properly_relatedContacts :
    FlatTables .standard ∧ ∃ c notes q f fields,
      (Lowering.mk (TypeGraph.analyze .standard relatedContacts).1 .standard {}).classDefinition.run
        [] = .ok (c, notes) ∧ q ∈ c.queries.values ∧ f ∈ q.fields ∧
      ValueType.Inside ["PostalAddress"] f.type (.compound "ContactPoint" fields) ∧
      fields ≠ [] ∧ (fields.map Field.name).Nodup ∧
      ∃ node, (TypeGraph.analyze .standard relatedContacts).1.get? "ContactPoint" = some node ∧
        node.classification.isEnum = false ∧ node.classification.isItemList = false ∧
        node.classification.representAsStruct = true := by
  have htables : FlatTables .standard := ⟨by decide, by decide⟩
  have hfound : (result? (Lowering.mk (TypeGraph.analyze .standard relatedContacts).1 .standard
      {}).classDefinition).any (fun c => c.queries.values.any fun q => q.fields.any fun f =>
        (f.type.membersOf? "PostalAddress").any fun members => members.any fun g =>
          (g.type.membersOf? "ContactPoint").isSome) = true := by decide +kernel
  obtain ⟨c, hc, hfound⟩ := Option.any_eq_true _ _ |>.1 hfound
  obtain ⟨notes, hrun⟩ := exists_run_of_result? hc
  obtain ⟨q, hq, hfound⟩ := List.any_eq_true.1 hfound
  obtain ⟨f, hf, hfound⟩ := List.any_eq_true.1 hfound
  obtain ⟨members, hmembers, hfound⟩ := Option.any_eq_true _ _ |>.1 hfound
  obtain ⟨g, hg, hfound⟩ := List.any_eq_true.1 hfound
  obtain ⟨fields, hfields⟩ := Option.isSome_iff_exists.1 hfound
  have hinside : ValueType.Inside ["PostalAddress"] f.type (.compound "ContactPoint" fields) := by
    rw [ValueType.eq_compound_of_membersOf? hmembers]
    refine .member hg ?_
    rw [ValueType.eq_compound_of_membersOf? hfields]
    exact .refl
  obtain ⟨-, hproper⟩ :=
    compounds_nest_properly .standard relatedContacts {} htables hrun hq hf hinside
  exact ⟨htables, c, notes, q, f, fields, hrun, hq, hf, hinside, hproper⟩

end Lowering

end VocabularyCompiler
