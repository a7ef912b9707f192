import VocabularyCompiler.Proofs.Lowering.Members

/-!
# The datasets of a query

Whether a field names a dataset is told from its type inside all layers of arrays, and which one
from its key (`NamesDataset`). The key of an argument or of a member inside one is put together from
the type of the query and the names on the way to it, although the compounds are made before the
argument that they belong to is known (`datasets_exact`).
-/

namespace VocabularyCompiler

/-- The dataset that a field names under the given key: a text names one in any case, an entity only
if the policy knows one, and nothing else names any. -/
structure NamesDataset (p : Policy) (key : String) (f : Field) : Prop where
  text : f.type.element = .string →
    f.annotations.stringValues = some ((p.stringValueOverrides.get? key).getD key)
  entity : ∀ kind, f.type.element = .entity kind →
    f.annotations.stringValues = p.stringValueOverrides.get? key
  other : f.type.element ≠ .string → (∀ kind, f.type.element ≠ .entity kind) →
    f.annotations.stringValues = none

/-- A field names its dataset if it has the one for its type. -/
theorem NamesDataset.of_eq {p : Policy} {key : String} {f : Field}
    (h : f.annotations.stringValues = datasetFor? p key f.type) : NamesDataset p key f := by
  unfold datasetFor? at h
  constructor
  · intro htext
    rw [h, htext]
  · intro kind hentity
    rw [h, hentity]
  · intro htext hentity
    rw [h]
    split
    next kind hkind => exact absurd hkind (hentity kind)
    next htype => exact absurd htype htext
    next => rfl

/-- Inside all layers of arrays there is the type that was there, with datasets. -/
theorem ValueType.element_attachDatasets (p : Policy) (key : String) (t : ValueType) :
    (t.attachDatasets p key).element = t.element.attachDatasets p key := by
  induction t using ValueType.induction_array with
  | array t ih => exact ih
  | element t h =>
    cases t with
    | array t => cases h
    | _ => rfl

/-- What the members of a type name makes no difference to the field. -/
theorem datasetFor?_attachDatasets (p : Policy) (key stem : String) (t : ValueType) :
    datasetFor? p key (t.attachDatasets p stem) = datasetFor? p key t := by
  unfold datasetFor?
  rw [ValueType.element_attachDatasets]
  cases t.element <;> rfl

/-- A field that has no dataset yet names one under the key. -/
theorem namesDataset_attachDatasets {p : Policy} {f : Field}
    (h : f.annotations.stringValues = none) (key : String) :
    NamesDataset p key (f.attachDatasets p key) := by
  refine .of_eq ?_
  rw [Field.attachDatasets, datasetFor?_attachDatasets, Annotations.withDataset_eq, h,
    Option.or_none]

namespace Lowering

variable {l : Lowering} {hasGeo : Bool}

/-- A member as it is made has no dataset. -/
theorem Fresh.stringValues {g : Field} (h : l.Fresh hasGeo g) :
    g.annotations.stringValues = none := by
  obtain ⟨range, hannotations⟩ := h.annotations
  rw [hannotations, memberAnnotations]
  split_ifs <;> rfl

/-- No property of a struct that is written in place has a point in its name. -/
def WithoutPoints (l : Lowering) : Prop :=
  ∀ struct node, l.InPlace struct node →
    ∀ decl ∈ l.graph.structProperties l.policy struct, '.' ∉ decl.name.toList

/-- The arguments that every query has name their datasets under the key of the name. -/
theorem namesDataset_syntheticFields {type : String} {f : Field}
    (hf : f ∈ l.syntheticFields type) :
    NamesDataset l.policy (l.datasetKey type "name") f := by
  unfold syntheticFields at hf
  obtain ⟨g, hg, rfl⟩ := List.mem_map.1 hf
  refine namesDataset_attachDatasets ?_ _
  split at hg
  · obtain rfl := List.mem_singleton.1 hg
    rfl
  · rcases List.mem_pair.1 hg with rfl | rfl <;> rfl

/-- An argument names its dataset under its own name. -/
theorem namesDataset_argumentOf (owner name : String) (choice : Choice) (type : ValueType) :
    NamesDataset l.policy (l.datasetKey owner (l.policy.escapeKeyword name))
      (l.argumentOf owner name choice type) := by
  refine namesDataset_attachDatasets ?_ _
  dsimp only [fieldOf]
  split <;> rfl

/-- The key of an argument or of a member inside it is spelled by the names on the way to it. -/
theorem intercalate_datasetKey (type argument : String) (way : List String) :
    "_".intercalate (l.datasetKey type argument :: way) =
      l.options.entityPrefix ++ "_".intercalate (type :: argument :: way) := by
  rw [datasetKey, intercalate_key, String.intercalate_cons_append]

/-- No name on a way inside an argument has a point, if the properties of structs have none. -/
theorem forall_no_point_of_liesAt (htables : FlatTables l.policy) (hpoints : l.WithoutPoints)
    {node : TypeNode} {e : String × Choice} (he : e ∈ l.argumentsOf node) {type : ValueType}
    (htype : Typed (fun _ t => l.FreshInside hasGeo t) e.2 type) {members : List Field}
    (hmembers : (l.argumentOf node.name e.1 e.2 type).type.members? = some members)
    {way : List String} {g : Field} (h : LiesAt members way g) :
    ∀ name ∈ way, '.' ∉ name.toList := by
  intro name hname
  obtain ⟨start, f, hlies, rfl⟩ := h.exists_of_mem hname
  obtain ⟨g₀, hfresh, hname, -⟩ := exists_fresh_of_liesAt htables he htype hmembers hlies
  obtain ⟨struct, place, hplace, decl, hdecl, hdeclared⟩ := hfresh.source
  rw [← hname, ← hdeclared]
  exact hpoints struct place hplace decl hdecl

/-- An argument and every member inside it names its dataset under the key that the way spells. -/
theorem namesDataset_of_liesAt (htables : FlatTables l.policy) (hpoints : l.WithoutPoints)
    {node : TypeNode} {arguments : List Field}
    (harguments : List.Forall₂ (fun e f => ∃ type,
      Typed (fun _ t => l.FreshInside hasGeo t) e.2 type ∧ f = l.argumentOf node.name e.1 e.2 type)
      (l.argumentsOf node) arguments) {way : List String} {g : Field}
    (h : LiesAt arguments way g) :
    NamesDataset l.policy (l.options.entityPrefix ++ "_".intercalate (node.name :: way)) g := by
  cases h with
  | here hg =>
    obtain ⟨e, -, type, -, rfl⟩ := exists_of_forall₂ harguments.flip hg
    have hkey := intercalate_datasetKey (l := l) node.name (l.policy.escapeKeyword e.1) []
    rw [String.intercalate_singleton] at hkey
    exact hkey ▸ namesDataset_argumentOf node.name e.1 e.2 type
  | @inside _ members f _ way hf hmembers hlies =>
    obtain ⟨e, he, type, htype, rfl⟩ := exists_of_forall₂ harguments.flip hf
    obtain ⟨g₀, hfresh, -, hnamed⟩ := exists_fresh_of_liesAt htables he htype hmembers hlies
    have hpoint := forall_no_point_of_liesAt htables hpoints he htype hmembers hlies
    rw [if_neg (by simpa using hpoint), intercalate_datasetKey] at hnamed
    subst hnamed
    exact namesDataset_attachDatasets hfresh.stringValues _

/-- In a class, if the tables of the policy hold no compound type and no property of a struct has a
point in its name: each query is that of a type, and its arguments and the members inside them,
however deep, name their datasets under the keys that are spelled by the name of the type and the
names on the way. The arguments that every query has name theirs under the key of the name. -/
theorem datasets_exact (l : Lowering) (htables : FlatTables l.policy) (hpoints : l.WithoutPoints)
    {notes notes' : Diagnostics} {c : ClassDefinition}
    (hrun : l.classDefinition.run notes = .ok (c, notes')) {q : Query}
    (hq : q ∈ c.queries.values) :
    ∃ node ∈ l.emittedTypes, q.name = l.policy.escapeKeyword node.name ∧
      ∃ arguments, q.fields = l.syntheticFields node.name ++ arguments ∧
        arguments.map Field.name =
          (l.argumentsOf node).map (fun e => l.policy.escapeKeyword e.1) ∧
        (∀ f ∈ l.syntheticFields node.name, NamesDataset l.policy
          (l.options.entityPrefix ++ "_".intercalate [node.name, "name"]) f) ∧
        ∀ way g, LiesAt arguments way g → NamesDataset l.policy
          (l.options.entityPrefix ++ "_".intercalate (node.name :: way)) g := by
  obtain ⟨node, hnode, added, hyields⟩ := exists_yields_of_mem hrun hq
  have hquery := hyields.meets (query_meets_freshInside htables node)
  obtain ⟨arguments, hfields, harguments⟩ := hquery.fields
  refine ⟨node, hnode, hquery.name, arguments, hfields, ?_, fun f hf => ?_, fun way g hlies => ?_⟩
  · have hnames := hquery.map_name_fields
    rw [hfields, List.map_append] at hnames
    exact List.append_cancel_left hnames
  · rw [← intercalate_datasetKey, String.intercalate_singleton]
    exact namesDataset_syntheticFields hf
  · exact namesDataset_of_liesAt htables hpoints harguments hlies

/-- No property of a struct that places have in place has a point in its name. -/
theorem withoutPoints_locatedPlaces : locatedPlaces.WithoutPoints := by
  intro struct node hplace
  obtain ⟨⟨i, hi⟩, rfl⟩ := TypeGraph.get?_eq_some_iff.1 hplace.found
  have hall : ∀ node ∈ locatedPlaces.graph.nodes,
      ∀ decl ∈ locatedPlaces.graph.structProperties locatedPlaces.policy node.name,
        '.' ∉ decl.name.toList := by decide +kernel
  exact hall node (List.mem_of_getElem? hi)

/-- The street in the address of a place names a dataset under the names of the type, of the
argument and of the member. -/
theorem datasets_exact_locatedPlaces :
    FlatTables .standard ∧ locatedPlaces.WithoutPoints ∧ ∃ c notes q, ∃ node : TypeNode,
      ∃ arguments g, locatedPlaces.classDefinition.run [] = .ok (c, notes) ∧
      q ∈ c.queries.values ∧ q.name = "Place" ∧
      q.fields = locatedPlaces.syntheticFields node.name ++ arguments ∧
      LiesAt arguments ["address", "streetAddress"] g ∧
      g.annotations.stringValues = some "org.schema:Place_address_streetAddress" ∧
      NamesDataset locatedPlaces.policy (locatedPlaces.options.entityPrefix ++
        "_".intercalate [node.name, "address", "streetAddress"]) g := by
  have hfound : (result? locatedPlaces.classDefinition).any (fun c =>
      c.queries.values.any fun q => q.fields.any fun f => f.type.members?.any fun members =>
        members.any fun g => decide (q.name = "Place" ∧ f.name = "address" ∧
          g.name = "streetAddress" ∧ g.annotations.stringValues =
            some "org.schema:Place_address_streetAddress")) = true := by decide +kernel
  obtain ⟨c, notes, q, f, members, g, hrun, hq, hf, hmembers, hg, hfound⟩ :=
    exists_member_of_any hfound
  obtain ⟨hplace, haddress, hstreet, hdataset⟩ := of_decide_eq_true hfound
  obtain ⟨node, -, -, arguments, hfields, -, -, hnames⟩ :=
    datasets_exact locatedPlaces flatTables_standard withoutPoints_locatedPlaces hrun hq
  have hargument : f ∈ arguments := by
    rw [hfields] at hf
    rcases List.mem_append.1 hf with hf | hf
    · -- What has members is none of the arguments that every query has.
      rw [members?_syntheticFields hf] at hmembers
      cases hmembers
    · exact hf
  have hlies : LiesAt arguments ["address", "streetAddress"] g :=
    haddress ▸ .inside hargument hmembers (hstreet ▸ .here hg)
  exact ⟨flatTables_standard, withoutPoints_locatedPlaces, c, notes, q, node, arguments, g, hrun,
    hq, hplace, hfields, hlies, hdataset, hnames _ g hlies⟩

end Lowering

end VocabularyCompiler
