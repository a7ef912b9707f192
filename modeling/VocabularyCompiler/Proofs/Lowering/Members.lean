import VocabularyCompiler.Proofs.ClassDefinition.Arguments
import VocabularyCompiler.Proofs.Lowering.Arguments
import VocabularyCompiler.Proofs.Lowering.Nesting

/-!
# The members of compounds

The compounds are made before the argument that they belong to is known. A member is marked by its
name and by whether the query has a location of its own, at whatever depth it stands (`Fresh`), and
its dataset is named afterwards, from the argument downwards (`LiesAt.exists_of_attachDatasets`),
which changes no other mark. So all members inside the arguments of a query are marked by the same
rule (`marks_exact`), and nothing is left over from one query for the next one.
-/

namespace VocabularyCompiler

/-! ## Datasets -/

/-- The members of a type that names datasets are its members, which name theirs. -/
theorem ValueType.members?_attachDatasets (p : Policy) (key : String) (t : ValueType) :
    (t.attachDatasets p key).members? =
      t.members?.map (VocabularyCompiler.attachDatasets p key) := by
  induction t using ValueType.induction_array with
  | array t ih => exact ih
  | element t h =>
    cases t with
    | array t => cases h
    | _ => rfl

/-- A name behind a key is one more piece of the key. -/
theorem intercalate_key (stem name : String) (way : List String) :
    "_".intercalate ((stem ++ "_" ++ name) :: way) = "_".intercalate (stem :: name :: way) := by
  rw [String.intercalate_cons_append, String.intercalate_cons_cons]

/-- A member of a type that names datasets is one that it had: as it was, if a name on the way to it
holds a point, and else with a dataset under the key that the way spells. -/
theorem LiesAt.exists_of_attachDatasets {p : Policy} {stem : String} {fields : List Field}
    {way : List String} {g : Field} (h : LiesAt (attachDatasets p stem fields) way g) :
    ∃ g₀, LiesAt fields way g₀ ∧
      if ∃ name ∈ way, '.' ∈ name.toList then g = g₀
      else g = g₀.attachDatasets p ("_".intercalate (stem :: way)) := by
  generalize hattached : attachDatasets p stem fields = attached at h
  induction h generalizing stem fields with
  | @here _ f hf =>
    subst hattached
    obtain ⟨f₀, hf₀, hname, hattached⟩ := exists_named_of_mem_attachDatasets hf
    refine ⟨f₀, hname ▸ .here hf₀, ?_⟩
    simpa [String.intercalate_cons_cons] using hattached
  | @inside _ members f g way hf hmembers h ih =>
    subst hattached
    obtain ⟨f₀, hf₀, hname, hattached⟩ := exists_named_of_mem_attachDatasets hf
    by_cases hpoint : '.' ∈ f.name.toList
    · -- Behind a point nothing is named.
      rw [if_pos hpoint] at hattached
      subst hattached
      refine ⟨g, .inside hf₀ hmembers h, ?_⟩
      rw [if_pos ⟨f.name, List.mem_cons_self, hpoint⟩]
    · rw [if_neg hpoint] at hattached
      rw [hattached, Field.attachDatasets, ValueType.members?_attachDatasets] at hmembers
      obtain ⟨members₀, hmembers₀, hmembers⟩ := Option.map_eq_some_iff.1 hmembers
      obtain ⟨g₀, hg₀, hattached⟩ := ih hmembers
      refine ⟨g₀, hname ▸ .inside hf₀ hmembers₀ hg₀, ?_⟩
      rw [intercalate_key] at hattached
      simpa [hpoint] using hattached

namespace Lowering

variable {l : Lowering} {hasGeo : Bool}

/-! ## Members as they are made -/

/-- A member as it is made, in a query that has a location of its own if `hasGeo` is set: it is a
property of a struct that is written in place, and its annotations follow from its name. -/
structure Fresh (l : Lowering) (hasGeo : Bool) (g : Field) : Prop where
  annotations : ∃ range, g.annotations =
    memberAnnotations l.policy hasGeo g.name { orgSchemaType := some range }
  source : ∃ struct node, l.InPlace struct node ∧
    ∃ decl ∈ l.graph.structProperties l.policy struct, decl.name = g.name

/-- The members inside a type, however deep, are as they were made. -/
def FreshInside (l : Lowering) (hasGeo : Bool) (t : ValueType) : Prop :=
  ∀ members, t.members? = some members → ∀ way g, LiesAt members way g → l.Fresh hasGeo g

/-- Only compounds can have members other than they were made. -/
theorem decidedByCompounds_freshInside : DecidedByCompounds (l.FreshInside hasGeo) where
  flat h members hmembers := by
    rw [h] at hmembers
    cases hmembers
  array h := h

/-- Every range is lowered to a type with members as they are made. -/
theorem freshInside_invariant (htables : FlatTables l.policy) (hasGeo : Bool) :
    l.Invariant hasGeo (fun _ _ t => l.FreshInside hasGeo t) fun _ _ _ => True := by
  refine htables.invariant (fun _ => decidedByCompounds_freshInside)
    fun {_ range node _} hplace _ _ hfields => ?_
  intro members hmembers way g hlies
  cases hmembers
  -- A member of the compound is one of its own or stands inside one of its own.
  cases hlies with
  | here hg =>
    obtain ⟨e, he, type, -, rfl⟩ := exists_of_forall₂ hfields.flip hg
    obtain ⟨decl, hdecl, hname, -⟩ := mem_chosen_iff.1 he
    exact ⟨⟨e.2.range, rfl⟩, range, node, hplace, decl, hdecl, hname⟩
  | inside hf hmembers hlies =>
    obtain ⟨e, -, type, htype, rfl⟩ := exists_of_forall₂ hfields.flip hf
    exact htype _ hmembers _ g hlies

/-- A type becomes a query whose arguments have members that are made with regard to whether the
type has a location. -/
theorem query_meets_freshInside (htables : FlatTables l.policy) (node : TypeNode) :
    Meets (l.query node) (l.IsQuery (fun _ t =>
      l.FreshInside (node.properties.contains l.policy.geoProperty) t) node) fun _ => True :=
  query_meets_of_geo fun _ _ _ _ =>
    (freshInside_invariant htables _).lowerRange_meets _ _ _

/-- A member inside an argument is one as it was made, with a dataset under the key that the way to
it spells, unless a name on the way holds a point. -/
theorem exists_fresh_of_liesAt (htables : FlatTables l.policy) {node : TypeNode}
    {e : String × Choice} (he : e ∈ l.argumentsOf node) {type : ValueType}
    (htype : Typed (fun _ t => l.FreshInside hasGeo t) e.2 type) {members : List Field}
    (hmembers : (l.argumentOf node.name e.1 e.2 type).type.members? = some members)
    {way : List String} {g : Field} (h : LiesAt members way g) :
    ∃ g₀, l.Fresh hasGeo g₀ ∧ g₀.name = g.name ∧
      if ∃ name ∈ way, '.' ∈ name.toList then g = g₀
      else g = g₀.attachDatasets l.policy
        ("_".intercalate (l.datasetKey node.name (l.policy.escapeKeyword e.1) :: way)) := by
  obtain ⟨decl, -, hchoice⟩ := exists_choose_of_mem_surviving he
  rw [argumentOf, Field.attachDatasets, ValueType.members?_attachDatasets] at hmembers
  obtain ⟨members₀, hmembers₀, rfl⟩ := Option.map_eq_some_iff.1 hmembers
  obtain ⟨g₀, hg₀, hnamed⟩ := h.exists_of_attachDatasets
  have hname : g₀.name = g.name := by
    split at hnamed <;> rw [hnamed]
    rfl
  have hfresh := decidedByCompounds_freshInside.of_typed htables hchoice htype
  exact ⟨g₀, hfresh _ hmembers₀ way g₀ hg₀, hname, hnamed⟩

/-! ## Marks -/

/-- The marks of a member, in a query that has a location of its own if `hasGeo` is set: by its name
it cannot be filtered by, or is dropped beside a location, or is not marked. -/
structure Marked (p : Policy) (hasGeo : Bool) (g : Field) : Prop where
  noFilter : p.noFilter.contains g.name = true →
    g.annotations.filterable = some false ∧ g.annotations.drop = none
  dropped : p.noFilter.contains g.name = false → hasGeo = true →
    p.dropWithGeo.contains g.name = true →
      g.annotations.filterable = some false ∧ g.annotations.drop = some true
  kept : p.noFilter.contains g.name = false →
    (hasGeo = false ∨ p.dropWithGeo.contains g.name = false) →
      g.annotations.filterable = none ∧ g.annotations.drop = none

/-- A member is marked as it is made. -/
theorem Fresh.marked {g : Field} (h : l.Fresh hasGeo g) : Marked l.policy hasGeo g := by
  obtain ⟨range, hannotations⟩ := h.annotations
  constructor <;> rw [hannotations, memberAnnotations]
  · intro hfilter
    rw [if_pos hfilter]
    exact ⟨rfl, rfl⟩
  · intro hfilter hgeo hdrop
    rw [if_neg (by simp [hfilter]), if_pos (by simp [hgeo, hdrop])]
    exact ⟨rfl, rfl⟩
  · intro hfilter hkept
    rw [if_neg (by simp [hfilter]), if_neg (by simpa [imp_iff_not_or] using hkept)]
    exact ⟨rfl, rfl⟩

/-- To name a dataset changes no mark. -/
theorem Marked.attachDatasets {p : Policy} {g : Field} (h : Marked p hasGeo g) (p' : Policy)
    (key : String) : Marked p hasGeo (g.attachDatasets p' key) := by
  have hmarks : ∀ a : Annotations, (a.withDataset p' key g.type).filterable = a.filterable ∧
      (a.withDataset p' key g.type).drop = a.drop := fun a => by
    rw [Annotations.withDataset_eq]
    exact ⟨rfl, rfl⟩
  obtain ⟨hfilterable, hdrop⟩ := hmarks g.annotations
  constructor <;> rw [Field.attachDatasets, hfilterable, hdrop]
  · exact h.noFilter
  · exact h.dropped
  · exact h.kept

/-- The marks of the argument that a property becomes: it cannot be filtered by if the policy says
so of the property, and is never dropped. -/
structure MarkedArgument (p : Policy) (property : String) (f : Field) : Prop where
  name : f.name = p.escapeKeyword property
  filterable : f.annotations.filterable =
    if p.noFilter.contains property then some false else none
  drop : f.annotations.drop = none

/-- An argument is marked after its property, whatever its type is. -/
theorem markedArgument_argumentOf (owner name : String) (choice : Choice) (type : ValueType) :
    MarkedArgument l.policy name (l.argumentOf owner name choice type) := by
  unfold argumentOf
  dsimp only [Field.attachDatasets, fieldOf]
  rw [Annotations.withDataset_eq]
  refine ⟨rfl, ?_, ?_⟩ <;> dsimp only <;> split <;> rfl

/-- A member inside an argument of a query is marked, whether its dataset was named or not. -/
theorem marked_of_liesAt (htables : FlatTables l.policy) {node : TypeNode} {q : Query}
    (hq : l.IsQuery (fun _ t => l.FreshInside hasGeo t) node q) {f : Field} (hf : f ∈ q.fields)
    {members : List Field} (hmembers : f.type.members? = some members) {way : List String}
    {g : Field} (h : LiesAt members way g) : Marked l.policy hasGeo g := by
  obtain ⟨arguments, hfields, harguments⟩ := hq.fields
  rw [hfields] at hf
  rcases List.mem_append.1 hf with hf | hf
  · rw [members?_syntheticFields hf] at hmembers
    cases hmembers
  · obtain ⟨e, he, type, htype, rfl⟩ := exists_of_forall₂ harguments.flip hf
    obtain ⟨g₀, hfresh, -, hnamed⟩ := exists_fresh_of_liesAt htables he htype hmembers h
    split at hnamed
    · exact hnamed ▸ hfresh.marked
    · exact hnamed ▸ hfresh.marked.attachDatasets _ _

/-- In a class, if the tables of the policy hold no compound type: each query is that of a type, and
the members inside its arguments, however deep, are marked by their names and by whether the type
declares a location. An argument cannot be filtered by if and only if the policy says so of its
property, and is never dropped. Among whatever other types the type stands, its query is the same
one. -/
theorem marks_exact (l : Lowering) (htables : FlatTables l.policy) {notes notes' : Diagnostics}
    {c : ClassDefinition} (hrun : l.classDefinition.run notes = .ok (c, notes')) {q : Query}
    (hq : q ∈ c.queries.values) :
    ∃ node ∈ l.emittedTypes, q.name = l.policy.escapeKeyword node.name ∧
      (∃ arguments, q.fields = l.syntheticFields node.name ++ arguments ∧
        List.Forall₂ (fun e f => MarkedArgument l.policy e.1 f) (l.argumentsOf node) arguments) ∧
      (∀ f ∈ q.fields, ∀ members, f.type.members? = some members → ∀ way g,
        LiesAt members way g →
          Marked l.policy (node.properties.contains l.policy.geoProperty) g) ∧
      ∀ before id after, l.graph.node? id = some node → ∀ qs notes notes',
        (l.queries (before ++ id :: after)).run notes = .ok (qs, notes') →
          qs[(before.filterMap l.graph.node?).length]? = some q := by
  obtain ⟨node, hnode, added, hyields⟩ := exists_yields_of_mem hrun hq
  have hquery := hyields.meets (query_meets_freshInside htables node)
  refine ⟨node, hnode, hquery.name, ?_, ?_, ?_⟩
  · obtain ⟨arguments, hfields, harguments⟩ := hquery.fields
    refine ⟨arguments, hfields, harguments.imp fun e f => ?_⟩
    rintro ⟨type, -, rfl⟩
    exact markedArgument_argumentOf _ _ _ _
  · exact fun f hf members hmembers way g hlies => marked_of_liesAt htables hquery hf hmembers hlies
  · exact fun before id after hid qs notes notes' hrun => hyields.getElem?_queries hid hrun

/-- A member that is found in the class is one of an argument that the lowering returned. -/
theorem exists_member_of_any {P : Query → Field → Field → Bool}
    (h : (result? l.classDefinition).any (fun c => c.queries.values.any fun q =>
      q.fields.any fun f => f.type.members?.any fun members => members.any (P q f)) = true) :
    ∃ c notes q f members g, l.classDefinition.run [] = .ok (c, notes) ∧ q ∈ c.queries.values ∧
      f ∈ q.fields ∧ f.type.members? = some members ∧ g ∈ members ∧ P q f g = true := by
  obtain ⟨c, notes, q, f, hrun, hq, hf, hfound⟩ := exists_field_of_any h
  obtain ⟨members, hmembers, hfound⟩ := (Option.any_eq_true _ _).1 hfound
  obtain ⟨g, hg, hfound⟩ := List.any_eq_true.1 hfound
  exact ⟨c, notes, q, f, members, g, hrun, hq, hf, hmembers, hg, hfound⟩

/-- Places with a location and an address. -/
def locatedPlaces : Lowering :=
  ⟨(TypeGraph.analyze .standard
    [.classFact "Thing" [] "" false,
      .classFact "StructuredValue" ["Thing"] "" false,
      .classFact "PostalAddress" ["StructuredValue"] "" false,
      .classFact "Place" ["Thing"] "" false,
      .propertyFact "geo" ["Place"] ["GeoCoordinates"] "" false,
      .propertyFact "address" ["Place"] ["PostalAddress"] "" false,
      .propertyFact "streetAddress" ["PostalAddress"] ["Text"] "" false]).1, .standard, {}⟩

/-- The street in the address of a place is dropped beside the location of the place. -/
theorem marks_exact_locatedPlaces :
    FlatTables .standard ∧ ∃ c notes q, ∃ node : TypeNode, ∃ f members g,
      locatedPlaces.classDefinition.run [] = .ok (c, notes) ∧ q ∈ c.queries.values ∧
      q.name = "Place" ∧ q.name = locatedPlaces.policy.escapeKeyword node.name ∧
      f ∈ q.fields ∧ f.type.members? = some members ∧ LiesAt members ["streetAddress"] g ∧
      g.annotations.drop = some true ∧
      Marked locatedPlaces.policy
        (node.properties.contains locatedPlaces.policy.geoProperty) g := by
  have hfound : (result? locatedPlaces.classDefinition).any (fun c =>
      c.queries.values.any fun q => q.fields.any fun f => f.type.members?.any fun members =>
        members.any fun g => decide (q.name = "Place" ∧ g.name = "streetAddress" ∧
          g.annotations.drop = some true)) = true := by decide +kernel
  obtain ⟨c, notes, q, f, members, g, hrun, hq, hf, hmembers, hg, hfound⟩ :=
    exists_member_of_any hfound
  obtain ⟨hplace, hname, hdrop⟩ := of_decide_eq_true hfound
  have hlies : LiesAt members ["streetAddress"] g := hname ▸ .here hg
  obtain ⟨node, -, hnode, -, hmarked, -⟩ :=
    marks_exact locatedPlaces flatTables_standard hrun hq
  exact ⟨flatTables_standard, c, notes, q, node, f, members, g, hrun, hq, hplace, hnode, hf,
    hmembers, hlies, hdrop, hmarked f hf members hmembers _ g hlies⟩

end Lowering

end VocabularyCompiler
