import VocabularyCompiler.Proofs.Lowering.Keywords
import VocabularyCompiler.Proofs.Lowering.Notes

/-!
# The arguments of a query

A query has the arguments that every query has, and then one for each property of its type, in the
order in which they are declared. A property has none if its name is taken by an argument before it
or if no range is chosen for it, and in both cases a diagnostic says so, about the type or about the
property. `Outcomes` tells this for each property by itself; what the query notes is what its
properties note, so each property that has no argument has a diagnostic of its own.
-/

namespace VocabularyCompiler

/-- Annotations with a dataset differ from those without in the dataset alone. -/
theorem Annotations.withDataset_eq (p : Policy) (key : String) (type : ValueType)
    (a : Annotations) : a.withDataset p key type =
      { a with stringValues := (datasetFor? p key type).or a.stringValues } := by
  unfold withDataset
  cases datasetFor? p key type <;> rfl

/-- A property that is dropped has a diagnostic. -/
theorem Choice.exists_note_of_dropped {g : TypeGraph} {p : Policy} {name : String}
    {decl : PropertyDecl} (h : (choose g p name decl).1 = none) :
    ∃ d ∈ (choose g p name decl).2, d.subject = name := by
  unfold choose at h ⊢
  split
  next => exact ⟨_, List.mem_singleton_self _, rfl⟩
  next hexcluded =>
    rw [if_neg hexcluded] at h
    cases hbest : best? (RangeRank.of g p) decl.ranges with
    | none => exact ⟨_, List.mem_singleton_self _, rfl⟩
    | some range =>
      rw [hbest] at h
      dsimp only at h ⊢
      split
      next => exact ⟨_, List.mem_singleton_self _, rfl⟩
      next hrank =>
        rw [if_neg hrank] at h
        cases hoverride : p.typeOverrides.get? name with
        | some type =>
          rw [hoverride] at h
          cases h
        | none =>
          rw [hoverride] at h
          dsimp only at h
          split at h <;> cases h

namespace Lowering

variable {l : Lowering} {hasGeo : Bool}

/-! ## One property -/

/-- What a property of the type `owner` comes to, with what is noted meanwhile, if `taken` are the
names of the arguments before it. -/
structure OutcomeOf (l : Lowering) (owner : String) (taken : List String) (name : String)
    (decl : PropertyDecl) (outcome : Option Field × Diagnostics) : Prop where
  /-- If its name is taken it has no argument, which is noted about its type. -/
  shadowed : l.policy.escapeKeyword name ∈ taken →
    outcome.1 = none ∧ ∃ d ∈ outcome.2, d.subject = owner
  /-- If no range is chosen it has no argument, which is noted about the property. -/
  dropped : l.policy.escapeKeyword name ∉ taken →
    (Choice.choose l.graph l.policy name decl).1 = none →
      outcome.1 = none ∧ ∃ d ∈ outcome.2, d.subject = name
  /-- Otherwise it has an argument of its name. -/
  argument : l.policy.escapeKeyword name ∉ taken →
    (Choice.choose l.graph l.policy name decl).1 ≠ none →
      ∃ f, outcome.1 = some f ∧ f.name = l.policy.escapeKeyword name

/-- A property that is dropped becomes no field, and the choice alone is noted. -/
theorem of_yields_dropped {lower : String → Step ValueType} {name : String} {decl : PropertyDecl}
    {field? : Option Field} {added : Diagnostics}
    (hdropped : (Choice.choose l.graph l.policy name decl).1 = none)
    (h : Yields (l.property lower name decl) field? added) :
    field? = none ∧ added = (Choice.choose l.graph l.policy name decl).2 := by
  unfold property at h
  generalize Choice.choose l.graph l.policy name decl = chosen at hdropped h ⊢
  obtain ⟨choice?, notes⟩ := chosen
  dsimp only at hdropped
  subst hdropped
  obtain ⟨_, first, second, hfirst, hsecond, rfl⟩ :=
    Yields.of_bind (.report notes) (fun _ => .pure none) h
  obtain ⟨rfl, rfl⟩ := hsecond.of_pure
  rw [hfirst.of_report, List.append_nil]
  exact ⟨rfl, rfl⟩

/-- A property that is not dropped becomes a field. -/
theorem exists_field_of_yields {lower : String → Step ValueType} {name : String}
    {decl : PropertyDecl} {field? : Option Field} {added : Diagnostics}
    (hkept : (Choice.choose l.graph l.policy name decl).1 ≠ none)
    (h : Yields (l.property lower name decl) field? added) : ∃ f, field? = some f := by
  have hfield := h.meets (property_meets (T := fun _ _ => True) fun _ _ _ _ =>
    (meets_returns _).imp fun _ _ => trivial)
  generalize (Choice.choose l.graph l.policy name decl).1 = choice? at hkept hfield
  cases hfield with
  | none => exact absurd rfl hkept
  | some => exact ⟨_, rfl⟩

/-! ## All properties -/

/-- The arguments that properties come to. -/
def argumentsAmong (outcomes : List (Option Field × Diagnostics)) : List Field :=
  outcomes.filterMap Prod.fst

/-- What properties of the type `owner` come to, one after another: a property finds the names taken
that are `taken` from the start and those of the arguments before it. -/
structure Outcomes (l : Lowering) (owner : String) (taken : List String)
    (decls : List (String × PropertyDecl)) (outcomes : List (Option Field × Diagnostics)) :
    Prop where
  length : outcomes.length = decls.length
  each : ∀ (i : Nat) (name : String) (decl : PropertyDecl) (outcome : Option Field × Diagnostics),
    decls[i]? = some (name, decl) → outcomes[i]? = some outcome →
      l.OutcomeOf owner (taken ++ (argumentsAmong (outcomes.take i)).map Field.name) name decl
        outcome

namespace Outcomes

variable {owner : String} {taken : List String}

/-- No properties come to nothing. -/
theorem nil : l.Outcomes owner taken [] [] := ⟨rfl, fun _ _ _ _ h => nomatch h⟩

/-- An argument takes its name from the properties behind it. -/
theorem cons {name : String} {decl : PropertyDecl} {decls : List (String × PropertyDecl)}
    {outcome : Option Field × Diagnostics} {outcomes : List (Option Field × Diagnostics)}
    (hfirst : l.OutcomeOf owner taken name decl outcome)
    (hrest : l.Outcomes owner (taken ++ (argumentsAmong [outcome]).map Field.name) decls outcomes) :
    l.Outcomes owner taken ((name, decl) :: decls) (outcome :: outcomes) where
  length := congrArg Nat.succ hrest.length
  each i name' decl' outcome' hdecl houtcome := by
    cases i with
    | zero =>
      cases hdecl
      cases houtcome
      rw [List.take_zero]
      exact (List.append_nil taken).symm ▸ hfirst
    | succ i =>
      have heach := hrest.each i name' decl' outcome' hdecl houtcome
      have hsplit : argumentsAmong ((outcome :: outcomes).take (i + 1)) =
          argumentsAmong [outcome] ++ argumentsAmong (outcomes.take i) :=
        List.filterMap_append (l := [outcome])
      rwa [List.append_assoc, ← List.map_append, ← hsplit] at heach

end Outcomes

/-- The first property comes to its outcome, and the others find its argument among those before
them. -/
theorem exists_outcome_of_yields {owner name : String} {decl : PropertyDecl}
    {rest : List (String × PropertyDecl)} {fields all : List Field} {added : Diagnostics}
    (h : Yields (l.addArguments owner hasGeo fields ((name, decl) :: rest)) all added) :
    ∃ outcome second, l.OutcomeOf owner (fields.map Field.name) name decl outcome ∧
      added = outcome.2 ++ second ∧
      Yields (l.addArguments owner hasGeo (fields ++ argumentsAmong [outcome]) rest) all
        second := by
  have htaken : (fields.any fun f => f.name = l.policy.escapeKeyword name) = true ↔
      l.policy.escapeKeyword name ∈ fields.map Field.name := by simp
  have hnext := fun fields => addArguments_appends (l := l) owner hasGeo fields rest
  unfold addArguments at h
  dsimp only at h
  split at h
  next hmem =>
    rw [htaken] at hmem
    obtain ⟨_, first, second, hfirst, hrest, rfl⟩ :=
      Yields.of_bind (.report _) (fun _ => hnext fields) h
    rw [hfirst.of_report]
    refine ⟨(none, [_]), second, ⟨fun _ => ?_, ?_, ?_⟩, rfl, ?_⟩
    · exact ⟨rfl, _, List.mem_singleton_self _, rfl⟩
    · exact fun hfree => absurd hmem hfree
    · exact fun hfree => absurd hmem hfree
    · exact (List.append_nil fields).symm ▸ hrest
  next hfree =>
    rw [htaken] at hfree
    obtain ⟨field?, first, second, hfield, hrest, rfl⟩ :=
      Yields.of_bind (property_appends hasGeo name decl) (fun field? => by
        cases field? with
        | none => exact hnext fields
        | some f => exact hnext _) h
    by_cases hdropped : (Choice.choose l.graph l.policy name decl).1 = none
    · obtain ⟨rfl, rfl⟩ := of_yields_dropped hdropped hfield
      refine ⟨(none, _), second, ⟨?_, fun _ _ => ?_, ?_⟩, rfl, ?_⟩
      · exact fun hmem => absurd hmem hfree
      · exact ⟨rfl, Choice.exists_note_of_dropped hdropped⟩
      · exact fun _ hkept => absurd hdropped hkept
      · exact (List.append_nil fields).symm ▸ hrest
    · obtain ⟨f, rfl⟩ := exists_field_of_yields hdropped hfield
      refine ⟨(some _, first), second, ?_, rfl, hrest⟩
      refine ⟨?_, ?_, fun _ _ => ?_⟩
      · exact fun hmem => absurd hmem hfree
      · exact fun _ hnone => absurd hnone hdropped
      · exact ⟨_, rfl, rfl⟩

/-- To add arguments is to add those that the properties come to, one after another. -/
theorem outcomes_of_yields {owner : String} {decls : List (String × PropertyDecl)}
    {fields all : List Field} {added : Diagnostics}
    (h : Yields (l.addArguments owner hasGeo fields decls) all added) :
    ∃ outcomes, all = fields ++ argumentsAmong outcomes ∧ added = outcomes.flatMap Prod.snd ∧
      l.Outcomes owner (fields.map Field.name) decls outcomes := by
  induction decls generalizing fields added with
  | nil =>
    obtain ⟨rfl, rfl⟩ := h.of_pure
    exact ⟨[], (List.append_nil _).symm, rfl, .nil⟩
  | cons d rest ih =>
    obtain ⟨outcome, second, hfirst, rfl, hrest⟩ := exists_outcome_of_yields h
    obtain ⟨outcomes, hall, rfl, houtcomes⟩ := ih hrest
    rw [List.map_append] at houtcomes
    refine ⟨outcome :: outcomes, ?_, rfl, .cons hfirst houtcomes⟩
    rw [hall, List.append_assoc]
    exact congrArg (fields ++ ·) (List.filterMap_append (l := [outcome])).symm

/-! ## Queries -/

/-- The argument that identifies a record of the type is an entity of it, unique, and cannot be
filtered by. -/
structure Identifies (l : Lowering) (type : String) (f : Field) : Prop where
  name : f.name = "id"
  type : f.type = .entity (l.options.entityPrefix ++ type)
  unique : f.annotations.unique = some true
  filterable : f.annotations.filterable = some false

/-- The argument that names a record is a text and cannot be filtered by. -/
structure NamesRecord (f : Field) : Prop where
  name : f.name = "name"
  type : f.type = .string
  filterable : f.annotations.filterable = some false

/-- The arguments that a query on the type has whatever its properties are. -/
inductive Standing (l : Lowering) (type : String) : List Field → Prop where
  | root {id : Field} (htype : type = l.policy.rootType) (hid : l.Identifies type id) :
      Standing l type [id]
  | other {id name : Field} (htype : type ≠ l.policy.rootType) (hid : l.Identifies type id)
      (hname : NamesRecord name) : Standing l type [id, name]

theorem standing_syntheticFields (l : Lowering) (type : String) :
    l.Standing type (l.syntheticFields type) := by
  have hid : ∀ key, l.Identifies type ((l.idField type).attachDatasets l.policy key) := by
    intro key
    unfold Field.attachDatasets
    rw [Annotations.withDataset_eq]
    exact ⟨rfl, rfl, rfl, rfl⟩
  have hname : ∀ key, NamesRecord (l.nameField.attachDatasets l.policy key) := by
    intro key
    unfold Field.attachDatasets
    rw [Annotations.withDataset_eq]
    exact ⟨rfl, rfl, rfl⟩
  unfold syntheticFields
  dsimp only
  split
  next htype => exact .root htype (hid _)
  next htype => exact .other htype (hid _) (hname _)

/-- The query has the arguments that every query has and those that the properties of its type come
to, no two of one name, and `added` is what its properties note. -/
structure HasArguments (l : Lowering) (node : TypeNode) (q : Query) (added : Diagnostics) :
    Prop where
  name : q.name = l.policy.escapeKeyword node.name
  fields : ∃ standing outcomes, l.Standing node.name standing ∧
    l.Outcomes node.name (standing.map Field.name) node.properties.entries outcomes ∧
    q.fields = standing ++ argumentsAmong outcomes ∧ added = outcomes.flatMap Prod.snd
  distinct : (q.fields.map Field.name).Nodup

/-- The query that a type yields has the arguments of the type. -/
theorem hasArguments_of_yields {node : TypeNode} {q : Query} {added : Diagnostics}
    (h : Yields (l.query node) q added) : l.HasArguments node q added := by
  have hmade := h.meets (query_meets_madeFrom node)
  refine ⟨hmade.isQuery.name, ?_, hmade.distinct⟩
  unfold query at h
  dsimp only at h
  obtain ⟨fields, first, second, hfields, hquery, rfl⟩ :=
    Yields.of_bind (addArguments_appends _ _ _ _) (fun _ => .pure _) h
  obtain ⟨rfl, rfl⟩ := hquery.of_pure
  obtain ⟨outcomes, rfl, rfl, houtcomes⟩ := outcomes_of_yields hfields
  exact ⟨_, outcomes, standing_syntheticFields l node.name, houtcomes, rfl, List.append_nil _⟩

/-- The queries of a class are made from the emitted types, in order, and the diagnostics are those
of the queries, one after another. Each query has an entity of its type to identify a record by and,
unless the type is the root, a text to name it by, and then, in the order of their declaration, an
argument for each property of the type, under its name as far as that is no keyword. A property has
no argument if and only if an argument before it has that name or no range is chosen for it, and
then it has a diagnostic, about the type or about the property. No two arguments have one name. -/
theorem arguments_exact (l : Lowering) {notes notes' : Diagnostics} {c : ClassDefinition}
    (hrun : l.classDefinition.run notes = .ok (c, notes')) :
    ∃ parts : List (Query × Diagnostics),
      List.Forall₂ (fun node r => l.HasArguments node r.1 r.2) l.emittedTypes parts ∧
      c.queries = .ofList (parts.map fun r => (r.1.name, r.1)) ∧
      notes' = notes ++ parts.flatMap Prod.snd := by
  obtain ⟨parts, hqueries, hnotes, hparts⟩ := classDefinition_yields hrun
  exact ⟨parts, hparts.imp fun _ _ h => hasArguments_of_yields h, hqueries, hnotes⟩

/-- Places with a property that has the name of another argument, one without a known range, and a
keyword. -/
def placesWithGaps : Lowering :=
  ⟨(TypeGraph.analyze .standard
    [.classFact "Thing" [] "" false,
      .classFact "Place" ["Thing"] "" false,
      .propertyFact "name" ["Place"] ["Text"] "" false,
      .propertyFact "mystery" ["Place"] ["Nowhere"] "" false,
      .propertyFact "in" ["Place"] ["Text"] "" false]).1, .standard, {}⟩

/-- Of three properties of a place the keyword alone has an argument, and there is a diagnostic for
each of the others. -/
theorem arguments_exact_placesWithGaps :
    ∃ c notes, placesWithGaps.classDefinition.run [] = .ok (c, notes) ∧
      (∃ q ∈ c.queries.values, q.name = "Place" ∧
        q.fields.map Field.name = ["id", "name", "_in"]) ∧
      ∃ parts : List (Query × Diagnostics),
        List.Forall₂ (fun node r => placesWithGaps.HasArguments node r.1 r.2)
          placesWithGaps.emittedTypes parts ∧
        notes = parts.flatMap Prod.snd ∧ notes.map Diagnostic.subject = ["Place", "mystery"] := by
  have hfound : (placesWithGaps.classDefinition.run []).toOption.any (fun r =>
      decide ((∃ q ∈ r.1.queries.values, q.name = "Place" ∧
          q.fields.map Field.name = ["id", "name", "_in"]) ∧
        r.2.map Diagnostic.subject = ["Place", "mystery"])) = true := by decide +kernel
  cases hrun : placesWithGaps.classDefinition.run [] with
  | error e =>
    rw [hrun] at hfound
    cases hfound
  | ok r =>
    rw [hrun] at hfound
    obtain ⟨hquery, hsubjects⟩ := of_decide_eq_true hfound
    obtain ⟨parts, hparts, -, hnotes⟩ := arguments_exact placesWithGaps hrun
    exact ⟨r.1, r.2, rfl, hquery, parts, hparts, hnotes, hsubjects⟩

end Lowering

end VocabularyCompiler
