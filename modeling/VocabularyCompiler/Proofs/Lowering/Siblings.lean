import VocabularyCompiler.Proofs.Lowering.Datasets

/-!
# One property on two types

Whether a type has a location of its own decides how the members of compounds are marked, and the
name of the type where their datasets are. Both run through the whole lowering, but nothing else
depends on them: without marks and datasets a range is lowered to the same type on every type
(`sameUpTo_lowerRange`). So a property that two types declare alike becomes the same argument on
both, down to the phrases of every member (`siblings_resemble`).
-/

namespace VocabularyCompiler

/-! ## Without marks and datasets -/

/-- What the annotations of a member hold, but for its marks and its dataset. -/
def Annotations.unmarked (a : Annotations) : Annotations :=
  { a with filterable := none, drop := none, stringValues := none }

mutual

/-- A type whose members have neither marks nor datasets. -/
def ValueType.unmarked : ValueType → ValueType
  | .array t => .array t.unmarked
  | .compound name fields => .compound name (unmarked fields)
  | t => t
termination_by structural t => t

/-- Members without marks and datasets, at any depth. -/
def unmarked : List Field → List Field
  | [] => []
  | ⟨name, type, canonical, annotations⟩ :: rest =>
    ⟨name, type.unmarked, canonical, annotations.unmarked⟩ :: unmarked rest
termination_by structural l => l

end

/-- A member without marks and datasets, at any depth. -/
def Field.unmarked (f : Field) : Field :=
  { f with type := f.type.unmarked, annotations := f.annotations.unmarked }

theorem unmarked_eq_map (fields : List Field) : unmarked fields = fields.map Field.unmarked := by
  induction fields with
  | nil => rfl
  | cons f rest ih =>
    obtain ⟨name, type, canonical, annotations⟩ := f
    rw [unmarked, ih]
    rfl

/-- Two arguments are the same but for their datasets, and the marks and datasets of the members
inside them. -/
structure Field.Resembles (f g : Field) : Prop where
  name : f.name = g.name
  type : f.type.unmarked = g.type.unmarked
  canonical : f.canonical = g.canonical
  annotations :
    { f.annotations with stringValues := none } = { g.annotations with stringValues := none }

/-- To name a dataset is to change nothing else. -/
theorem Annotations.unmarked_withDataset (p : Policy) (key : String) (type : ValueType)
    (a : Annotations) : (a.withDataset p key type).unmarked = a.unmarked := by
  rw [withDataset_eq]
  rfl

/-- To mark a member is to change nothing else. -/
theorem Lowering.unmarked_mark (p : Policy) (hasGeo : Bool) (name : String) (f : Field) :
    ({ f with annotations := memberAnnotations p hasGeo name f.annotations } : Field).unmarked =
      f.unmarked := by
  unfold Field.unmarked memberAnnotations
  split_ifs <;> rfl

mutual

/-- A type that names datasets is the same but for them. -/
theorem ValueType.unmarked_attachDatasets (p : Policy) (key : String) :
    ∀ t : ValueType, (t.attachDatasets p key).unmarked = t.unmarked
  | .array t => congrArg ValueType.array (t.unmarked_attachDatasets p key)
  | .compound name fields =>
    congrArg (ValueType.compound name) (unmarked_attachDatasets p key fields)
  | .any | .boolean | .number | .string | .date | .time | .location | .currency | .measure _
  | .entity _ | .enum _ => rfl

/-- Members that name datasets are the same but for them. -/
theorem unmarked_attachDatasets (p : Policy) (stem : String) :
    ∀ fields : List Field, unmarked (attachDatasets p stem fields) = unmarked fields
  | [] => rfl
  | ⟨name, type, canonical, annotations⟩ :: rest => by
    have hrest := unmarked_attachDatasets p stem rest
    have htype := type.unmarked_attachDatasets p (stem ++ "_" ++ name)
    rw [attachDatasets]
    split
    · rw [unmarked, unmarked, hrest]
    · rw [unmarked, unmarked, hrest, htype, Annotations.unmarked_withDataset]

end

namespace ValueType

/-- Types that differ in marks and datasets alone are made arrays alike. -/
theorem unmarked_wrap (array : Bool) (t : ValueType) :
    (t.wrap array).unmarked = t.unmarked.wrap array := by
  cases t <;> cases array <;> rfl

theorem isArray_unmarked (t : ValueType) : t.unmarked.isArray = t.isArray := by
  cases t <;> rfl

theorem isMeasure_unmarked (t : ValueType) : t.unmarked.isMeasure = t.isMeasure := by
  cases t <;> rfl

end ValueType

/-- Phrases depend neither on marks nor on datasets. -/
theorem Phrase.synthesize_congr {t u : ValueType} (h : t.unmarked = u.unmarked) (name : String)
    (p : Policy) (manual : Bool) : synthesize name t p manual = synthesize name u p manual := by
  have harray : t.isArray = u.isArray := by rw [← t.isArray_unmarked, h, u.isArray_unmarked]
  have hmeasure : t.isMeasure = u.isMeasure := by
    rw [← t.isMeasure_unmarked, h, u.isMeasure_unmarked]
  unfold synthesize derive nounPhrase
  rw [harray, hmeasure]

namespace Lowering

/-! ## Lowering with and without a location -/

/-- Values that two computations return differ only in what is forgotten, if the computations do. -/
theorem SameUpTo.eq_of_returns {α γ : Type} {e : α → γ} {x y : Step α} (h : SameUpTo e x y)
    {a b : α} (hx : Returns x a) (hy : Returns y b) : e a = e b := by
  obtain ⟨before, after, hx⟩ := hx
  obtain ⟨before', after', hy⟩ := hy
  have hrun := h before before'
  rw [hx, hy] at hrun
  exact Except.ok.inj hrun

variable {l : Lowering} {hasGeo hasGeo' : Bool}

/-- The field that a property becomes is the same but for marks and datasets if the type is. -/
theorem unmarked_fieldOf (name : String) (choice : Choice) {t u : ValueType}
    (h : t.unmarked = u.unmarked) :
    (l.fieldOf name choice t).unmarked = (l.fieldOf name choice u).unmarked := by
  unfold fieldOf Field.unmarked
  dsimp only
  rw [h, Phrase.synthesize_congr h]

section Steps

variable {lower lower' : String → Step ValueType}

/-- A property becomes the same field if the ranges become the same types. -/
theorem sameUpTo_property
    (h : ∀ range, SameUpTo ValueType.unmarked (lower range) (lower' range)) (name : String)
    (decl : PropertyDecl) :
    SameUpTo (Option.map Field.unmarked) (l.property lower name decl)
      (l.property lower' name decl) := by
  unfold property
  generalize Choice.choose l.graph l.policy name decl = chosen
  obtain ⟨choice?, notes⟩ := chosen
  refine (SameUpTo.report notes notes).bind fun _ _ _ => ?_
  cases choice? with
  | none => exact .pure rfl
  | some choice =>
    have hfield : ∀ t u : ValueType, t.unmarked = u.unmarked →
        SameUpTo (Option.map Field.unmarked) (Pure.pure (some (l.fieldOf name choice t)))
          (Pure.pure (some (l.fieldOf name choice u))) :=
      fun t u htype => .pure (congrArg some (unmarked_fieldOf name choice htype))
    cases hshape : choice.shape with
    | fixed type =>
      simp only [hshape]
      exact (SameUpTo.pure (e := ValueType.unmarked) rfl).bind hfield
    | lower array =>
      simp only [hshape]
      refine ((h choice.range).map (d := ValueType.unmarked) fun t u htype => ?_).bind hfield
      rw [ValueType.unmarked_wrap, ValueType.unmarked_wrap, htype]

/-- Properties become the same members. -/
theorem sameUpTo_members (h : ∀ range, SameUpTo ValueType.unmarked (lower range) (lower' range))
    (decls : List PropertyDecl) :
    SameUpTo (List.map Field.unmarked) (l.members hasGeo lower decls)
      (l.members hasGeo' lower' decls) := by
  induction decls with
  | nil => exact .pure rfl
  | cons decl rest ih =>
    unfold members
    refine (sameUpTo_property h decl.name decl).bind fun f? g? hfield => ?_
    refine ih.bind fun fields fields' hfields => ?_
    cases f? with
    | none =>
      obtain rfl := Option.map_eq_none_iff.1 hfield.symm
      exact .pure hfields
    | some f =>
      obtain ⟨g, rfl, hfg⟩ := Option.map_eq_some_iff.1 hfield.symm
      -- The marks are made here, and forgotten at once.
      refine .pure ?_
      rw [List.map_cons, List.map_cons, unmarked_mark, unmarked_mark, hfg, hfields]

/-- A struct becomes the same compound. -/
theorem sameUpTo_compound (h : ∀ range, SameUpTo ValueType.unmarked (lower range) (lower' range))
    (name : String) :
    SameUpTo ValueType.unmarked (l.compound hasGeo lower name)
      (l.compound hasGeo' lower' name) := by
  unfold compound
  refine (sameUpTo_members h _).bind fun fields fields' hfields => ?_
  cases fields with
  | nil =>
    obtain rfl := List.map_eq_nil_iff.1 hfields.symm
    exact .stop _
  | cons f rest =>
    cases fields' with
    | nil => cases hfields
    | cons f' rest' =>
      rw [← unmarked_eq_map, ← unmarked_eq_map] at hfields
      exact .pure (congrArg (ValueType.compound name) hfields)

end Steps

/-- A range becomes the same type if the ranges that it comes down to do. -/
theorem sameUpTo_lowerStep {lower lower' : List String → String → Step ValueType}
    (h : ∀ building range,
      SameUpTo ValueType.unmarked (lower building range) (lower' building range))
    (building : List String) (range : String) :
    SameUpTo ValueType.unmarked (l.lowerStep hasGeo lower building range)
      (l.lowerStep hasGeo' lower' building range) := by
  unfold lowerStep
  cases l.policy.builtinTypes.get? range with
  | some type => exact .pure rfl
  | none =>
    cases l.graph.get? range with
    | none => exact .stop _
    | some node =>
      dsimp only
      -- A list, an enumeration, a struct, or else a type that is referred to.
      split
      · split
        · exact (h _ _).bind fun t u htype => .pure (congrArg ValueType.array htype)
        · exact (SameUpTo.report _ _).bind fun _ _ _ => .pure rfl
      split
      · exact .pure rfl
      split
      · split
        · exact (SameUpTo.report _ _).bind fun _ _ _ => .pure rfl
        · exact sameUpTo_compound (h _) range
      · exact .pure rfl

/-- A range becomes the same type with and without a location, in any number of steps. -/
theorem sameUpTo_lowerRange (hasGeo hasGeo' : Bool) (n : Nat) (building : List String)
    (range : String) :
    SameUpTo ValueType.unmarked (l.lowerRange hasGeo n building range)
      (l.lowerRange hasGeo' n building range) := by
  induction n generalizing building range with
  | zero => exact .stop _
  | succ n ih => exact sameUpTo_lowerStep ih building range

/-! ## Arguments -/

/-- The argument `f` of the query on a type is what the property `name` of the type becomes. -/
structure BecomesArgument (l : Lowering) (node : TypeNode) (q : Query) (name : String)
    (decl : PropertyDecl) (f : Field) : Prop where
  declared : node.properties.get? name = some decl
  kept : ∃ choice, (name, choice) ∈ l.argumentsOf node
  argument : f ∈ q.fields
  named : f.name = l.policy.escapeKeyword name

/-- What becomes of a property is made from the range that is chosen for it. -/
theorem BecomesArgument.exists_eq {node : TypeNode} {q : Query} {name : String}
    {decl : PropertyDecl} {f : Field} (h : l.BecomesArgument node q name decl f)
    (hq : l.MadeFrom node q) :
    ∃ choice type, (Choice.choose l.graph l.policy name decl).1 = some choice ∧
      Typed (fun range t => ∃ hasGeo, Returns (l.lowerArgument hasGeo range) t) choice type ∧
      f = l.argumentOf node.name name choice type := by
  obtain ⟨choice, hkept⟩ := h.kept
  obtain ⟨arguments, hfields, harguments⟩ := hq.isQuery.fields
  obtain ⟨g, hg, type, htype, rfl⟩ := exists_of_forall₂ harguments hkept
  obtain ⟨decl', hdecl', hchoice⟩ := exists_choose_of_mem_surviving hkept
  rw [← OrderedMap.get?_eq_some_iff, h.declared] at hdecl'
  obtain rfl := Option.some_inj.1 hdecl'
  -- No two arguments of a query have one name.
  have hmem : l.argumentOf node.name name choice type ∈ q.fields := by
    rw [hfields]
    exact List.mem_append_right _ hg
  have heq := List.inj_on_of_nodup_map hq.distinct h.argument hmem h.named
  exact ⟨choice, type, hchoice, htype, heq⟩

/-- Arguments that are made from one range are alike if their types are. -/
theorem resembles_argumentOf (owner owner' name : String) (choice : Choice) {t u : ValueType}
    (h : t.unmarked = u.unmarked) :
    (l.argumentOf owner name choice t).Resembles (l.argumentOf owner' name choice u) := by
  unfold argumentOf Field.attachDatasets
  dsimp only [fieldOf]
  refine ⟨rfl, ?_, ?_, ?_⟩
  · dsimp only
    rw [ValueType.unmarked_attachDatasets, ValueType.unmarked_attachDatasets, h]
  · dsimp only
    rw [Phrase.synthesize_congr h]
  · dsimp only
    rw [Annotations.withDataset_eq, Annotations.withDataset_eq]

/-- In a class each emitted type has its query. If two types declare a property of one name alike,
with the same ranges and comment, and it becomes an argument of the queries of both, then the two
arguments are the same, down to every member inside them, but for their datasets and the marks and
datasets of members. -/
theorem siblings_resemble (l : Lowering) {notes notes' : Diagnostics} {c : ClassDefinition}
    (hrun : l.classDefinition.run notes = .ok (c, notes')) :
    ∃ qs : List Query, c.queries = .ofList (qs.map fun q => (q.name, q)) ∧
      List.Forall₂ l.MadeFrom l.emittedTypes qs ∧
      ∀ node node' q q', l.MadeFrom node q → l.MadeFrom node' q' →
        ∀ name decl decl' f f', l.BecomesArgument node q name decl f →
          l.BecomesArgument node' q' name decl' f' → decl.ranges = decl'.ranges →
            decl.comment = decl'.comment → f.Resembles f' := by
  obtain ⟨qs, hqs, hqueries⟩ := (classDefinition_meets fun node _ => query_meets_madeFrom node).ok
    hrun
  refine ⟨qs, hqueries, hqs, ?_⟩
  intro node node' q q' hq hq' name decl decl' f f' hf hf' hranges hcomment
  obtain ⟨choice, type, hchoice, htype, rfl⟩ := hf.exists_eq hq
  obtain ⟨choice', type', hchoice', htype', rfl⟩ := hf'.exists_eq hq'
  -- The choice sees nothing else of a declaration.
  have hchoose : Choice.choose l.graph l.policy name decl =
      Choice.choose l.graph l.policy name decl' := by
    unfold Choice.choose Choice.holdsSeveral
    rw [hranges, hcomment]
  rw [← hchoose, hchoice] at hchoice'
  obtain rfl := Option.some_inj.1 hchoice'
  refine resembles_argumentOf _ _ _ _ ?_
  cases htype with
  | fixed =>
    cases htype' with
    | fixed => rfl
  | lower h =>
    cases htype' with
    | lower h' =>
      obtain ⟨hasGeo, ht⟩ := h
      obtain ⟨hasGeo', ht'⟩ := h'
      have hsame := (sameUpTo_lowerRange hasGeo hasGeo' l.depth [] _).eq_of_returns ht ht'
      rw [ValueType.unmarked_wrap, ValueType.unmarked_wrap, hsame]

/-- Places with a location and people without, both with an address. -/
def neighbours : Lowering :=
  ⟨(TypeGraph.analyze .standard
    [.classFact "Thing" [] "" false,
      .classFact "StructuredValue" ["Thing"] "" false,
      .classFact "PostalAddress" ["StructuredValue"] "" false,
      .classFact "Place" ["Thing"] "" false,
      .classFact "Person" ["Thing"] "" false,
      .propertyFact "geo" ["Place"] ["GeoCoordinates"] "" false,
      .propertyFact "address" ["Place", "Person"] ["PostalAddress"] "" false,
      .propertyFact "streetAddress" ["PostalAddress"] ["Text"] "" false]).1, .standard, {}⟩

/-- Whether a member right inside an argument is dropped. -/
def dropsMember (f : Field) : Bool :=
  f.type.members?.any fun members => members.any fun g => g.annotations.drop = some true

/-- The street is dropped from the address of a place and not from that of a person, and the two
addresses are alike. -/
theorem siblings_resemble_neighbours :
    ∃ c notes q q' f f', neighbours.classDefinition.run [] = .ok (c, notes) ∧
      q ∈ c.queries.values ∧ q.name = "Place" ∧ q' ∈ c.queries.values ∧ q'.name = "Person" ∧
      f ∈ q.fields ∧ f.name = "address" ∧ f' ∈ q'.fields ∧ f'.name = "address" ∧
      dropsMember f = true ∧ dropsMember f' = false ∧ f.Resembles f' := by
  have hfound : (result? neighbours.classDefinition).any (fun c => c.queries.values.any fun q =>
      q.fields.any fun f => decide (q.name = "Place" ∧ f.name = "address" ∧
        dropsMember f = true)) = true := by decide +kernel
  have hfound' : (result? neighbours.classDefinition).any (fun c => c.queries.values.any fun q =>
      q.fields.any fun f => decide (q.name = "Person" ∧ f.name = "address" ∧
        dropsMember f = false)) = true := by decide +kernel
  obtain ⟨c, notes, q, f, hrun, hq, hf, hfound⟩ := exists_field_of_any hfound
  obtain ⟨c', notes', q', f', hrun', hq', hf', hfound'⟩ := exists_field_of_any hfound'
  obtain ⟨hplace, haddress, hdrops⟩ := of_decide_eq_true hfound
  obtain ⟨hperson, haddress', hkeeps⟩ := of_decide_eq_true hfound'
  rw [hrun] at hrun'
  cases hrun'
  obtain ⟨qs, hqueries, hqs, hresemble⟩ := siblings_resemble neighbours hrun
  -- Both queries are those of types that declare the address in the same way.
  have hdeclares : ∀ node ∈ neighbours.emittedTypes,
      neighbours.policy.escapeKeyword node.name ∈ ["Place", "Person"] →
        node.properties.get? "address" = some ⟨"address", ["PostalAddress"], ""⟩ ∧
          "address" ∈ (neighbours.argumentsOf node).map Prod.fst := by decide +kernel
  have hbecomes : ∀ q ∈ c.queries.values, q.name ∈ ["Place", "Person"] → ∀ f ∈ q.fields,
      f.name = "address" → ∃ node, neighbours.MadeFrom node q ∧
        neighbours.BecomesArgument node q "address" ⟨"address", ["PostalAddress"], ""⟩ f := by
    intro q hq hname f hf haddress
    obtain ⟨e, he, rfl⟩ := List.mem_map.1 hq
    rw [hqueries] at he
    obtain ⟨q, hmem, rfl⟩ := List.mem_map.1 (OrderedMap.entries_ofList_subset he)
    obtain ⟨node, hnode, hmade⟩ := exists_of_forall₂ hqs.flip hmem
    obtain ⟨hdeclared, hkept⟩ := hdeclares node hnode (hmade.isQuery.name ▸ hname)
    obtain ⟨⟨_, choice⟩, hchoice, rfl⟩ := List.mem_map.1 hkept
    exact ⟨node, hmade, hdeclared, ⟨choice, hchoice⟩, hf, haddress.trans (by decide +kernel)⟩
  obtain ⟨node, hmade, hbecomes₁⟩ := hbecomes q hq (by simp [hplace]) f hf haddress
  obtain ⟨node', hmade', hbecomes₂⟩ := hbecomes q' hq' (by simp [hperson]) f' hf' haddress'
  exact ⟨c, notes, q, q', f, f', hrun, hq, hplace, hq', hperson, hf, haddress, hf', haddress',
    hdrops, hkeeps, hresemble _ _ _ _ hmade hmade' _ _ _ _ _ hbecomes₁ hbecomes₂ rfl rfl⟩

end Lowering

end VocabularyCompiler
