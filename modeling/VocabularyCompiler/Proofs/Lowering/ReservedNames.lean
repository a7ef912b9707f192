import VocabularyCompiler.Proofs.Lowering.Keywords
import VocabularyCompiler.Proofs.Lowering.Nesting

/-!
# Keywords among the names of a class

An underscore keeps the name of a query, of a parent and of an argument that a property becomes
from being a keyword. The arguments that every query has bear the same names under every policy,
and the members of a compound bear the names of the properties of its struct just as they are
declared (`Lowering.NamesMembers`), so these are the names of a class that may be keywords:
`freeOfKeywords_iff` says when they are not.
-/

namespace VocabularyCompiler

/-- Inside a type that names datasets there are the compounds that were there before, and their
members have the names that they had. -/
theorem ValueType.Inside.exists_of_attachDatasets {p : Policy} {outer : List String} {key : String}
    {t u : ValueType} {name : String} {fields : List Field}
    (h : Inside outer (t.attachDatasets p key) u) (hu : u = .compound name fields) :
    ∃ before, Inside outer t (.compound name before) ∧
      fields.map Field.name = before.map Field.name := by
  generalize ht : t.attachDatasets p key = t' at h
  -- Datasets are named from the outside in, which is how the compound is reached.
  induction h generalizing t key with
  | refl =>
    subst hu
    cases t with
    | compound name' before =>
      injection ht with hname hfields
      exact ⟨before, hname ▸ .refl, hfields ▸ map_name_attachDatasets p key before⟩
    | _ => cases ht
  | array _ ih =>
    cases t with
    | array t =>
      injection ht with ht
      obtain ⟨before, hinside, hnames⟩ := ih hu ht
      exact ⟨before, hinside.array, hnames⟩
    | _ => cases ht
  | member hf hinside ih =>
    cases t with
    | compound name' members =>
      injection ht with hname hmembers
      subst hname hmembers
      obtain ⟨g, hg, htype | ⟨key', htype⟩⟩ := exists_of_mem_attachDatasets hf
      · rw [htype, hu] at hinside
        exact ⟨fields, .member hg hinside, rfl⟩
      · obtain ⟨before, hbefore, hnames⟩ := ih hu htype.symm
        exact ⟨before, .member hg hbefore, hnames⟩
    | _ => cases ht

/-- No name in a query that stands for a type or a property is a keyword. -/
structure Query.FreeOfKeywords (p : Policy) (q : Query) : Prop where
  name : p.isKeyword q.name = false
  parents : ∀ parent ∈ q.parents, p.isKeyword parent = false
  arguments : ∀ f ∈ q.fields, p.isKeyword f.name = false
  /-- The members of a compound inside an argument, however deep it stands there. -/
  members : ∀ f ∈ q.fields, ∀ (outer : List String) (name : String) (fields : List Field),
    ValueType.Inside outer f.type (.compound name fields) →
      ∀ g ∈ fields, p.isKeyword g.name = false

/-- No keyword is told from other names by an underscore in front. -/
def Policy.PlainKeywords (p : Policy) : Prop :=
  ∀ k ∈ p.keywords.items, k.toList.head? ≠ some '_'

/-- Unless a keyword begins with an underscore, no name is a keyword after it was changed. -/
theorem Policy.isKeyword_escapeKeyword {p : Policy} (h : p.PlainKeywords) (name : String) :
    p.isKeyword (p.escapeKeyword name) = false := by
  unfold escapeKeyword
  split
  next =>
    rw [← Bool.not_eq_true]
    intro hkeyword
    refine h _ ((OrderedSet.contains_iff_mem _ _).1 hkeyword) ?_
    rw [String.toList_append]
    rfl
  next hname => exact Bool.eq_false_iff.2 hname

namespace Lowering

variable {l : Lowering}

/-- The names of the members that a struct has when it is written in place. -/
def memberNames (l : Lowering) (struct : String) : List String :=
  (l.chosen (l.graph.structProperties l.policy struct)).map Prod.fst

/-- The members of every compound inside the type bear the names of the properties of its struct. -/
def NamesMembers (l : Lowering) (t : ValueType) : Prop :=
  ∀ (outer : List String) (name : String) (fields : List Field),
    ValueType.Inside outer t (.compound name fields) → fields.map Field.name = l.memberNames name

namespace NamesMembers

variable {t : ValueType}

/-- There is nothing to say about a type without a compound. -/
theorem flat (h : t.members? = none) : l.NamesMembers t := fun _ _ _ hinside =>
  nomatch hinside.members?_eq_none h

/-- The compounds inside an array are those inside its elements. -/
theorem array (h : l.NamesMembers t) : l.NamesMembers (.array t) := by
  intro outer name fields hinside
  cases hinside with
  | array hinside => exact h outer name fields hinside

/-- To name datasets changes no name of a member. -/
theorem attachDatasets (h : l.NamesMembers t) (key : String) :
    l.NamesMembers (t.attachDatasets l.policy key) := by
  intro outer name fields hinside
  obtain ⟨before, hbefore, hnames⟩ := hinside.exists_of_attachDatasets rfl
  rw [hnames, h outer name before hbefore]

end NamesMembers

/-- Only compounds can fail to name their members. -/
theorem decidedByCompounds_namesMembers : DecidedByCompounds l.NamesMembers := ⟨.flat, .array⟩

/-- Every range is lowered to a type whose compounds name their members after properties. -/
theorem namesMembers_invariant (htables : FlatTables l.policy) (hasGeo : Bool) :
    l.Invariant hasGeo (fun _ _ t => l.NamesMembers t) fun _ _ _ => True := by
  refine htables.invariant (fun _ => decidedByCompounds_namesMembers) fun _ _ _ hfields => ?_
  -- A compound in this one is the whole of it or stands inside a member.
  intro outer name fields' hinside
  cases hinside with
  | refl =>
    refine (map_eq_map_of_forall₂ hfields fun e f => ?_).symm
    rintro ⟨type, -, rfl⟩
    rfl
  | member hf hinside =>
    obtain ⟨e, -, type, htype, rfl⟩ := exists_of_forall₂ hfields.flip hf
    exact htype _ name fields' hinside

/-- What a query has for its names: those of its type, of the parents and of the surviving
properties are kept from being keywords, and the members of compounds are not. -/
structure NamedAfter (l : Lowering) (node : TypeNode) (q : Query) : Prop where
  name : q.name = l.policy.escapeKeyword node.name
  parents : q.parents = node.parents.map l.policy.escapeKeyword
  arguments : q.fields.map Field.name = (l.syntheticFields node.name).map Field.name ++
    (l.argumentsOf node).map fun e => l.policy.escapeKeyword e.1
  members : ∀ f ∈ q.fields, l.NamesMembers f.type

/-- A type becomes a query with names made from its own. -/
theorem query_meets_namedAfter (htables : FlatTables l.policy) (node : TypeNode) :
    Meets (l.query node) (l.NamedAfter node) fun _ => True := by
  refine (query_meets (T := fun _ t => l.NamesMembers t) fun e _ hasGeo _ _ =>
    (namesMembers_invariant htables hasGeo).lowerRange_meets _ _ _).imp fun q hq => ?_
  refine ⟨hq.name, hq.parents, hq.map_name_fields, fun f hf => ?_⟩
  obtain ⟨arguments, hfields, harguments⟩ := hq.fields
  rw [hfields] at hf
  rcases List.mem_append.1 hf with hf | hf
  · exact .flat (members?_syntheticFields hf)
  · obtain ⟨e, he, type, htype, rfl⟩ := exists_of_forall₂ harguments.flip hf
    obtain ⟨decl, -, hchoice⟩ := exists_choose_of_mem_surviving he
    exact (decidedByCompounds_namesMembers.of_typed htables hchoice htype).attachDatasets _

/-- An argument that is named like a keyword is one that every query has. -/
theorem NamedAfter.synthetic_of_isKeyword {node : TypeNode} {q : Query} (h : l.NamedAfter node q)
    (hplain : l.policy.PlainKeywords) {f : Field} (hf : f ∈ q.fields)
    (hkeyword : l.policy.isKeyword f.name = true) : f.name = "id" ∨ f.name = "name" := by
  have hname : f.name ∈ q.fields.map Field.name := List.mem_map.2 ⟨f, hf, rfl⟩
  rw [h.arguments, List.mem_append, map_name_syntheticFields] at hname
  rcases hname with hname | hname
  · split at hname
    · exact Or.inl (List.mem_singleton.1 hname)
    · exact List.mem_pair.1 hname
  · obtain ⟨e, -, he⟩ := List.mem_map.1 hname
    rw [← he, Policy.isKeyword_escapeKeyword hplain] at hkeyword
    cases hkeyword

/-- In a class, if no keyword begins with an underscore and the tables of the policy hold no
compound type: no query and no parent is named like a keyword, and an argument only if it is one
that every query has. The members of each compound, however deep, are the properties of its struct
of which a range is chosen, under their own names. So a query is free of keywords if and only if
`id` and `name` are none, as far as it has them for arguments, and neither is a property of a struct
that is written in place in it. -/
theorem freeOfKeywords_iff (l : Lowering) (htables : FlatTables l.policy)
    (hplain : l.policy.PlainKeywords) {notes notes' : Diagnostics} {c : ClassDefinition}
    (hrun : l.classDefinition.run notes = .ok (c, notes')) {q : Query} (hq : q ∈ c.queries.values) :
    l.policy.isKeyword q.name = false ∧ (∀ parent ∈ q.parents, l.policy.isKeyword parent = false) ∧
    (∀ f ∈ q.fields, l.policy.isKeyword f.name = true → f.name = "id" ∨ f.name = "name") ∧
    (∀ f ∈ q.fields, ∀ outer name fields, ValueType.Inside outer f.type (.compound name fields) →
      fields.map Field.name = l.memberNames name) ∧
    (q.FreeOfKeywords l.policy ↔
      (∀ f ∈ q.fields, f.name = "id" ∨ f.name = "name" → l.policy.isKeyword f.name = false) ∧
      ∀ f ∈ q.fields, ∀ outer name fields,
        ValueType.Inside outer f.type (.compound name fields) →
          ∀ member ∈ l.memberNames name, l.policy.isKeyword member = false) := by
  -- The query is one that a type has become.
  obtain ⟨qs, hqs, hqueries⟩ :=
    (classDefinition_meets fun node _ => query_meets_namedAfter htables node).ok hrun
  obtain ⟨e, he, rfl⟩ := List.mem_map.1 hq
  rw [hqueries] at he
  obtain ⟨q, hmem, rfl⟩ := List.mem_map.1 (OrderedMap.entries_ofList_subset he)
  obtain ⟨node, -, hnamed⟩ := exists_of_forall₂ hqs.flip hmem
  have hname : l.policy.isKeyword q.name = false :=
    hnamed.name ▸ Policy.isKeyword_escapeKeyword hplain _
  have hparents : ∀ parent ∈ q.parents, l.policy.isKeyword parent = false := by
    intro parent hparent
    rw [hnamed.parents] at hparent
    obtain ⟨m, -, rfl⟩ := List.mem_map.1 hparent
    exact Policy.isKeyword_escapeKeyword hplain m
  refine ⟨hname, hparents, fun f hf => hnamed.synthetic_of_isKeyword hplain hf, hnamed.members, ?_⟩
  constructor
  · intro hfree
    refine ⟨fun f hf _ => hfree.arguments f hf, fun f hf outer name fields hinside => ?_⟩
    rw [← hnamed.members f hf outer name fields hinside, List.forall_mem_map]
    exact hfree.members f hf outer name fields hinside
  · rintro ⟨harguments, hmembers⟩
    refine ⟨hname, hparents, fun f hf => ?_, fun f hf outer name fields hinside => ?_⟩
    · by_contra hkeyword
      rw [Bool.not_eq_false] at hkeyword
      have hfree := harguments f hf (hnamed.synthetic_of_isKeyword hplain hf hkeyword)
      rw [hfree] at hkeyword
      cases hkeyword
    · rw [← List.forall_mem_map (P := fun member => l.policy.isKeyword member = false),
        hnamed.members f hf outer name fields hinside]
      exact hmembers f hf outer name fields hinside

/-- Places with an address, which has the given property. -/
def placesWith (property : String) : Lowering :=
  ⟨(TypeGraph.analyze .standard
    [.classFact "Thing" [] "" false,
      .classFact "StructuredValue" ["Thing"] "" false,
      .classFact "PostalAddress" ["StructuredValue"] "" false,
      .classFact "Place" ["Thing"] "" false,
      .propertyFact "address" ["Place"] ["PostalAddress"] "" false,
      .propertyFact property ["PostalAddress"] ["Number"] "" false]).1, .standard, {}⟩

/-- What is found in the class of places: the query, the argument and the members of the address. -/
theorem exists_address (property : String)
    (hfound : (result? (placesWith property).classDefinition).any (fun c =>
      c.queries.values.any fun q => q.fields.any fun f =>
        (f.type.membersOf? "PostalAddress").any fun members =>
          decide (q.name = "Place" ∧ members.map Field.name = [property])) = true) :
    ∃ c notes q f members, (placesWith property).classDefinition.run [] = .ok (c, notes) ∧
      q ∈ c.queries.values ∧ f ∈ q.fields ∧ q.name = "Place" ∧
      ValueType.Inside [] f.type (.compound "PostalAddress" members) ∧
      members.map Field.name = [property] := by
  obtain ⟨c, notes, q, f, hrun, hq, hf, hfound⟩ := exists_field_of_any hfound
  obtain ⟨members, hmembers, hfound⟩ := Option.any_eq_true _ _ |>.1 hfound
  obtain ⟨hname, hmember⟩ := of_decide_eq_true hfound
  refine ⟨c, notes, q, f, members, hrun, hq, hf, hname, ?_, hmember⟩
  rw [ValueType.eq_compound_of_membersOf? hmembers]
  exact .refl

/-- No keyword of the default policy begins with an underscore. -/
theorem plainKeywords_standard : Policy.PlainKeywords .standard := by
  unfold Policy.PlainKeywords
  decide +kernel

/-- In the query of places the address has the member `elevation`, and only `id` and `name` might
be keywords beside it. -/
theorem freeOfKeywords_iff_elevation :
    FlatTables (placesWith "elevation").policy ∧ (placesWith "elevation").policy.PlainKeywords ∧
    ∃ c notes q f members, (placesWith "elevation").classDefinition.run [] = .ok (c, notes) ∧
      q ∈ c.queries.values ∧ f ∈ q.fields ∧ q.name = "Place" ∧
      ValueType.Inside [] f.type (.compound "PostalAddress" members) ∧
      members.map Field.name = (placesWith "elevation").memberNames "PostalAddress" ∧
      ∀ f ∈ q.fields, Policy.standard.isKeyword f.name = true →
        f.name = "id" ∨ f.name = "name" := by
  obtain ⟨c, notes, q, f, members, hrun, hq, hf, hname, hinside, -⟩ :=
    exists_address "elevation" (by decide +kernel)
  obtain ⟨-, -, harguments, hmembers, -⟩ :=
    freeOfKeywords_iff (placesWith "elevation") flatTables_standard plainKeywords_standard hrun hq
  exact ⟨flatTables_standard, plainKeywords_standard, c, notes, q, f, members, hrun, hq, hf, hname,
    hinside, hmembers f hf [] "PostalAddress" members hinside, harguments⟩

/-- A keyword of the default policy becomes a member of the address of places just as it is. -/
theorem not_freeOfKeywords_in :
    FlatTables .standard ∧ Policy.PlainKeywords .standard ∧
    ∃ c notes q f members, (placesWith "in").classDefinition.run [] = .ok (c, notes) ∧
      q ∈ c.queries.values ∧ f ∈ q.fields ∧ q.name = "Place" ∧
      ValueType.Inside [] f.type (.compound "PostalAddress" members) ∧
      members.map Field.name = ["in"] ∧ Policy.standard.isKeyword "in" = true ∧
      ¬q.FreeOfKeywords .standard := by
  obtain ⟨c, notes, q, f, members, hrun, hq, hf, hname, hinside, hmember⟩ :=
    exists_address "in" (by decide +kernel)
  have hkeyword : Policy.standard.isKeyword "in" = true := by decide +kernel
  refine ⟨flatTables_standard, plainKeywords_standard, c, notes, q, f, members, hrun, hq, hf, hname,
    hinside, hmember, hkeyword, fun hfree => ?_⟩
  have hnames := List.forall_mem_map (P := fun member => Policy.standard.isKeyword member = false)
    |>.2 (hfree.members f hf [] "PostalAddress" members hinside)
  rw [hmember, List.forall_mem_singleton, hkeyword] at hnames
  cases hnames

end Lowering

end VocabularyCompiler
