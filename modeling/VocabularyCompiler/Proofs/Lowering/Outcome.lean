import Mathlib.Data.List.Forall2
import VocabularyCompiler.Proofs.Lowering.Calls

/-!
# What a lowering comes to

`Meets` says what a computation returns and what it stops with, whatever was noted before. There is
one lemma for each operation, and one for each function of the lowering, which says what that
function makes of the types that ranges are lowered to. `Invariant` packages the recursion: what
holds of every range and its type, and of every range and the error that its lowering stops with,
if each case of a step preserves it (`lowerRange_meets`).
-/

namespace VocabularyCompiler.Lowering

/-- Whatever was noted before, a computation returns a value with `P` or stops with an error with
`Q`. -/
def Meets {α : Type} (x : Step α) (P : α → Prop) (Q : CompileError → Prop) : Prop :=
  ∀ notes, match x.run notes with
    | .ok r => P r.1
    | .error e => Q e

namespace Meets

variable {α β : Type} {x : Step α} {P : α → Prop} {R : β → Prop} {Q : CompileError → Prop}

/-- What is said of the value holds of the value. -/
theorem ok (hx : Meets x P Q) {notes notes' : Diagnostics} {a : α}
    (h : x.run notes = .ok (a, notes')) : P a := by
  have hx := hx notes
  rw [h] at hx
  exact hx

/-- What is said of the error holds of the error. -/
theorem error (hx : Meets x P Q) {notes : Diagnostics} {e : CompileError}
    (h : x.run notes = .error e) : Q e := by
  have hx := hx notes
  rw [h] at hx
  exact hx

/-- A value is returned as it is. -/
theorem pure {a : α} (h : P a) : Meets (Pure.pure a) P Q := fun _ => h

/-- To note something returns nothing of interest. -/
theorem report (notes : Diagnostics) : Meets (report notes) (fun _ => True) Q := fun _ => trivial

/-- A stop is with the given error. -/
theorem stop {e : CompileError} (h : Q e) : Meets (stop e : Step α) P Q := fun _ => h

/-- One computation after another stops where one of them does. -/
theorem bind {f : α → Step β} (hx : Meets x P Q) (hf : ∀ a, P a → Meets (f a) R Q) :
    Meets (x >>= f) R Q := by
  intro notes
  rw [StateT.run_bind]
  cases hrun : x.run notes with
  | error e => exact hx.error hrun
  | ok r => exact hf r.1 (hx.ok hrun) r.2

/-- What is made of the result has what follows from the result. -/
theorem map {f : α → β} (hx : Meets x P Q) (h : ∀ a, P a → R (f a)) : Meets (f <$> x) R Q := by
  rw [map_eq_pure_bind]
  exact hx.bind fun a ha => .pure (h a ha)

/-- Less may be said of the value. -/
theorem imp {P₂ : α → Prop} (hx : Meets x P Q) (h : ∀ a, P a → P₂ a) : Meets x P₂ Q := by
  intro notes
  cases hrun : x.run notes with
  | error e => exact hx.error hrun
  | ok r => exact h r.1 (hx.ok hrun)

/-- Less may be said of the error. -/
theorem imp_error {Q₂ : CompileError → Prop} (hx : Meets x P Q) (h : ∀ e, Q e → Q₂ e) :
    Meets x P Q₂ := by
  intro notes
  cases hrun : x.run notes with
  | error e => exact h e (hx.error hrun)
  | ok r => exact hx.ok hrun

end Meets

/-- The value `a` is what a computation can return. -/
def Returns {α : Type} (x : Step α) (a : α) : Prop := ∃ before after, x.run before = .ok (a, after)

/-- What a computation returns is what it can return. -/
theorem Meets.returned {α : Type} {x : Step α} {P : α → Prop} {Q : CompileError → Prop}
    (hx : Meets x P Q) : Meets x (fun a => Returns x a ∧ P a) Q := by
  intro notes
  cases hrun : x.run notes with
  | error e => exact hx.error hrun
  | ok r => exact ⟨⟨notes, r.2, hrun⟩, hx.ok hrun⟩

/-- A computation returns what it can return. -/
theorem meets_returns {α : Type} (x : Step α) : Meets x (Returns x) fun _ => True := by
  intro notes
  cases hrun : x.run notes with
  | error e => trivial
  | ok r => exact ⟨notes, r.2, hrun⟩

/-- What a computation returns if nothing was noted before, unless it stops. -/
def result? {α : Type} (x : Step α) : Option α :=
  match x.run [] with
  | .ok r => some r.1
  | .error _ => none

/-- What a computation stops with if nothing was noted before, unless it returns. -/
def error? {α : Type} (x : Step α) : Option CompileError :=
  match x.run [] with
  | .ok _ => none
  | .error e => some e

/-- The result is what the computation returns. -/
theorem exists_run_of_result? {α : Type} {x : Step α} {a : α} (h : result? x = some a) :
    ∃ notes, x.run [] = .ok (a, notes) := by
  unfold result? at h
  split at h
  next r hrun =>
    cases h
    exact ⟨r.2, hrun⟩
  next => cases h

/-- An argument that is found in the class is one of a query that the lowering returned. -/
theorem exists_field_of_any {l : Lowering} {P : Query → Field → Bool}
    (h : (result? l.classDefinition).any
      (fun c => c.queries.values.any fun q => q.fields.any (P q)) = true) :
    ∃ c notes q f, l.classDefinition.run [] = .ok (c, notes) ∧ q ∈ c.queries.values ∧
      f ∈ q.fields ∧ P q f = true := by
  obtain ⟨c, hc, hfound⟩ := (Option.any_eq_true _ _).1 h
  obtain ⟨notes, hrun⟩ := exists_run_of_result? hc
  obtain ⟨q, hq, hfound⟩ := List.any_eq_true.1 hfound
  obtain ⟨f, hf, hfound⟩ := List.any_eq_true.1 hfound
  exact ⟨c, notes, q, f, hrun, hq, hf, hfound⟩

/-- The error is what the computation stops with. -/
theorem run_of_error? {α : Type} {x : Step α} {e : CompileError} (h : error? x = some e) :
    x.run [] = .error e := by
  unfold error? at h
  split at h
  next => cases h
  next e' hrun =>
    cases h
    exact hrun

/-! ## Properties -/

/-- The type of a property of which a range was chosen, if the range is lowered to a type with
`T`. -/
inductive Typed (T : String → ValueType → Prop) : Choice → ValueType → Prop where
  | fixed {range : String} {type : ValueType} : Typed T ⟨range, .fixed type⟩ type
  | lower {range : String} {array : Bool} {type : ValueType} (h : T range type) :
      Typed T ⟨range, .lower array⟩ (type.wrap array)

/-- Less may be said of the type. -/
theorem Typed.imp {T T₂ : String → ValueType → Prop} {choice : Choice} {type : ValueType}
    (h : Typed T choice type) (hT : ∀ range type, T range type → T₂ range type) :
    Typed T₂ choice type := by
  cases h with
  | fixed => exact .fixed
  | lower h => exact .lower (hT _ _ h)

/-- The argument or member that a property becomes. -/
def fieldOf (l : Lowering) (name : String) (choice : Choice) (type : ValueType) : Field :=
  { name := name
    type := type
    canonical := some (Phrase.synthesize name type l.policy l.options.manual)
    annotations := { orgSchemaType := some choice.range } }

/-- The compound member that a property becomes. -/
def memberOf (l : Lowering) (hasGeo : Bool) (name : String) (choice : Choice) (type : ValueType) :
    Field :=
  { l.fieldOf name choice type with
    annotations :=
      memberAnnotations l.policy hasGeo name (l.fieldOf name choice type).annotations }

/-- The argument that a property of the type `owner` becomes. -/
def argumentOf (l : Lowering) (owner name : String) (choice : Choice) (type : ValueType) : Field :=
  let field := l.fieldOf name choice type
  let annotations :=
    if l.policy.noFilter.contains name then { field.annotations with filterable := some false }
    else field.annotations
  let argument := l.policy.escapeKeyword name
  { field with name := argument, annotations := annotations }.attachDatasets l.policy
    (l.datasetKey owner argument)

/-- The properties of a struct that become members, with the range of each. -/
def chosen (l : Lowering) (decls : List PropertyDecl) : List (String × Choice) :=
  decls.filterMap fun decl =>
    (Choice.choose l.graph l.policy decl.name decl).1.map fun choice => (decl.name, choice)

/-- The properties of a type that become arguments, with the range of each. A property is passed
over if an argument has its name already; `taken` are the names of the arguments so far. -/
def surviving (l : Lowering) (taken : List String) :
    List (String × PropertyDecl) → List (String × Choice)
  | [] => []
  | (name, decl) :: rest =>
    if l.policy.escapeKeyword name ∈ taken then l.surviving taken rest
    else
      match (Choice.choose l.graph l.policy name decl).1 with
      | none => l.surviving taken rest
      | some choice =>
        (name, choice) :: l.surviving (taken ++ [l.policy.escapeKeyword name]) rest

/-- The properties of a type that become arguments of its query, with the range of each. -/
def argumentsOf (l : Lowering) (node : TypeNode) : List (String × Choice) :=
  l.surviving ((l.syntheticFields node.name).map Field.name) node.properties.entries

/-- What is related to the members of one list has a partner in the other. -/
theorem exists_of_forall₂ {α β : Type} {R : α → β → Prop} {as : List α} {bs : List β}
    (h : List.Forall₂ R as bs) {a : α} (ha : a ∈ as) : ∃ b ∈ bs, R a b := by
  induction h with
  | nil => cases ha
  | @cons a' b _ _ hab _ ih =>
    rcases List.mem_cons.1 ha with rfl | ha
    · exact ⟨b, List.mem_cons_self, hab⟩
    · obtain ⟨b', hb', hab'⟩ := ih ha
      exact ⟨b', List.mem_cons_of_mem _ hb', hab'⟩

/-- There is a member with a property in one list if there is one in the other, where the property
is the same of related members. -/
theorem exists_mem_iff_of_forall₂ {α β : Type} {R : α → β → Prop} {P : α → Prop} {Q : β → Prop}
    {as : List α} {bs : List β} (h : List.Forall₂ R as bs)
    (hR : ∀ a ∈ as, ∀ b, R a b → (P a ↔ Q b)) : (∃ a ∈ as, P a) ↔ ∃ b ∈ bs, Q b := by
  constructor
  · rintro ⟨a, ha, hP⟩
    obtain ⟨b, hb, hab⟩ := exists_of_forall₂ h ha
    exact ⟨b, hb, (hR a ha b hab).1 hP⟩
  · rintro ⟨b, hb, hQ⟩
    obtain ⟨a, ha, hab⟩ := exists_of_forall₂ h.flip hb
    exact ⟨a, ha, (hR a ha b hab).2 hQ⟩

/-- Lists of related members are alike in what related members have in common. -/
theorem map_eq_map_of_forall₂ {α β γ : Type} {R : α → β → Prop} {f : α → γ} {g : β → γ}
    {as : List α} {bs : List β} (h : List.Forall₂ R as bs) (hR : ∀ a b, R a b → f a = g b) :
    as.map f = bs.map g := by
  rw [← List.forall₂_eq_eq_eq, List.forall₂_map_left_iff, List.forall₂_map_right_iff]
  exact h.imp hR

/-- A property is among the members if a range is chosen for it. -/
theorem mem_chosen_iff {l : Lowering} {decls : List PropertyDecl} {e : String × Choice} :
    e ∈ l.chosen decls ↔ ∃ decl ∈ decls, decl.name = e.1 ∧
      (Choice.choose l.graph l.policy decl.name decl).1 = some e.2 := by
  unfold chosen
  rw [List.mem_filterMap]
  constructor
  · rintro ⟨decl, hdecl, hmap⟩
    obtain ⟨choice, hchoice, rfl⟩ := Option.map_eq_some_iff.1 hmap
    exact ⟨decl, hdecl, rfl, hchoice⟩
  · rintro ⟨decl, hdecl, hname, hchoice⟩
    exact ⟨decl, hdecl, by rw [hchoice, Option.map_some, hname]⟩

/-- A surviving property is one of which a range was chosen. -/
theorem exists_choose_of_mem_surviving {l : Lowering} {taken : List String}
    {decls : List (String × PropertyDecl)} {e : String × Choice}
    (h : e ∈ l.surviving taken decls) : ∃ decl, (e.1, decl) ∈ decls ∧
      (Choice.choose l.graph l.policy e.1 decl).1 = some e.2 := by
  induction decls generalizing taken with
  | nil => cases h
  | cons d rest ih =>
    obtain ⟨name, decl⟩ := d
    have hrest : ∀ taken', e ∈ l.surviving taken' rest →
        ∃ decl', (e.1, decl') ∈ (name, decl) :: rest ∧
          (Choice.choose l.graph l.policy e.1 decl').1 = some e.2 := by
      intro taken' he
      obtain ⟨decl', hmem, hchoice⟩ := ih he
      exact ⟨decl', List.mem_cons_of_mem _ hmem, hchoice⟩
    unfold surviving at h
    split at h
    · exact hrest _ h
    · cases hchoice : (Choice.choose l.graph l.policy name decl).1 with
      | none =>
        rw [hchoice] at h
        exact hrest _ h
      | some choice =>
        rw [hchoice] at h
        rcases List.mem_cons.1 h with rfl | h
        · exact ⟨decl, List.mem_cons_self, hchoice⟩
        · exact hrest _ h

section Functions

variable {l : Lowering} {hasGeo : Bool} {T : String → ValueType → Prop} {Q : CompileError → Prop}

/-- A property becomes a field if a range is chosen for it. -/
theorem property_meets {lower : String → Step ValueType} {name : String} {decl : PropertyDecl}
    (h : ∀ choice array, (Choice.choose l.graph l.policy name decl).1 = some choice →
      choice.shape = .lower array → Meets (lower choice.range) (T choice.range) Q) :
    Meets (l.property lower name decl)
      (Option.Rel (fun choice f => ∃ type, Typed T choice type ∧ f = l.fieldOf name choice type)
        (Choice.choose l.graph l.policy name decl).1) Q := by
  unfold property
  generalize Choice.choose l.graph l.policy name decl = chosen at h
  obtain ⟨choice?, notes⟩ := chosen
  refine (Meets.report notes).bind fun _ _ => ?_
  cases choice? with
  | none => exact .pure .none
  | some choice =>
    obtain ⟨range, shape⟩ := choice
    cases shape with
    | fixed type =>
      refine (Meets.pure (P := Typed T ⟨range, .fixed type⟩) .fixed).bind fun t ht => ?_
      exact .pure (.some ⟨t, ht, rfl⟩)
    | lower array =>
      refine ((h ⟨range, .lower array⟩ array rfl rfl).map (R := Typed T ⟨range, .lower array⟩)
        fun t ht => .lower ht).bind fun t ht => ?_
      exact .pure (.some ⟨t, ht, rfl⟩)

/-- The members are those that the chosen properties become. -/
theorem members_meets {lower : String → Step ValueType} {decls : List PropertyDecl}
    (h : ∀ e ∈ l.chosen decls, ∀ array, e.2.shape = .lower array →
      Meets (lower e.2.range) (T e.2.range) Q) :
    Meets (l.members hasGeo lower decls)
      (List.Forall₂ (fun e f => ∃ type, Typed T e.2 type ∧ f = l.memberOf hasGeo e.1 e.2 type)
        (l.chosen decls)) Q := by
  induction decls with
  | nil => exact .pure .nil
  | cons decl rest ih =>
    have hrest := ih fun e he => h e (by
      obtain ⟨d, hd, hde⟩ := mem_chosen_iff.1 he
      exact mem_chosen_iff.2 ⟨d, List.mem_cons_of_mem _ hd, hde⟩)
    unfold members
    refine (property_meets (T := T) fun choice array hchoice => ?_).bind fun field? hfield => ?_
    · exact h (decl.name, choice)
        (mem_chosen_iff.2 ⟨decl, List.mem_cons_self, rfl, hchoice⟩) array
    refine hrest.bind fun fields hfields => ?_
    have hcons : l.chosen (decl :: rest) =
        ((Choice.choose l.graph l.policy decl.name decl).1.map fun c => (decl.name, c)).toList ++
          l.chosen rest := by
      unfold chosen
      rw [List.filterMap_cons]
      cases (Choice.choose l.graph l.policy decl.name decl).1 <;> rfl
    rw [hcons]
    -- What was chosen decides both whether there is a member and whether there is a field.
    generalize (Choice.choose l.graph l.policy decl.name decl).1 = choice? at hfield ⊢
    cases hfield with
    | none => exact .pure hfields
    | @some choice f hf =>
      obtain ⟨type, htype, rfl⟩ := hf
      exact .pure (.cons ⟨type, htype, rfl⟩ hfields)

/-- A struct becomes a compound type, unless none of its properties becomes a member. -/
theorem compound_meets {lower : String → Step ValueType} {name : String}
    (h : ∀ e ∈ l.chosen (l.graph.structProperties l.policy name), ∀ array,
      e.2.shape = .lower array → Meets (lower e.2.range) (T e.2.range) Q)
    (hempty : l.chosen (l.graph.structProperties l.policy name) = [] → Q (.emptyStruct name)) :
    Meets (l.compound hasGeo lower name)
      (fun t => ∃ fields, t = .compound name fields ∧ fields ≠ [] ∧
        List.Forall₂ (fun e f => ∃ type, Typed T e.2 type ∧ f = l.memberOf hasGeo e.1 e.2 type)
          (l.chosen (l.graph.structProperties l.policy name)) fields) Q := by
  unfold compound
  refine (members_meets h).bind fun fields hfields => ?_
  cases fields with
  | nil => exact .stop (hempty (List.forall₂_nil_right_iff.1 hfields))
  | cons f rest => exact .pure ⟨f :: rest, rfl, List.cons_ne_nil _ _, hfields⟩

/-- The arguments are those that were there and those that the surviving properties become. -/
theorem addArguments_meets {owner : String} {decls : List (String × PropertyDecl)}
    {fields : List Field}
    (h : ∀ e ∈ l.surviving (fields.map Field.name) decls, ∀ array, e.2.shape = .lower array →
      Meets (l.lowerArgument hasGeo e.2.range) (T e.2.range) Q) :
    Meets (l.addArguments owner hasGeo fields decls)
      (fun all => ∃ arguments, all = fields ++ arguments ∧
        List.Forall₂ (fun e f => ∃ type, Typed T e.2 type ∧ f = l.argumentOf owner e.1 e.2 type)
          (l.surviving (fields.map Field.name) decls) arguments) Q := by
  induction decls generalizing fields with
  | nil => exact .pure ⟨[], (List.append_nil _).symm, .nil⟩
  | cons d rest ih =>
    obtain ⟨name, decl⟩ := d
    have htaken : (fields.any fun f => f.name = l.policy.escapeKeyword name) = true ↔
        l.policy.escapeKeyword name ∈ fields.map Field.name := by
      simp
    unfold addArguments surviving
    unfold surviving at h
    dsimp only
    by_cases hmem : l.policy.escapeKeyword name ∈ fields.map Field.name
    · rw [if_pos hmem] at h ⊢
      rw [if_pos (htaken.2 hmem)]
      exact (Meets.report _).bind fun _ _ => ih h
    · rw [if_neg hmem] at h ⊢
      rw [if_neg fun hany => hmem (htaken.1 hany)]
      refine (property_meets (T := T) fun choice array hchoice => ?_).bind fun field? hfield => ?_
      · rw [hchoice] at h
        exact h (name, choice) List.mem_cons_self array
      generalize (Choice.choose l.graph l.policy name decl).1 = choice? at h hfield ⊢
      cases hfield with
      | none => exact ih h
      | @some choice f hf =>
        obtain ⟨type, htype, rfl⟩ := hf
        -- The new argument is at the end, and its name is taken from now on.
        have hnames : (fields ++ [l.argumentOf owner name choice type]).map Field.name =
            fields.map Field.name ++ [l.policy.escapeKeyword name] := by
          rw [List.map_append]
          rfl
        have hrest := @ih (fields ++ [l.argumentOf owner name choice type]) (by
          rw [hnames]
          exact fun e he => h e (List.mem_cons_of_mem _ he))
        rw [hnames] at hrest
        refine hrest.imp ?_
        rintro all ⟨arguments, rfl, harguments⟩
        exact ⟨l.argumentOf owner name choice type :: arguments, by simp,
          .cons ⟨type, htype, rfl⟩ harguments⟩

/-- The query of a type has its name and phrase, and an argument for each surviving property. -/
structure IsQuery (l : Lowering) (T : String → ValueType → Prop) (node : TypeNode) (q : Query) :
    Prop where
  name : q.name = l.policy.escapeKeyword node.name
  parents : q.parents = node.parents.map l.policy.escapeKeyword
  canonical : q.canonical = Phrase.spellOut node.name
  confirmation : q.confirmation = Phrase.spellOut node.name
  kind : q.isList = true ∧ q.isMonitorable = false ∧ q.confirm = false
  fields : ∃ arguments, q.fields = l.syntheticFields node.name ++ arguments ∧
    List.Forall₂ (fun e f => ∃ type, Typed T e.2 type ∧ f = l.argumentOf node.name e.1 e.2 type)
      (l.argumentsOf node) arguments

/-- A type becomes its query, and its arguments are lowered with a location if it has one. -/
theorem query_meets_of_geo {node : TypeNode}
    (h : ∀ e ∈ l.argumentsOf node, ∀ array, e.2.shape = .lower array →
      Meets (l.lowerArgument (node.properties.contains l.policy.geoProperty) e.2.range)
        (T e.2.range) Q) :
    Meets (l.query node) (l.IsQuery T node) Q := by
  unfold query
  refine (addArguments_meets (T := T) h).bind ?_
  intro fields hfields
  exact .pure ⟨rfl, rfl, rfl, rfl, ⟨rfl, rfl, rfl⟩, hfields⟩

/-- A type becomes its query. -/
theorem query_meets {node : TypeNode}
    (h : ∀ e ∈ l.argumentsOf node, ∀ hasGeo array, e.2.shape = .lower array →
      Meets (l.lowerArgument hasGeo e.2.range) (T e.2.range) Q) :
    Meets (l.query node) (l.IsQuery T node) Q :=
  query_meets_of_geo fun e he array => h e he _ array

/-- Types become their queries, in order. -/
theorem queries_meets {P : TypeNode → Query → Prop} {ids : List Nat}
    (h : ∀ node ∈ ids.filterMap l.graph.node?, Meets (l.query node) (P node) Q) :
    Meets (l.queries ids) (List.Forall₂ P (ids.filterMap l.graph.node?)) Q := by
  induction ids with
  | nil => exact .pure .nil
  | cons id rest ih =>
    rw [List.filterMap_cons] at h ⊢
    unfold queries
    generalize l.graph.node? id = node? at h ⊢
    cases node? with
    | none => exact ih h
    | some node =>
      refine (h node List.mem_cons_self).bind fun q hq => ?_
      refine (ih fun n hn => h n (List.mem_cons_of_mem _ hn)).bind fun qs hqs => ?_
      exact .pure (.cons hq hqs)

/-- The types that become queries, in order. -/
def emittedTypes (l : Lowering) : List TypeNode :=
  (l.graph.emissionOrder l.policy).filterMap l.graph.node?

/-- A graph becomes a class with the queries of its emitted types. -/
theorem classDefinition_meets {P : TypeNode → Query → Prop}
    (h : ∀ node ∈ l.emittedTypes, Meets (l.query node) (P node) Q) :
    Meets l.classDefinition
      (fun c => ∃ qs, List.Forall₂ P l.emittedTypes qs ∧
        c.queries = .ofList (qs.map fun q => (q.name, q))) Q := by
  unfold classDefinition
  exact (queries_meets h).bind fun qs hqs => .pure ⟨qs, hqs, rfl⟩

end Functions

/-! ## Ranges -/

/-- A range is built in or a type of the graph. -/
def Known (l : Lowering) (range : String) : Prop :=
  (l.policy.isBuiltin range || l.graph.contains range) = true

/-- The type of a range that is not built in. -/
structure IsType (l : Lowering) (range : String) (node : TypeNode) : Prop where
  builtin : l.policy.builtinTypes.get? range = none
  found : l.graph.get? range = some node

/-- A range whose values are written in place: a struct that is neither built in nor a list nor an
enumeration. -/
structure InPlace (l : Lowering) (range : String) (node : TypeNode) : Prop
    extends IsType l range node where
  list : node.classification.isItemList = false
  enum : node.classification.isEnum = false
  struct : node.classification.representAsStruct = true

/-- The element type of a list type, which is the root type if it has none of its own. -/
def elementOf (l : Lowering) (node : TypeNode) : String :=
  node.classification.itemType.getD l.policy.rootType

/-- A property `P` of ranges inside structs and of the types that they are lowered to, and a
property `Q` of such ranges and of errors, that every step of a lowering preserves. -/
structure Invariant (l : Lowering) (hasGeo : Bool)
    (P : List String → String → ValueType → Prop)
    (Q : List String → String → CompileError → Prop) : Prop where
  builtin {building : List String} {range : String} {type : ValueType}
    (h : l.policy.builtinTypes.get? range = some type) : P building range type
  /-- A list of known elements. -/
  element {building : List String} {range : String} {node : TypeNode} {type : ValueType}
    (h : l.IsType range node) (hlist : node.classification.isItemList = true)
    (hknown : l.Known (l.elementOf node)) (htype : P building (l.elementOf node) type) :
    P building range (.array type)
  /-- A list of elements that no fact declares. -/
  undeclared {building : List String} {range : String} {node : TypeNode}
    (h : l.IsType range node) (hlist : node.classification.isItemList = true)
    (hknown : ¬l.Known (l.elementOf node)) :
    P building range (.array (l.entityOf (l.elementOf node)))
  enum {building : List String} {range : String} {node : TypeNode} (h : l.IsType range node)
    (hlist : node.classification.isItemList = false) (henum : node.classification.isEnum = true) :
    P building range (.enum node.literals.items)
  /-- A struct inside itself. -/
  again {building : List String} {range : String} {node : TypeNode} (h : l.InPlace range node)
    (hmem : range ∈ building) : P building range (l.entityOf range)
  compound {building : List String} {range : String} {node : TypeNode} {fields : List Field}
    (h : l.InPlace range node) (hnew : range ∉ building) (hne : fields ≠ [])
    (hfields : List.Forall₂ (fun e f => ∃ type, Typed (P (building ++ [range])) e.2 type ∧
      f = l.memberOf hasGeo e.1 e.2 type)
      (l.chosen (l.graph.structProperties l.policy range)) fields) :
    P building range (.compound range fields)
  entity {building : List String} {range : String} {node : TypeNode} (h : l.IsType range node)
    (hlist : node.classification.isItemList = false) (henum : node.classification.isEnum = false)
    (hstruct : node.classification.representAsStruct = false) :
    P building range (l.entityOf range)
  /-- A struct without members. -/
  empty {building : List String} {range : String} {node : TypeNode} (h : l.InPlace range node)
    (hnew : range ∉ building)
    (hempty : l.chosen (l.graph.structProperties l.policy range) = []) :
    Q building range (.emptyStruct range)
  unknown {building : List String} {range : String}
    (hbuiltin : l.policy.builtinTypes.get? range = none) (hnode : l.graph.get? range = none) :
    Q building range (.unknownType range)
  endless {building : List String} {range : String} : Q building range (.endlessList range)
  /-- An error of a call is an error of its caller. -/
  call {q r : List String × String} {e : CompileError} (h : l.CalledFrom q r) (he : Q q.1 q.2 e) :
    Q r.1 r.2 e

/-- A step of the lowering keeps an invariant that its calls keep. -/
theorem Invariant.lowerStep_meets {l : Lowering} {hasGeo : Bool}
    {P : List String → String → ValueType → Prop} {Q : List String → String → CompileError → Prop}
    (inv : l.Invariant hasGeo P Q) {lower : List String → String → Step ValueType}
    (h : ∀ building range, Meets (lower building range) (P building range) (Q building range))
    (building : List String) (range : String) :
    Meets (l.lowerStep hasGeo lower building range) (P building range) (Q building range) := by
  unfold lowerStep
  cases hbuiltin : l.policy.builtinTypes.get? range with
  | some type => exact .pure (inv.builtin hbuiltin)
  | none =>
    cases hnode : l.graph.get? range with
    | none => exact .stop (inv.unknown hbuiltin hnode)
    | some node =>
      have htype : l.IsType range node := ⟨hbuiltin, hnode⟩
      dsimp only
      split
      next hlist =>
        split
        next hknown =>
          have hcall := (h building (l.elementOf node)).imp_error fun e he =>
            inv.call (.element hbuiltin hnode hlist hknown) he
          exact hcall.bind fun t ht => .pure (inv.element htype hlist hknown ht)
        next hknown =>
          exact (Meets.report _).bind fun _ _ => .pure (inv.undeclared htype hlist hknown)
      next hlist =>
        rw [Bool.not_eq_true] at hlist
        split
        next henum => exact .pure (inv.enum htype hlist henum)
        next henum =>
          rw [Bool.not_eq_true] at henum
          split
          next hstruct =>
            have hplace : l.InPlace range node := ⟨htype, hlist, henum, hstruct⟩
            split
            next hmem => exact (Meets.report _).bind fun _ _ => .pure (inv.again hplace hmem)
            next hnew =>
              refine (compound_meets (T := P (building ++ [range])) (Q := Q building range)
                (fun e he array hshape => ?_) fun hempty => inv.empty hplace hnew hempty).imp ?_
              · -- What is chosen for a member is called for inside the struct.
                obtain ⟨decl, hdecl, -, hchoice⟩ := mem_chosen_iff.1 he
                have hcalled := CalledFrom.member hbuiltin hnode hlist henum hstruct hnew hdecl
                  hchoice hshape
                exact (h _ _).imp_error fun e' he' => inv.call hcalled he'
              · rintro t ⟨fields, rfl, hne, hfields⟩
                exact inv.compound hplace hnew hne hfields
          next hstruct =>
            exact .pure (inv.entity htype hlist henum (Bool.not_eq_true _ ▸ hstruct))

/-- A lowering keeps every invariant, however many steps it may take. -/
theorem Invariant.lowerRange_meets {l : Lowering} {hasGeo : Bool}
    {P : List String → String → ValueType → Prop} {Q : List String → String → CompileError → Prop}
    (inv : l.Invariant hasGeo P Q) (n : Nat) (building : List String) (range : String) :
    Meets (l.lowerRange hasGeo n building range) (P building range) (Q building range) := by
  induction n generalizing building range with
  | zero => exact .stop inv.endless
  | succ n ih => exact inv.lowerStep_meets ih building range

end VocabularyCompiler.Lowering
