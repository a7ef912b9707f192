import VocabularyCompiler.Proofs.Lowering.Outcome

/-!
# What a lowering notes

A lowering adds to what was noted before it and does not look at it (`Appends`), so what it returns
and what it adds are the same after whatever came first (`Yields`). In particular every query of a
class is what the lowering of its type yields by itself, and the diagnostics of the class are those
of its queries one after another (`classDefinition_yields`).
-/

namespace VocabularyCompiler.Lowering

/-- A computation adds to what was noted before, and neither what it adds nor how it ends depends on
that. -/
def Appends {α : Type} (x : Step α) : Prop :=
  ∀ notes, x.run notes = (x.run []).map fun r => (r.1, notes ++ r.2)

/-- Whatever was noted before, a computation returns `a` and notes `added`. -/
def Yields {α : Type} (x : Step α) (a : α) (added : Diagnostics) : Prop :=
  ∀ notes, x.run notes = .ok (a, notes ++ added)

section

variable {α β : Type} {x : Step α} {f : α → Step β} {a : α} {added : Diagnostics}

namespace Appends

/-- A value that is returned as it is adds nothing. -/
theorem pure (a : α) : Appends (Pure.pure a : Step α) := fun notes => by
  change Except.ok (a, notes) = .ok (a, notes ++ [])
  rw [List.append_nil]

/-- To note something adds it. -/
theorem report (added : Diagnostics) : Appends (report added) := fun _ => rfl

/-- A stop is the same whatever was noted. -/
theorem stop (e : CompileError) : Appends (stop e : Step α) := fun _ => rfl

/-- What a computation did once it does whatever was noted before. -/
theorem yields (hx : Appends x) {before after : Diagnostics} (h : x.run before = .ok (a, after)) :
    ∃ added, after = before ++ added ∧ Yields x a added := by
  rw [hx] at h
  cases hrun : x.run [] with
  | error e =>
    rw [hrun] at h
    cases h
  | ok r =>
    rw [hrun] at h
    cases h
    exact ⟨r.2, rfl, fun notes => by rw [hx notes, hrun]; rfl⟩

/-- One computation after another adds what both add. -/
theorem bind (hx : Appends x) (hf : ∀ a, Appends (f a)) : Appends (x >>= f) := by
  intro notes
  rw [StateT.run_bind, StateT.run_bind, hx notes]
  cases hrun : x.run [] with
  | error e => rfl
  | ok r =>
    obtain ⟨a, added⟩ := r
    change (f a).run (notes ++ added) = ((f a).run added).map _
    rw [hf a (notes ++ added), hf a added]
    cases (f a).run [] with
    | error e => rfl
    | ok r => exact congrArg (fun after => Except.ok (r.1, after)) (List.append_assoc _ _ _)

/-- To add to what was noted is kept by whatever computations are put together from. -/
theorem congruence : Congruence fun x y => x = y ∧ Appends x where
  pure a := ⟨rfl, .pure a⟩
  report notes := ⟨rfl, .report notes⟩
  stop _ := ⟨rfl, .stop _⟩
  bind {α β x y f g} hx hf := by
    obtain ⟨rfl, hx⟩ := hx
    obtain rfl : f = g := funext fun a => (hf a).1
    exact ⟨rfl, hx.bind fun a => (hf a).2⟩

end Appends

namespace Yields

/-- A value that is returned as it is comes without notes. -/
theorem of_pure {b : α} (h : Yields (Pure.pure a : Step α) b added) : b = a ∧ added = [] := by
  cases h []
  exact ⟨rfl, rfl⟩

/-- What is noted is all that is noted. -/
theorem of_report {notes : Diagnostics} {u : Unit} (h : Yields (report notes) u added) :
    added = notes := by
  cases h []
  rfl

/-- One computation after another yields what the second one does for the result of the first one,
and adds what both add. -/
theorem of_bind (hx : Appends x) (hf : ∀ a, Appends (f a)) {b : β}
    (h : Yields (x >>= f) b added) :
    ∃ a first second, Yields x a first ∧ Yields (f a) b second ∧ added = first ++ second := by
  have hrun := h []
  rw [StateT.run_bind] at hrun
  cases hfirst : x.run [] with
  | error e =>
    rw [hfirst] at hrun
    cases hrun
  | ok r =>
    obtain ⟨a, first⟩ := r
    rw [hfirst] at hrun
    obtain ⟨_, rfl, ha⟩ := hx.yields hfirst
    obtain ⟨second, hadded, hb⟩ := (hf a).yields hrun
    exact ⟨a, first, second, ha, hb, hadded⟩

/-- What is said of all that a computation returns holds of what it yields. -/
theorem meets (h : Yields x a added) {P : α → Prop} {Q : CompileError → Prop}
    (hx : Meets x P Q) : P a :=
  hx.ok (h [])

end Yields

end

variable {l : Lowering}

/-! ## Functions of the lowering -/

/-- The lowering of a range adds to what was noted, since its steps do. -/
theorem lowerRange_appends (hasGeo : Bool) (n : Nat) (building : List String) (range : String) :
    Appends (l.lowerRange hasGeo n building range) := by
  induction n generalizing building range with
  | zero => exact .stop _
  | succ n ih => exact (Appends.congruence.lowerStep fun q _ => ⟨rfl, ih q.1 q.2⟩).2

theorem property_appends (hasGeo : Bool) (name : String) (decl : PropertyDecl) :
    Appends (l.property (l.lowerArgument hasGeo) name decl) :=
  (Appends.congruence.property fun _ _ _ _ => ⟨rfl, lowerRange_appends hasGeo _ _ _⟩).2

/-- To add arguments adds to what was noted, one property after another. -/
theorem addArguments_appends (owner : String) (hasGeo : Bool) (fields : List Field)
    (decls : List (String × PropertyDecl)) :
    Appends (l.addArguments owner hasGeo fields decls) := by
  induction decls generalizing fields with
  | nil => exact .pure fields
  | cons d rest ih =>
    unfold addArguments
    dsimp only
    split
    next => exact (Appends.report _).bind fun _ => ih fields
    next =>
      refine (property_appends hasGeo d.1 d.2).bind fun field? => ?_
      cases field? with
      | none => exact ih fields
      | some f => exact ih _

theorem query_appends (node : TypeNode) : Appends (l.query node) :=
  (addArguments_appends _ _ _ _).bind fun _ => .pure _

theorem queries_appends (ids : List Nat) : Appends (l.queries ids) := by
  induction ids with
  | nil => exact .pure []
  | cons id rest ih =>
    unfold queries
    cases l.graph.node? id with
    | none => exact ih
    | some node => exact (query_appends node).bind fun q => ih.bind fun qs => .pure _

/-- Each type yields its query, and what the queries note is noted in their order. -/
theorem queries_yields {ids : List Nat} {qs : List Query} {added : Diagnostics}
    (h : Yields (l.queries ids) qs added) :
    ∃ parts : List (Query × Diagnostics), qs = parts.map Prod.fst ∧
      added = parts.flatMap Prod.snd ∧
      List.Forall₂ (fun node r => Yields (l.query node) r.1 r.2) (ids.filterMap l.graph.node?)
        parts := by
  induction ids generalizing qs added with
  | nil =>
    obtain ⟨rfl, rfl⟩ := h.of_pure
    exact ⟨[], rfl, rfl, .nil⟩
  | cons id rest ih =>
    rw [List.filterMap_cons]
    unfold queries at h
    cases hnode : l.graph.node? id with
    | none =>
      rw [hnode] at h
      exact ih h
    | some node =>
      rw [hnode] at h
      obtain ⟨q, first, second, hq, hqs, rfl⟩ := Yields.of_bind (query_appends node)
        (fun q => (queries_appends rest).bind fun qs => .pure (q :: qs)) h
      obtain ⟨qs', second, last, hrest, hlast, rfl⟩ :=
        Yields.of_bind (queries_appends rest) (fun qs => .pure (q :: qs)) hqs
      obtain ⟨rfl, rfl⟩ := hlast.of_pure
      obtain ⟨parts, rfl, rfl, hparts⟩ := ih hrest
      exact ⟨(q, first) :: parts, rfl, by simp, .cons hq hparts⟩

/-- The queries of a class are those that its types yield, and the diagnostics are those that the
types note, in the order of the types. -/
theorem classDefinition_yields {notes notes' : Diagnostics} {c : ClassDefinition}
    (hrun : l.classDefinition.run notes = .ok (c, notes')) :
    ∃ parts : List (Query × Diagnostics),
      c.queries = .ofList (parts.map fun r => (r.1.name, r.1)) ∧
      notes' = notes ++ parts.flatMap Prod.snd ∧
      List.Forall₂ (fun node r => Yields (l.query node) r.1 r.2) l.emittedTypes parts := by
  have happends : Appends l.classDefinition := (queries_appends _).bind fun _ => .pure _
  obtain ⟨added, rfl, hclass⟩ := happends.yields hrun
  obtain ⟨qs, first, last, hqs, hlast, rfl⟩ :=
    Yields.of_bind (queries_appends _) (fun _ => .pure _) hclass
  obtain ⟨rfl, rfl⟩ := hlast.of_pure
  obtain ⟨parts, rfl, rfl, hparts⟩ := queries_yields hqs
  exact ⟨parts, by rw [List.map_map]; rfl, by rw [List.append_nil], hparts⟩

/-- Every query of a class is what some emitted type yields. -/
theorem exists_yields_of_mem {notes notes' : Diagnostics} {c : ClassDefinition}
    (hrun : l.classDefinition.run notes = .ok (c, notes')) {q : Query}
    (hq : q ∈ c.queries.values) :
    ∃ node ∈ l.emittedTypes, ∃ added, Yields (l.query node) q added := by
  obtain ⟨parts, hqueries, -, hparts⟩ := classDefinition_yields hrun
  obtain ⟨e, he, rfl⟩ := List.mem_map.1 hq
  rw [hqueries] at he
  obtain ⟨r, hr, rfl⟩ := List.mem_map.1 (OrderedMap.entries_ofList_subset he)
  obtain ⟨node, hnode, hyields⟩ := exists_of_forall₂ hparts.flip hr
  exact ⟨node, hnode, r.2, hyields⟩

/-- Wherever a type stands among others, its query is the one that it yields by itself. -/
theorem Yields.getElem?_queries {node : TypeNode} {q : Query} {added : Diagnostics}
    (h : Yields (l.query node) q added) {before after : List Nat} {id : Nat}
    (hid : l.graph.node? id = some node) {notes notes' : Diagnostics} {qs : List Query}
    (hrun : (l.queries (before ++ id :: after)).run notes = .ok (qs, notes')) :
    qs[(before.filterMap l.graph.node?).length]? = some q := by
  obtain ⟨_, -, hyields⟩ := (queries_appends _).yields hrun
  obtain ⟨parts, rfl, -, hparts⟩ := queries_yields hyields
  rw [List.filterMap_append, List.filterMap_cons_some hid] at hparts
  have hbehind := List.forall₂_drop (before.filterMap l.graph.node?).length hparts
  rw [List.drop_left, List.forall₂_cons_left_iff] at hbehind
  obtain ⟨r, rest, hr, -, hdrop⟩ := hbehind
  -- A type yields one query only.
  have hsame : r.1 = q := by
    have hrun := hr []
    rw [h []] at hrun
    cases hrun
    rfl
  rw [List.getElem?_map, ← List.head?_drop, hdrop, List.head?_cons, Option.map_some,
    hsame]

end VocabularyCompiler.Lowering
