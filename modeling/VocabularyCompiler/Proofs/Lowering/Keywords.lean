import VocabularyCompiler.Proofs.Lowering.Outcome
import VocabularyCompiler.Proofs.TypeGraph.EmissionOrder

/-!
# Names beside keywords

An underscore goes in front of a name that is a keyword, and then it is the name that a vocabulary
may declare with the underscore in front. Two names clash if they are told apart before but not
afterwards. Where names of emitted types clash, the later query takes the place of the earlier one;
where names of properties do, the later property is passed over. Nothing else is ever lost: there is
a query for every emitted type if and only if no two of their names clash, and a property of which a
range is chosen has an argument if and only if its name clashes with that of no such property before
it.
-/

namespace VocabularyCompiler

namespace Policy

/-- The name `b` is no keyword, but the keyword `a` with an underscore in front. -/
structure Shadows (p : Policy) (a b : String) : Prop where
  keyword : p.isKeyword a = true
  plain : p.isKeyword b = false
  eq : b = "_" ++ a

/-- One of the names is no keyword, but the other one with an underscore in front. -/
def Clash (p : Policy) (a b : String) : Prop := p.Shadows a b ∨ p.Shadows b a

variable {p : Policy} {a b : String}

/-- A name begins with an underscore if it had to be changed. -/
theorem escapeKeyword_eq_self_or (p : Policy) (a : String) :
    p.escapeKeyword a = a ∨ p.escapeKeyword a = "_" ++ a := by
  unfold escapeKeyword
  split
  · exact Or.inr rfl
  · exact Or.inl rfl

/-- Names are made the same if and only if they are the same or clash. -/
theorem escapeKeyword_eq_iff : p.escapeKeyword a = p.escapeKeyword b ↔ a = b ∨ p.Clash a b := by
  unfold escapeKeyword
  constructor
  · intro h
    by_cases ha : p.isKeyword a = true
    · rw [if_pos ha] at h
      by_cases hb : p.isKeyword b = true
      · rw [if_pos hb] at h
        exact Or.inl (String.append_right_inj "_" |>.1 h)
      · rw [if_neg hb] at h
        exact Or.inr (Or.inl ⟨ha, Bool.eq_false_iff.2 hb, h.symm⟩)
    · rw [if_neg ha] at h
      by_cases hb : p.isKeyword b = true
      · rw [if_pos hb] at h
        exact Or.inr (Or.inr ⟨hb, Bool.eq_false_iff.2 ha, h⟩)
      · rw [if_neg hb] at h
        exact Or.inl h
  · rintro (rfl | ⟨ha, hb, rfl⟩ | ⟨hb, ha, rfl⟩)
    · rfl
    · rw [if_pos ha, if_neg (Bool.eq_false_iff.1 hb)]
    · rw [if_pos hb, if_neg (Bool.eq_false_iff.1 ha)]

/-- Different names stay different if and only if no two of them clash. -/
theorem nodup_map_escapeKeyword_iff {names : List String} (h : names.Nodup) :
    (names.map p.escapeKeyword).Nodup ↔ ∀ a ∈ names, ∀ b ∈ names, ¬p.Clash a b := by
  rw [List.nodup_map_iff_inj_on h]
  constructor
  · intro hinj a ha b hb hclash
    obtain rfl := hinj a ha b hb (escapeKeyword_eq_iff.2 (Or.inr hclash))
    rcases hclash with hclash | hclash <;> simpa [hclash.plain] using hclash.keyword
  · intro hnone a ha b hb heq
    exact (escapeKeyword_eq_iff.1 heq).resolve_right (hnone a ha b hb)

end Policy

namespace Lowering

variable {l : Lowering}

/-! ## Properties -/

/-- The names of the arguments that every query has. -/
theorem map_name_syntheticFields (l : Lowering) (name : String) :
    (l.syntheticFields name).map Field.name =
      if name = l.policy.rootType then ["id"] else ["id", "name"] := by
  unfold syntheticFields
  dsimp only
  split <;> rfl

/-- A property is not taken for an argument that every query has, unless it is named like one. -/
theorem escapeKeyword_notMem_syntheticFields {owner name : String} (hid : name ≠ "id")
    (hname : owner ≠ l.policy.rootType → name ≠ "name") :
    l.policy.escapeKeyword name ∉ (l.syntheticFields owner).map Field.name := by
  -- What begins with something else is no name that was changed.
  have hunder : ∀ s : String, s.toList.head? ≠ some '_' → name ≠ s →
      l.policy.escapeKeyword name ≠ s := by
    intro s hs hne heq
    rcases l.policy.escapeKeyword_eq_self_or name with hself | hself
    · exact hne (hself.symm.trans heq)
    · rw [← heq, hself, String.toList_append] at hs
      exact hs rfl
  rw [map_name_syntheticFields]
  split
  next => simpa using hunder "id" (by decide) hid
  next howner =>
    rw [List.mem_pair, not_or]
    exact ⟨hunder "id" (by decide) hid, hunder "name" (by decide) (hname howner)⟩

/-- A property of which a range is chosen survives if and only if its name is not taken from the
start, nor by a property before it of which a range is chosen. -/
theorem mem_surviving_iff {taken : List String} {before after : List (String × PropertyDecl)}
    {name : String} {decl : PropertyDecl} {choice : Choice}
    (hnodup : ((before ++ (name, decl) :: after).map Prod.fst).Nodup)
    (hchoice : (Choice.choose l.graph l.policy name decl).1 = some choice) :
    (name, choice) ∈ l.surviving taken (before ++ (name, decl) :: after) ↔
      l.policy.escapeKeyword name ∉ taken ∧
        ∀ e ∈ before, (Choice.choose l.graph l.policy e.1 e.2).1.isSome = true →
          l.policy.escapeKeyword e.1 ≠ l.policy.escapeKeyword name := by
  induction before generalizing taken with
  | nil =>
    rw [List.nil_append, surviving, hchoice]
    split
    next htaken =>
      refine iff_of_false (fun hmem => ?_) fun h => h.1 htaken
      -- Nothing behind a property has its name.
      obtain ⟨decl', hdecl', -⟩ := exists_choose_of_mem_surviving hmem
      exact (List.nodup_cons.1 hnodup).1 (List.mem_map.2 ⟨_, hdecl', rfl⟩)
    next htaken => exact iff_of_true List.mem_cons_self ⟨htaken, by simp⟩
  | cons d before ih =>
    obtain ⟨name', decl'⟩ := d
    rw [List.cons_append, List.map_cons, List.nodup_cons] at hnodup
    have hne : name ≠ name' := fun h => hnodup.1 (by simp [← h])
    rw [List.cons_append, surviving, List.forall_mem_cons]
    split
    next htaken =>
      -- The name of a property that is passed over is taken, so it is none that is free.
      rw [ih hnodup.2]
      refine and_congr_right fun hfree => (and_iff_right fun _ heq => ?_).symm
      exact hfree (heq ▸ htaken)
    next htaken =>
      cases hchoice' : (Choice.choose l.graph l.policy name' decl').1 with
      | none =>
        rw [ih hnodup.2]
        simp
      | some choice' =>
        -- From here on the name of the property is taken.
        rw [List.mem_cons, ih hnodup.2, List.mem_append, List.mem_singleton, not_or]
        simp only [Prod.mk.injEq, hne, false_and, false_or, Option.isSome_some,
          forall_const, and_assoc, ne_comm (b := l.policy.escapeKeyword name)]

/-- The names of arguments are all different. -/
theorem nodup_surviving {taken : List String} (htaken : taken.Nodup)
    (decls : List (String × PropertyDecl)) :
    (taken ++ (l.surviving taken decls).map fun e => l.policy.escapeKeyword e.1).Nodup := by
  induction decls generalizing taken with
  | nil => simpa [surviving] using htaken
  | cons d rest ih =>
    obtain ⟨name, decl⟩ := d
    rw [surviving]
    split
    next => exact ih htaken
    next hfree =>
      cases (Choice.choose l.graph l.policy name decl).1 with
      | none => exact ih htaken
      | some choice =>
        have hnew : (taken ++ [l.policy.escapeKeyword name]).Nodup := by
          rw [List.nodup_append_comm, List.singleton_append, List.nodup_cons]
          exact ⟨hfree, htaken⟩
        simpa using ih hnew

/-- Of the properties of a type, leaving those aside that are named like an argument that every
query has, those have an argument of which a range is chosen and whose name clashes with that of no
such property before. -/
theorem mem_argumentsOf_iff {node : TypeNode} {before after : List (String × PropertyDecl)}
    {name : String} {decl : PropertyDecl} {choice : Choice}
    (hentries : node.properties.entries = before ++ (name, decl) :: after)
    (hchoice : (Choice.choose l.graph l.policy name decl).1 = some choice) (hid : name ≠ "id")
    (hname : node.name ≠ l.policy.rootType → name ≠ "name") :
    (name, choice) ∈ l.argumentsOf node ↔
      ∀ e ∈ before, (Choice.choose l.graph l.policy e.1 e.2).1.isSome = true →
        ¬l.policy.Clash e.1 name := by
  have hnodup := node.properties.nodup
  rw [hentries] at hnodup
  unfold argumentsOf
  rw [hentries, mem_surviving_iff hnodup hchoice,
    and_iff_right (escapeKeyword_notMem_syntheticFields hid hname)]
  refine forall₂_congr fun e he => imp_congr_right fun _ => not_congr ?_
  have hne : e.1 ≠ name := by
    rw [List.map_append, List.nodup_append] at hnodup
    exact hnodup.2.2 e.1 (List.mem_map.2 ⟨e, he, rfl⟩) name (by simp)
  rw [Policy.escapeKeyword_eq_iff, or_iff_right hne]

/-! ## Types -/

/-- The query is what the lowering of the type returns, no two of its arguments have one name, and
after those that every query has it has one for each surviving property. -/
structure MadeFrom (l : Lowering) (node : TypeNode) (q : Query) : Prop where
  returned : Returns (l.query node) q
  isQuery : l.IsQuery (fun range t => ∃ hasGeo, Returns (l.lowerArgument hasGeo range) t) node q
  distinct : (q.fields.map Field.name).Nodup

/-- The names of the arguments of a query. -/
theorem IsQuery.map_name_fields {T : String → ValueType → Prop} {node : TypeNode} {q : Query}
    (h : l.IsQuery T node q) : q.fields.map Field.name =
      (l.syntheticFields node.name).map Field.name ++
        (l.argumentsOf node).map fun e => l.policy.escapeKeyword e.1 := by
  obtain ⟨arguments, hfields, harguments⟩ := h.fields
  have hnames := map_eq_map_of_forall₂ (f := fun e => l.policy.escapeKeyword e.1)
    (g := Field.name) harguments fun e f => by
      rintro ⟨type, -, rfl⟩
      rfl
  rw [hfields, List.map_append, ← hnames]

/-- What the lowering of a type returns is made from it. -/
theorem query_meets_madeFrom (node : TypeNode) :
    Meets (l.query node) (l.MadeFrom node) fun _ => True := by
  have hquery : Meets (l.query node)
      (l.IsQuery (fun range t => ∃ hasGeo, Returns (l.lowerArgument hasGeo range) t) node)
      fun _ => True :=
    query_meets fun e _ hasGeo _ _ =>
      (meets_returns _).imp fun t ht => ⟨hasGeo, ht⟩
  refine hquery.returned.imp ?_
  rintro q ⟨hreturned, hq⟩
  refine ⟨hreturned, hq, ?_⟩
  rw [hq.map_name_fields]
  refine nodup_surviving ?_ _
  rw [map_name_syntheticFields]
  split <;> decide

/-- There is an emitted type at each position of the order. -/
theorem exists_node?_of_mem_emissionOrder {i : Nat}
    (hi : i ∈ l.graph.emissionOrder l.policy) : ∃ node, l.graph.node? i = some node := by
  obtain ⟨node, hnode, -⟩ := TypeGraph.satisfies_iff.1 (List.mem_filter.1 hi).2
  exact ⟨node, hnode⟩

/-- What is related to the types at some positions is related to the positions, if there is a type
at each. -/
theorem forall₂_of_filterMap {P : TypeNode → Query → Prop} {ids : List Nat} {qs : List Query}
    (hids : ∀ i ∈ ids, ∃ node, l.graph.node? i = some node)
    (h : List.Forall₂ P (ids.filterMap l.graph.node?) qs) :
    List.Forall₂ (fun i q => ∃ node, l.graph.node? i = some node ∧ P node q) ids qs := by
  induction ids generalizing qs with
  | nil =>
    cases h
    exact .nil
  | cons i rest ih =>
    obtain ⟨node, hnode⟩ := hids i List.mem_cons_self
    rw [List.filterMap_cons, hnode] at h
    cases h with
    | cons hq hqs => exact .cons ⟨node, hnode, hq⟩ (ih (fun j hj => hids j (.tail _ hj)) hqs)

/-- No two emitted types have one name. -/
theorem nodup_emittedTypes (l : Lowering) : (l.emittedTypes.map TypeNode.name).Nodup := by
  have horder : (l.graph.emissionOrder l.policy).Nodup := l.graph.schedule_spec.1.filter _
  unfold emittedTypes
  rw [List.map_filterMap]
  refine horder.filterMap fun i j name hi hj => ?_
  obtain ⟨m, hm, rfl⟩ := Option.map_eq_some_iff.1 hi
  obtain ⟨n, hn, hname⟩ := Option.map_eq_some_iff.1 hj
  exact TypeGraph.node?_name_inj hm hn hname.symm

/-- The queries are all there, in order, if and only if their names are all different. -/
theorem values_ofList_eq_iff {qs : List Query} :
    (OrderedMap.ofList (qs.map fun q => (q.name, q))).values = qs ↔
      (qs.map Query.name).Nodup := by
  have hkeys : (qs.map fun q => (q.name, q)).map Prod.fst = qs.map Query.name := by
    rw [List.map_map]
    rfl
  rw [← hkeys, ← OrderedMap.entries_ofList_eq_iff]
  constructor
  · intro hvalues
    -- Every query stands under its name, so the queries determine the entries.
    have hentries : ∀ e ∈ (OrderedMap.ofList (qs.map fun q => (q.name, q))).entries,
        (e.2.name, e.2) = e := by
      intro e he
      obtain ⟨q, -, rfl⟩ := List.mem_map.1 (OrderedMap.entries_ofList_subset he)
      rfl
    conv_rhs => rw [← hvalues, OrderedMap.values, List.map_map]
    exact ((List.map_congr_left hentries).trans (List.map_id _)).symm
  · intro hentries
    rw [OrderedMap.values, hentries, List.map_map]
    exact List.map_id _

/-- Of the types and properties that a class is made from, those that are lost for the sake of a
keyword are exactly these. There is a query for every emitted type, each at its place, if and only
if no names of emitted types clash; otherwise the last query of a name is the only one. And a
property of which a range is chosen, unless it is named like an argument that every query has, has
an argument if and only if its name does not clash with that of such a property before it. -/
theorem lost_to_keywords_iff (l : Lowering) {notes notes' : Diagnostics} {c : ClassDefinition}
    (hrun : l.classDefinition.run notes = .ok (c, notes')) :
    (∃ qs, List.Forall₂ (fun i q => ∃ node, l.graph.node? i = some node ∧ l.MadeFrom node q)
        (l.graph.emissionOrder l.policy) qs ∧
      c.queries = .ofList (qs.map fun q => (q.name, q)) ∧
      (c.queries.values = qs ↔ ∀ m ∈ l.emittedTypes, ∀ n ∈ l.emittedTypes,
        ¬l.policy.Clash m.name n.name)) ∧
    ∀ node ∈ l.emittedTypes, ∀ before name decl after choice,
      node.properties.entries = before ++ (name, decl) :: after →
      (Choice.choose l.graph l.policy name decl).1 = some choice → name ≠ "id" →
      (node.name ≠ l.policy.rootType → name ≠ "name") →
      ((name, choice) ∈ l.argumentsOf node ↔
        ∀ e ∈ before, (Choice.choose l.graph l.policy e.1 e.2).1.isSome = true →
          ¬l.policy.Clash e.1 name) := by
  have hmeets := classDefinition_meets fun node _ => query_meets_madeFrom (l := l) node
  obtain ⟨qs, hqs, hqueries⟩ := hmeets.ok hrun
  refine ⟨⟨qs, forall₂_of_filterMap (fun _ => exists_node?_of_mem_emissionOrder) hqs, hqueries, ?_⟩,
    fun node _ before name decl after choice => mem_argumentsOf_iff⟩
  have hnames := map_eq_map_of_forall₂ (f := fun node => l.policy.escapeKeyword node.name)
    (g := Query.name) hqs fun node q h => h.isQuery.name.symm
  have hmap : qs.map Query.name =
      (l.emittedTypes.map TypeNode.name).map l.policy.escapeKeyword := by
    rw [← hnames, List.map_map]
    rfl
  rw [hqueries, values_ofList_eq_iff, hmap,
    Policy.nodup_map_escapeKeyword_iff (nodup_emittedTypes l)]
  simp only [List.forall_mem_map]

/-- The lowering of a vocabulary with a type and a property that are named like keywords, and of the
given facts. -/
def wordsWith (facts : List Fact) : Lowering :=
  ⟨(TypeGraph.analyze .standard
    ([.classFact "Thing" [] "" false, .classFact "class" ["Thing"] "" false,
      .propertyFact "in" ["Thing"] ["Text"] "" false] ++ facts)).1, .standard, {}⟩

/-- Keywords alone lose nothing. -/
theorem lost_to_keywords_iff_wordsWith_nil :
    ∃ c notes, (wordsWith []).classDefinition.run [] = .ok (c, notes) ∧
      ∃ qs, List.Forall₂
        (fun i q => ∃ node, (wordsWith []).graph.node? i = some node ∧
          (wordsWith []).MadeFrom node q)
        ((wordsWith []).graph.emissionOrder (wordsWith []).policy) qs ∧ c.queries.values = qs := by
  have hok : (result? (wordsWith []).classDefinition).isSome = true := by decide +kernel
  obtain ⟨c, hc⟩ := Option.isSome_iff_exists.1 hok
  obtain ⟨notes, hrun⟩ := exists_run_of_result? hc
  obtain ⟨⟨qs, hqs, -, hvalues⟩, -⟩ := lost_to_keywords_iff (wordsWith []) hrun
  have hplain : ∀ n ∈ (wordsWith []).emittedTypes, n.name.toList.head? ≠ some '_' := by
    decide +kernel
  have hnone : ∀ m ∈ (wordsWith []).emittedTypes, ∀ n ∈ (wordsWith []).emittedTypes,
      ¬(wordsWith []).policy.Clash m.name n.name := by
    rintro m hm n hn (hclash | hclash)
    · exact hplain n hn (by rw [hclash.eq, String.toList_append]; rfl)
    · exact hplain m hm (by rw [hclash.eq, String.toList_append]; rfl)
  exact ⟨c, notes, hrun, qs, hqs, hvalues.2 hnone⟩

/-- The same names with an underscore in front. -/
def underscored : List Fact :=
  [.classFact "_class" ["Thing"] "" false, .propertyFact "_in" ["Thing"] ["Text"] "" false]

/-- Beside the same names with an underscore in front, a query is lost of three emitted types, and
an argument of two properties of which a range is chosen. -/
theorem query_and_argument_lost :
    ∃ c notes, (wordsWith underscored).classDefinition.run [] = .ok (c, notes) ∧
      (wordsWith underscored).emittedTypes.map TypeNode.name = ["Thing", "class", "_class"] ∧
      c.queries.keys = ["Thing", "_class"] ∧
      (∃ node ∈ (wordsWith underscored).emittedTypes, node.name = "Thing" ∧
        node.properties.keys = ["in", "_in"] ∧
        ∀ e ∈ node.properties.entries, (Choice.choose (wordsWith underscored).graph
          (wordsWith underscored).policy e.1 e.2).1.isSome = true) ∧
      ∃ q ∈ c.queries.values, q.name = "Thing" ∧ q.fields.map Field.name = ["id", "_in"] := by
  have hclass : (result? (wordsWith underscored).classDefinition).any (fun c =>
      decide (c.queries.keys = ["Thing", "_class"] ∧
        ∃ q ∈ c.queries.values, q.name = "Thing" ∧ q.fields.map Field.name = ["id", "_in"])) =
      true := by decide +kernel
  obtain ⟨c, hc, hclass⟩ := Option.any_eq_true _ _ |>.1 hclass
  obtain ⟨notes, hrun⟩ := exists_run_of_result? hc
  obtain ⟨hkeys, hquery⟩ := of_decide_eq_true hclass
  exact ⟨c, notes, hrun, by decide +kernel, hkeys, by decide +kernel, hquery⟩

end Lowering

end VocabularyCompiler
