import VocabularyCompiler.Proofs.TypeGraph.Exclusion

/-!
# What facts make of each type

A graph is built fact by fact, and each fact is added to all the types that it is about. Seen from
one type, that is a sequence of changes to this type, which begins when a fact calls for it:
`Fact.applyTo` is what one fact makes of it, and `get?_build` says that the type of a name in
the built graph is what these changes come to, with the literals that facts give to that name.
-/

namespace VocabularyCompiler

namespace TypeGraph

variable {p : Policy} {g : TypeGraph} {name : String}

/-! ## Looking up types by name -/

/-- The type of a name is the one at its position. -/
theorem get?_eq_bind (g : TypeGraph) (name : String) :
    g.get? name = (g.id? name).bind g.node? := by
  refine Option.ext fun n => ?_
  rw [get?_eq_some_iff, Option.bind_eq_some_iff]
  constructor
  · rintro ⟨⟨i, hi⟩, hname⟩
    exact ⟨i, id?_eq_some_iff.2 ⟨n, hi, hname⟩, hi⟩
  · rintro ⟨i, hid, hi⟩
    obtain ⟨m, hm, hname⟩ := id?_eq_some_iff.1 hid
    obtain rfl := Option.some.inj (hi.symm.trans hm)
    exact ⟨⟨i, hi⟩, hname⟩

/-- A change of the type of a name changes that type only. -/
theorem get?_modify {i : Nat} (hi : g.id? name = some i) {f : TypeNode → TypeNode}
    (hf : ∀ n, (f n).name = n.name) (name' : String) :
    (g.modify i f hf).get? name' =
      if name = name' then (g.get? name').map f else g.get? name' := by
  have hid : (g.modify i f hf).id? = g.id? := id?_congr fun j => by
    rw [node?_modify]
    split
    · rw [Option.map_map]
      exact congrArg (Option.map · _) (funext hf)
    · rfl
  rw [get?_eq_bind, get?_eq_bind, hid]
  cases hj : g.id? name' with
  | none => simp
  | some j =>
    rw [Option.bind_some, Option.bind_some, node?_modify]
    -- A position has one name, and a name one position.
    have hij : i = j ↔ name = name' := by
      obtain ⟨m, hm, rfl⟩ := id?_eq_some_iff.1 hi
      obtain ⟨n, hn, rfl⟩ := id?_eq_some_iff.1 hj
      refine ⟨fun h => ?_, node?_name_inj hm hn⟩
      rw [Option.some.inj (hm.symm.trans (h ▸ hn))]
    simp only [hij]

/-- A name is there after it was asked for. -/
theorem get?_ensure (g : TypeGraph) (name name' : String) :
    (g.ensure name).get? name' =
      if name = name' then some ((g.get? name').getD { name := name' }) else g.get? name' := by
  unfold get?
  rw [nodes_ensure]
  split
  next hmem =>
    split
    next hname =>
      subst hname
      obtain ⟨n, hn⟩ := contains_iff.1 (mem_names_iff.1 hmem)
      unfold get? at hn
      rw [hn]
      rfl
    next => rfl
  next hmem =>
    rw [List.find?_append, List.find?_singleton]
    have hnone : g.nodes.find? (fun n => n.name = name) = none := by
      rw [List.find?_eq_none]
      intro n hn hname
      exact hmem (List.mem_map.2 ⟨n, hn, of_decide_eq_true hname⟩)
    by_cases hname : name = name'
    · subst hname
      simp [hnone]
    · simp [hname]

/-- Classification gives the type of a name its kinds. -/
theorem get?_classify {i : Nat} (hi : g.id? name = some i) :
    (g.classify p).1.get? name =
      (g.get? name).map fun n => { n with classification := (g.classifyNode p i n).1 } := by
  rw [get?_eq_bind, get?_eq_bind, id?_classify, hi]
  exact node?_classify g p i

/-- A name that was asked for has a position. -/
theorem exists_id?_ensure (g : TypeGraph) (name : String) :
    ∃ i, (g.ensure name).id? name = some i := by
  have hget := g.get?_ensure name name
  rw [if_pos rfl] at hget
  obtain ⟨⟨i, hi⟩, hname⟩ := get?_eq_some_iff.1 hget
  exact ⟨i, id?_eq_some_iff.2 ⟨_, hi, hname⟩⟩

end TypeGraph

/-! ## The changes to one type -/

open TypeGraph

/-- What a fact changes of the type of a name, if it calls for one. -/
def Fact.change? (p : Policy) (name : String) (fact : Fact) : Option (TypeNode → TypeNode) :=
  if fact.isLeftOut p then none else
    match fact with
    | .classFact name' parents comment _ =>
      if name' = name then
        some fun n => { n with parents := Draft.parentsOf p name parents, comment := comment }
      else none
    | .propertyFact prop domains ranges comment _ =>
      if name ∈ domains.filter (Draft.keepsType p) then
        some fun n => { n with properties := n.properties.insert prop ⟨prop, ranges, comment⟩ }
      else none
    | .literalFact .. => none

/-- What a fact makes of the type of a name, of which there is none until a fact calls for it. -/
def Fact.applyTo (p : Policy) (name : String) (fact : Fact) (n? : Option TypeNode) :
    Option TypeNode :=
  match fact.change? p name with
  | none => n?
  | some change => some (change (n?.getD { name := name }))

/-- A type is called for by classes of its name and by properties on it. -/
theorem Fact.of_change?_eq_some {p : Policy} {name : String} {fact : Fact}
    {change : TypeNode → TypeNode} (h : fact.change? p name = some change) :
    (∃ parents comment superseded, fact = .classFact name parents comment superseded ∧
      change = fun n =>
        { n with parents := Draft.parentsOf p name parents, comment := comment }) ∨
    ∃ prop domains ranges comment superseded,
      fact = .propertyFact prop domains ranges comment superseded ∧ name ∈ domains ∧
      change = fun n =>
        { n with properties := n.properties.insert prop ⟨prop, ranges, comment⟩ } := by
  unfold change? at h
  split at h
  · cases h
  cases fact with
  | classFact name' parents comment superseded =>
    dsimp only at h
    split at h
    next hname =>
      cases h
      exact Or.inl ⟨parents, comment, superseded, hname ▸ rfl, rfl⟩
    next => cases h
  | propertyFact prop domains ranges comment superseded =>
    dsimp only at h
    split at h
    next hname =>
      cases h
      exact Or.inr ⟨prop, domains, ranges, comment, superseded, rfl, List.mem_of_mem_filter hname,
        rfl⟩
    next => cases h
  | literalFact => cases h

/-- The literal that a fact gives to an enumeration. -/
def Fact.literalOf? (p : Policy) (name : String) (fact : Fact) : Option String :=
  if fact.isLeftOut p then none else
    match fact with
    | .literalFact literal enumType _ => if enumType = name then some literal else none
    | _ => none

namespace TypeGraph

variable {p : Policy} {g : TypeGraph} {name : String}

namespace Draft

/-- What a fact that counts adds. -/
theorem add_of_counts {d : Draft} {fact : Fact} (h : fact.isLeftOut p = false) :
    d.add p fact = match fact with
      | .literalFact name enumType _ => d.addLiteral name enumType
      | .propertyFact name domains ranges comment _ =>
        d.addProperty p ⟨name, ranges, comment⟩ domains
      | .classFact name parents comment _ => d.addClass p name parents comment := by
  unfold Fact.isLeftOut at h
  simp only [Bool.or_eq_false_iff] at h
  obtain ⟨⟨⟨hsuperseded, hbuiltin⟩, hexcluded⟩, hproperty⟩ := h
  unfold add keepsType
  rw [hsuperseded, hbuiltin, hexcluded]
  cases fact with
  | propertyFact name domains ranges comment superseded =>
    dsimp only at hproperty ⊢
    rw [hproperty]
    rfl
  | _ => rfl

/-- A class sets the parents and the comment of its type. -/
theorem get?_addClass (d : Draft) (name : String) (parents : List String) (comment : String)
    (name' : String) :
    (d.addClass p name parents comment).graph.get? name' =
      if name = name' then
        some { (d.graph.get? name').getD { name := name' } with
          parents := parentsOf p name' parents, comment := comment }
      else d.graph.get? name' := by
  obtain ⟨i, hi⟩ := d.graph.exists_id?_ensure name
  unfold addClass
  dsimp only
  rw [hi]
  dsimp only
  rw [get?_modify hi, get?_ensure]
  split
  next hname => rw [hname]; rfl
  next => rfl

/-- A declaration goes to its domain. -/
theorem get?_addDeclaration (decl : PropertyDecl) (g : TypeGraph) (domain name : String) :
    (addDeclaration decl g domain).get? name =
      if domain = name then
        let n := (g.get? name).getD { name := name }
        some { n with properties := n.properties.insert decl.name decl }
      else g.get? name := by
  obtain ⟨i, hi⟩ := g.exists_id?_ensure domain
  unfold addDeclaration
  dsimp only
  rw [hi]
  dsimp only [declare]
  rw [get?_modify hi, get?_ensure]
  split <;> rfl

/-- A property is declared once on a domain, however often the domain is named. -/
theorem get?_foldl_addDeclaration (decl : PropertyDecl) (domains : List String) (g : TypeGraph)
    (name : String) :
    (domains.foldl (addDeclaration decl) g).get? name =
      if name ∈ domains then
        let n := (g.get? name).getD { name := name }
        some { n with properties := n.properties.insert decl.name decl }
      else g.get? name := by
  induction domains generalizing g with
  | nil => rfl
  | cons domain rest ih =>
    rw [List.foldl_cons, ih, get?_addDeclaration]
    by_cases hname : domain = name
    · subst hname
      simp [OrderedMap.insert_insert_self]
    · have hne : name ≠ domain := Ne.symm hname
      simp [hname, hne]

/-- A fact changes the type of each name as it applies to that name. -/
theorem get?_add (d : Draft) (fact : Fact) (name : String) :
    (d.add p fact).graph.get? name = fact.applyTo p name (d.graph.get? name) := by
  unfold Fact.applyTo Fact.change?
  cases hleft : fact.isLeftOut p with
  | true => rw [(add_of_isLeftOut hleft).1]; rfl
  | false =>
    rw [add_of_counts hleft]
    cases fact with
    | classFact name' parents comment superseded =>
      dsimp only
      rw [get?_addClass]
      by_cases hname : name' = name <;> simp [hname]
    | propertyFact prop domains ranges comment superseded =>
      dsimp only [addProperty]
      rw [get?_foldl_addDeclaration]
      by_cases hname : name ∈ domains.filter (keepsType p) <;> simp [hname]
    | literalFact literal enumType superseded => rfl

/-- A fact adds its literal to those of its enumeration. -/
theorem literals_add (d : Draft) (fact : Fact) (name : String) :
    ((d.add p fact).literals.get? name).getD ∅ =
      (fact.literalOf? p name).toList.foldl OrderedSet.insert ((d.literals.get? name).getD ∅) := by
  unfold Fact.literalOf?
  cases hleft : fact.isLeftOut p with
  | true => rw [(add_of_isLeftOut hleft).2]; rfl
  | false =>
    rw [add_of_counts hleft]
    cases fact with
    | classFact name' parents comment superseded =>
      dsimp only [addClass]
      split <;> rfl
    | propertyFact prop domains ranges comment superseded => rfl
    | literalFact literal enumType superseded =>
      dsimp only [addLiteral]
      rw [OrderedMap.get?_insert]
      by_cases hname : enumType = name
      · subst hname
        simp
      · simp [hname]

/-- Facts change the type of each name one after another. -/
theorem get?_foldl_add (d : Draft) (facts : List Fact) (name : String) :
    (facts.foldl (add p) d).graph.get? name =
      facts.foldl (fun n? fact => fact.applyTo p name n?) (d.graph.get? name) := by
  induction facts generalizing d with
  | nil => rfl
  | cons fact rest ih => rw [List.foldl_cons, ih, get?_add, List.foldl_cons]

/-- The literals of an enumeration are those that facts give to it, first given first. -/
theorem literals_foldl_add (d : Draft) (facts : List Fact) (name : String) :
    ((facts.foldl (add p) d).literals.get? name).getD ∅ =
      (facts.filterMap (Fact.literalOf? p name)).foldl OrderedSet.insert
        ((d.literals.get? name).getD ∅) := by
  induction facts generalizing d with
  | nil => rfl
  | cons fact rest ih =>
    rw [List.foldl_cons, ih, literals_add, List.filterMap_cons]
    cases fact.literalOf? p name <;> rfl

/-- An enumeration that is a type is given its literals. -/
theorem get?_attach (d : Draft) (e : String × OrderedSet String) (name : String) :
    (d.attach e).graph.get? name =
      if e.1 = name then (d.graph.get? name).map fun n => { n with literals := e.2 }
      else d.graph.get? name := by
  unfold attach
  cases hid : d.graph.id? e.1 with
  | none =>
    dsimp only
    split
    next hname =>
      rw [hname] at hid
      rw [get?_eq_bind, hid]
      rfl
    next => rfl
  | some i => exact get?_modify hid (f := fun n => { n with literals := e.2 }) (fun _ => rfl) name

/-- Every enumeration that is a type is given its literals. -/
theorem get?_foldl_attach (entries : List (String × OrderedSet String))
    (hnodup : (entries.map Prod.fst).Nodup) (d : Draft) (name : String) :
    (entries.foldl attach d).graph.get? name = (d.graph.get? name).map fun n =>
      { n with literals := ((OrderedMap.mk entries hnodup).get? name).getD n.literals } := by
  induction entries generalizing d with
  | nil => exact Option.map_id'.symm
  | cons e rest ih =>
    rw [List.map_cons, List.nodup_cons] at hnodup
    rw [List.foldl_cons, ih hnodup.2, get?_attach]
    unfold OrderedMap.get?
    dsimp only
    rw [List.find?_cons]
    by_cases hname : e.1 = name
    · -- No later entry is of this name.
      have hnone : rest.find? (fun e => e.1 = name) = none := by
        rw [List.find?_eq_none]
        intro e' he' hname'
        exact hnodup.1 (List.mem_map.2 ⟨e', he', (of_decide_eq_true hname').trans hname.symm⟩)
      simp [hname, hnone, Function.comp_def]
    · simp [hname]

end Draft

/-- A type that no fact has given literals or a kind yet. -/
structure Unfinished (name : String) (n : TypeNode) : Prop where
  name : n.name = name
  literals : n.literals = ∅
  classification : n.classification = {}

/-- A fact that is applied to a type gives it no literals and no kind. -/
theorem Unfinished.applyTo {n? : Option TypeNode} (h : ∀ n ∈ n?, Unfinished name n) (fact : Fact) :
    ∀ n ∈ fact.applyTo p name n?, Unfinished name n := by
  have hn : Unfinished name (n?.getD { name := name }) := by
    cases n? with
    | none => exact ⟨rfl, rfl, rfl⟩
    | some n => exact h n rfl
  unfold Fact.applyTo
  cases hchange : fact.change? p name with
  | none => exact h
  | some change =>
    intro m hm
    cases hm
    rcases Fact.of_change?_eq_some hchange with ⟨_, _, _, -, rfl⟩ | ⟨_, _, _, _, _, -, -, rfl⟩ <;>
      exact ⟨hn.name, hn.literals, hn.classification⟩

/-- Facts that are applied to a name make no type with literals or a kind. -/
theorem unfinished_foldl_applyTo (p : Policy) (name : String) (facts : List Fact) :
    ∀ n ∈ facts.foldl (fun n? fact => fact.applyTo p name n?) none, Unfinished name n :=
  List.foldlRecOn facts _ (motive := fun n? => ∀ n ∈ n?, Unfinished name n) (fun _ h => nomatch h)
    fun _ h fact _ => Unfinished.applyTo h fact

/-- The type of a name in the built graph is what the facts make of that name one after another,
with the literals that they give to it. -/
theorem get?_build (p : Policy) (facts : List Fact) (name : String) :
    (build p facts).1.get? name =
      (facts.foldl (fun n? fact => fact.applyTo p name n?) none).map fun n =>
        { n with literals := .ofList (facts.filterMap (Fact.literalOf? p name)) } := by
  -- Literals are attached last, to types that have none until then.
  unfold build
  dsimp only
  rw [Draft.get?_foldl_attach _ (facts.foldl (Draft.add p) {}).literals.nodup, Draft.get?_foldl_add]
  refine Option.map_congr fun n hn => ?_
  have hempty : n.literals = ∅ := (unfinished_foldl_applyTo p name facts n hn).literals
  have hliterals := Draft.literals_foldl_add (p := p) {} facts name
  rw [hempty]
  exact congrArg (fun literals => { n with literals := literals }) hliterals

end TypeGraph

end VocabularyCompiler
