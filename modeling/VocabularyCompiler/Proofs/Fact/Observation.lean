import VocabularyCompiler.Compiler
import VocabularyCompiler.Proofs.Json.Budget

/-!
# Observing documents

A document counts whole or not at all. `Accepted` says which documents are taken and what facts they
add, `Refused` which are not and what is said of them, both from the nodes of the document alone:
the first node that cannot be read decides, and if all can be read, the first one that stands for no
fact. Main statement: after any sequence of documents a compiler has the facts that it had, then
those of the accepted ones in order (`Compiler.offerAll_exact`).
-/

namespace VocabularyCompiler

open Json

/-! ## Lists of steps that may fail -/

section Lists

variable {α β : Type}

/-- What exists for each element of a list exists for all of them at once. -/
theorem exists_forall₂_of_forall {R : α → β → Prop} {l : List α} (h : ∀ a ∈ l, ∃ b, R a b) :
    ∃ bs, List.Forall₂ R l bs := by
  induction l with
  | nil => exact ⟨[], .nil⟩
  | cons a l ih =>
    obtain ⟨⟨b, hb⟩, hrest⟩ := List.forall_mem_cons.1 h
    obtain ⟨bs, hbs⟩ := ih hrest
    exact ⟨b :: bs, .cons hb hbs⟩

/-- A property holds of all elements of a list, or there is a first one without it. -/
theorem forall_or_exists_first_not (p : α → Prop) (l : List α) :
    (∀ a ∈ l, p a) ∨ ∃ before a after, l = before ++ a :: after ∧ (∀ b ∈ before, p b) ∧ ¬ p a := by
  classical
  cases hfind : l.find? fun a => ¬ p a with
  | none =>
    refine .inl fun a ha => ?_
    simpa using List.find?_eq_none.1 hfind a ha
  | some a =>
    obtain ⟨hnot, before, after, hl, hbefore⟩ := List.find?_eq_some_iff_append.1 hfind
    exact .inr ⟨before, a, after, hl, fun b hb => by simpa using hbefore b hb, by simpa using hnot⟩

end Lists

namespace Json.Reader

variable {α σ : Type}

/-- The first item that cannot be read is what is said of all of them. -/
theorem items_eq_error {read : Source → Except ReadError α} {before : List Source} {s : Source}
    {e : ReadError} (i : Nat) (after : List Source)
    (hbefore : ∀ s ∈ before, ∃ a, read s = .ok a) (hs : read s = .error e) :
    items read i (before ++ s :: after) =
      .error { e with path := .index (i + before.length) :: e.path } := by
  induction before generalizing i with
  | nil =>
    rw [List.nil_append, items, hs]
    rfl
  | cons s' before ih =>
    obtain ⟨⟨a, ha⟩, hrest⟩ := List.forall_mem_cons.1 hbefore
    have hitems := ih (i + 1) hrest
    have hindex : i + 1 + before.length = i + (s' :: before).length := by
      rw [List.length_cons]
      omega
    rw [List.cons_append, items, ha]
    change (items read (i + 1) (before ++ s :: after) >>= _) = _
    rw [hitems, hindex]
    rfl

section SingleField

variable {name : String} {read : Reader α} {put : σ → α → σ} {n : Nat}

/-- A key finds the only field of a record if it is its name. -/
theorem find?_single (key : String) :
    ([FieldReader.mandatory name read put].find? fun f => f.isNamed key) =
      if key = name then some (.mandatory name read put) else none := by
  have hnamed : (FieldReader.mandatory name read put).isNamed key = decide (key = name) := by
    rw [Bool.eq_iff_iff, FieldReader.isNamed_iff, FieldReader.keys_mandatory, List.mem_singleton,
      decide_eq_true_eq]
  rw [List.find?_singleton, hnamed]
  by_cases h : key = name
  · rw [if_pos (decide_eq_true h), if_pos h]
  · rw [if_neg (fun h' => h (of_decide_eq_true h')), if_neg h]

/-- Once the only field of a record was read it must not come again. -/
theorem recordMembers_single_seen (ms : List (String × Value)) (st : σ) :
    recordMembers [.mandatory name read put] ⟨.memory, n⟩ st [name] (Source.ofMembers ms) =
      match valuesUnder [name] ms with
      | [] => .ok (st, [name])
      | _ :: _ => fail (.duplicateField name) := by
  induction ms with
  | nil => rfl
  | cons m rest ih =>
    obtain ⟨key, v⟩ := m
    rw [Source.ofMembers, recordMembers, find?_single, valuesUnder_cons]
    simp only [List.mem_singleton]
    by_cases hkey : key = name
    · rw [if_pos hkey, if_pos hkey]
      exact if_pos rfl
    · rw [if_neg hkey, if_neg hkey, ← ih]
      dsimp only
      rw [atMember_ofValue, Source.skipFault?_ofValue]
      rfl

/-- The only field of a record is read where it stands, whatever stands around it. -/
theorem recordMembers_single (ms : List (String × Value)) (st : σ) :
    recordMembers [.mandatory name read put] ⟨.memory, n⟩ st [] (Source.ofMembers ms) =
      match valuesUnder [name] ms with
      | [] => .ok (st, [])
      | v :: rest => within (.key name) (read ⟨.memory, n⟩ (.ofValue v)) >>= fun a =>
        match rest with
        | [] => .ok (put st a, [name])
        | _ :: _ => fail (.duplicateField name) := by
  induction ms with
  | nil => rfl
  | cons m ms ih =>
    obtain ⟨key, v⟩ := m
    rw [Source.ofMembers, recordMembers, find?_single, valuesUnder_cons]
    simp only [List.mem_singleton]
    by_cases hkey : key = name
    · subst hkey
      rw [if_pos rfl, if_pos rfl]
      dsimp only
      rw [if_neg List.not_mem_nil, atMember_ofValue]
      change (within _ ((read ⟨.memory, n⟩ (.ofValue v)).map (put st)) >>= fun st =>
        recordMembers [.mandatory key read put] ⟨.memory, n⟩ st [key] (Source.ofMembers ms)) = _
      cases read ⟨.memory, n⟩ (.ofValue v) with
      | error e => rfl
      | ok a => exact recordMembers_single_seen ms (put st a)
    · rw [if_neg hkey, if_neg hkey, ← ih]
      dsimp only
      rw [atMember_ofValue, Source.skipFault?_ofValue]
      rfl

end SingleField

end Json.Reader

/-! ## Nodes -/

namespace Node

variable {ns : Namespace} {n : Node} {e : CompileError}

/-- A node is read the same anywhere. -/
theorem steady_read : Node.read.Steady := by
  refine Reader.steady_record ?_
  simp only [List.forall_mem_cons]
  exact ⟨fun _ => Reader.steady_string.map _, fun _ => (Reader.steady_oneOf _ _).map _,
    fun _ => (Reader.steady_oneOf _ _).option.map _,
    fun _ => (Reader.steady_oneOf _ _).option.map _,
    fun _ => (Reader.steady_oneOf _ _).option.map _,
    fun _ => (Reader.steady_oneOf _ _).option.map _,
    fun _ => Reader.steady_value.option.map _, List.forall_mem_nil _⟩

/-- The types of a node tell what it is: a class, a property, or a literal of the enumerations that
they name. -/
def TellsKind (ns : Namespace) (n : Node) : Prop :=
  "rdfs:Class" ∈ n.types ∨ "rdf:Property" ∈ n.types ∨
    n.types ≠ [] ∧ ∀ t ∈ n.types, ns.strip? t ≠ none

/-- A node that stands for no fact, and what is said of it: its types tell what it is, but its
identifier leads out of the vocabulary, or they do not tell. -/
inductive Offends (ns : Namespace) (n : Node) : CompileError → Prop
  | foreign (hkind : n.TellsKind ns) (hid : ns.strip? n.id = none) :
      Offends ns n (.foreignIdentifier n.id)
  | unrecognized (hkind : ¬ n.TellsKind ns) :
      Offends ns n (.unrecognizedFact n.id (", ".intercalate n.types))

/-- A node whose types tell what it is offends if its identifier has no local name. -/
theorem offends_iff_of_tellsKind (h : n.TellsKind ns) :
    n.Offends ns e ↔ ns.strip? n.id = none ∧ e = .foreignIdentifier n.id := by
  constructor
  · rintro (⟨-, hid⟩ | hkind)
    · exact ⟨hid, rfl⟩
    · exact absurd h hkind
  · rintro ⟨hid, rfl⟩
    exact .foreign h hid

/-- A node whose types do not tell what it is offends. -/
theorem offends_iff_of_not_tellsKind (h : ¬ n.TellsKind ns) :
    n.Offends ns e ↔ e = .unrecognizedFact n.id (", ".intercalate n.types) := by
  constructor
  · rintro (⟨hkind, -⟩ | -)
    · exact absurd hkind h
    · rfl
  · rintro rfl
    exact .unrecognized h

/-- Identifiers have local names together if each of them has one. -/
theorem mapM_strip?_ne_none_iff {iris : List String} :
    iris.mapM ns.strip? ≠ none ↔ ∀ iri ∈ iris, ns.strip? iri ≠ none := by
  induction iris with
  | nil => simp
  | cons iri rest ih =>
    rw [List.mapM_cons, List.forall_mem_cons, ← ih]
    cases ns.strip? iri with
    | none => simp
    | some name => cases rest.mapM ns.strip? <;> simp

/-- Where a local name is needed, nothing fails but a missing one. -/
theorem localName_bind_eq_error_iff {α : Type} {iri : String} {f : String → α} :
    (ns.localName iri >>= fun name => pure (f name)) = .error e ↔
      ns.strip? iri = none ∧ e = .foreignIdentifier iri := by
  rw [Namespace.localName]
  cases ns.strip? iri with
  | none => exact ⟨fun h => ⟨rfl, (Except.error.inj h).symm⟩, fun h => congrArg _ h.2.symm⟩
  | some name => exact ⟨fun h => (nomatch h), fun h => (nomatch h.1)⟩

/-- A node yields no facts exactly if it offends. -/
theorem facts_eq_error_iff : n.facts ns = .error e ↔ n.Offends ns e := by
  unfold Node.facts
  by_cases hclass : "rdfs:Class" ∈ n.types
  · simp only [if_pos hclass, offends_iff_of_tellsKind (.inl hclass)]
    exact localName_bind_eq_error_iff
  by_cases hproperty : "rdf:Property" ∈ n.types
  · simp only [if_neg hclass, if_pos hproperty, offends_iff_of_tellsKind (.inr (.inl hproperty))]
    exact localName_bind_eq_error_iff
  simp only [if_neg hclass, if_neg hproperty]
  -- What is left is a literal, or nothing at all.
  have htells : n.TellsKind ns ↔ n.types ≠ [] ∧ n.types.mapM ns.strip? ≠ none := by
    rw [TellsKind, or_iff_right hclass, or_iff_right hproperty, mapM_strip?_ne_none_iff]
  have hunrecognized (hnot : ¬ n.TellsKind ns) :
      (.error (.unrecognizedFact n.id (", ".intercalate n.types)) : Except _ (List Fact)) =
        .error e ↔ n.Offends ns e := by
    rw [offends_iff_of_not_tellsKind hnot, Except.error.injEq, eq_comm]
  cases hnames : n.types.mapM ns.strip? with
  | none => exact hunrecognized fun h => (htells.1 h).2 hnames
  | some names =>
    cases names with
    | nil =>
      refine hunrecognized fun h => ?_
      obtain ⟨t, rest, htypes⟩ := List.exists_cons_of_ne_nil (htells.1 h).1
      rw [htypes, List.mapM_cons] at hnames
      cases ht : ns.strip? t <;> cases hrest : rest.mapM ns.strip? <;>
        simp [ht, hrest] at hnames
    | cons first rest =>
      have hne : n.types ≠ [] := fun hnil => by
        rw [hnil] at hnames
        cases hnames
      have hsome : n.types.mapM ns.strip? ≠ none := fun hnone => by
        cases hnames.symm.trans hnone
      rw [offends_iff_of_tellsKind (htells.2 ⟨hne, hsome⟩)]
      exact localName_bind_eq_error_iff

end Node

/-! ## Documents -/

namespace Fact

/-- A value is a document with a graph of nodes: an object with the graph under its key, or an array
with the graph as its only item. The segment leads to the graph. -/
inductive Graph : Value → Segment → List Value → Prop
  | object {ms : List (String × Value)} {nodes : List Value}
      (h : valuesUnder ["@graph"] ms = [.array nodes]) : Graph (.object ms) (.key "@graph") nodes
  | array (nodes : List Value) : Graph (.array [.array nodes]) (.index 0) nodes

/-- A document has one graph. -/
theorem Graph.nodes_eq {v : Value} {step step' : Segment} {nodes nodes' : List Value}
    (h : Graph v step nodes) (h' : Graph v step' nodes') : nodes = nodes' := by
  cases h with
  | object h =>
    cases h' with
    | object h' => exact Value.array.inj (List.singleton_injective (h.symm.trans h'))
  | array =>
    cases h'
    rfl

/-- A value is a node that can be read. -/
def Readable (v : Value) : Prop := ∃ n, readValue Node.read v = .ok n

/-- A value is a node that stands for facts. -/
def Stands (ns : Namespace) (v : Value) (facts : List Fact) : Prop :=
  ∃ n, readValue Node.read v = .ok n ∧ n.facts ns = .ok facts

/-- A document is accepted with the facts of its nodes if each of them stands for facts. -/
def Accepted (ns : Namespace) (v : Value) (facts : List Fact) : Prop :=
  ∃ step nodes parts, Graph v step nodes ∧ List.Forall₂ (Stands ns) nodes parts ∧
    facts = parts.flatten

/-- A document is refused, and what is said of it: it has no graph, or a node of the graph cannot
be read, or all can be read and one offends. It is the first such node that counts. -/
inductive Refused (ns : Namespace) (v : Value) : CompileError → Prop
  | noGraph {e : ReadError} (h : ∀ step nodes, ¬ Graph v step nodes)
      (he : readValue Node.readGraph v = .error e) : Refused ns v (.malformedDocument e.message)
  | malformed {step : Segment} {before after : List Value} {bad : Value} {e : ReadError}
      (hgraph : Graph v step (before ++ bad :: after)) (hbefore : ∀ w ∈ before, Readable w)
      (hbad : readValue Node.read bad = .error e) :
      Refused ns v (.malformedDocument
        (ReadError.mk (step :: .index before.length :: e.path) e.complaint).message)
  | offending {step : Segment} {before after : List Value} {bad : Value} {n : Node}
      {e : CompileError} (hgraph : Graph v step (before ++ bad :: after))
      (hbefore : ∀ w ∈ before, ∃ facts, Stands ns w facts)
      (hbad : readValue Node.read bad = .ok n) (hoffends : n.Offends ns e)
      (hafter : ∀ w ∈ after, Readable w) : Refused ns v e

variable {ns : Namespace} {v : Value} {step : Segment} {nodes : List Value}

/-- An object is a document if its graph is one, and it has only one. -/
theorem readGraph_object (ms : List (String × Value)) (n : Nat) :
    Node.readGraph ⟨.memory, n + 1⟩ (.ofValue (.object ms)) =
      match valuesUnder ["@graph"] ms with
      | [] => Reader.fail (.missingField "@graph")
      | v :: rest =>
        Reader.within (.key "@graph") (Reader.list Node.read ⟨.memory, n⟩ (.ofValue v)) >>= fun a =>
          match rest with
          | [] => .ok a
          | _ :: _ => Reader.fail (.duplicateField "@graph") := by
  change (Reader.recordMembers [.mandatory "@graph" (.list Node.read) fun _ a => a] ⟨.memory, n⟩ []
    [] (Source.ofMembers ms) >>= _) = _
  rw [Reader.recordMembers_single]
  cases valuesUnder ["@graph"] ms with
  | nil => rfl
  | cons v rest =>
    dsimp only
    cases Reader.list Node.read ⟨.memory, n⟩ (.ofValue v) with
    | error e => rfl
    | ok a => cases rest <;> rfl

/-- An array is a document if its first item is a graph, and it has no other. -/
theorem readGraph_array (v : Value) (rest : List Value) (n : Nat) :
    Node.readGraph ⟨.memory, n + 1⟩ (.ofValue (.array (v :: rest))) =
      (Reader.within (.index 0) (Reader.list Node.read ⟨.memory, n⟩ (.ofValue v)) >>= fun a =>
        match rest with
        | [] => .ok a
        | _ :: _ => Reader.fail
          (.invalidLength (Source.ofItems (v :: rest)).length "fewer elements in array")) := by
  change (Reader.recordItems _ ⟨.memory, n⟩ none 0 [] [.mandatory "@graph" (.list Node.read)
    fun _ a => a] (Source.ofItems (v :: rest)) >>= _) = _
  rw [Source.ofItems, Reader.recordItems]
  change (Reader.within _ ((Reader.list Node.read ⟨.memory, n⟩ (.ofValue v)).map fun a => a) >>= _)
    >>= _ = _
  cases Reader.list Node.read ⟨.memory, n⟩ (.ofValue v) with
  | error e => rfl
  | ok a => cases rest <;> rfl

/-- Nothing but an array is read as a list of nodes. -/
theorem exists_eq_array_of_list {n : Nat} {as : List Node}
    (h : Reader.list Node.read ⟨.memory, n⟩ (.ofValue v) = .ok as) : ∃ nodes, v = .array nodes := by
  cases v with
  | array nodes => exact ⟨nodes, rfl⟩
  | null | bool _ | number _ | string _ | object _ => cases h

/-- Without a graph nothing can be read. -/
theorem exists_readGraph_eq_error (h : ∀ step nodes, ¬ Graph v step nodes) :
    ∃ e, readValue Node.readGraph v = .error e := by
  cases v with
  | null | bool _ | number _ | string _ => exact ⟨_, rfl⟩
  | array vs =>
    cases vs with
    | nil => exact ⟨_, rfl⟩
    | cons w rest =>
      change ∃ e, Node.readGraph
        ⟨.memory, Source.heightOfItems (Source.ofItems (w :: rest)) + 1⟩ _ = .error e
      rw [readGraph_array]
      cases hw : Reader.list Node.read
        ⟨.memory, Source.heightOfItems (Source.ofItems (w :: rest))⟩ (.ofValue w) with
      | error e => exact ⟨_, rfl⟩
      | ok as =>
        cases rest with
        | cons _ _ => exact ⟨_, rfl⟩
        | nil =>
          -- One item that is read as a list of nodes would be a graph.
          obtain ⟨nodes, rfl⟩ := exists_eq_array_of_list hw
          exact absurd (.array nodes) (h _ nodes)
  | object ms =>
    change ∃ e, Node.readGraph
      ⟨.memory, Source.heightOfMembers (Source.ofMembers ms) + 1⟩ _ = .error e
    rw [readGraph_object]
    cases hms : valuesUnder ["@graph"] ms with
    | nil => exact ⟨_, rfl⟩
    | cons w rest =>
      dsimp only
      cases hw : Reader.list Node.read
        ⟨.memory, Source.heightOfMembers (Source.ofMembers ms)⟩ (.ofValue w) with
      | error e => exact ⟨_, rfl⟩
      | ok as =>
        cases rest with
        | cons _ _ => exact ⟨_, rfl⟩
        | nil =>
          obtain ⟨nodes, rfl⟩ := exists_eq_array_of_list hw
          exact absurd (.object hms) (h _ nodes)

/-- The graph of a document is read node by node, each as it is read alone. -/
theorem exists_readGraph_eq (h : Graph v step nodes) :
    ∃ n, (∀ w ∈ nodes, (Source.ofValue w).height ≤ n) ∧ readValue Node.readGraph v =
      Reader.within step (Reader.items (Node.read ⟨.memory, n⟩) 0 (nodes.map Source.ofValue)) := by
  cases h with
  | @object ms _ h =>
    have hmem : Value.array nodes ∈ valuesUnder ["@graph"] ms := h ▸ List.mem_cons_self
    obtain ⟨key, -, hm⟩ := mem_valuesUnder_iff.1 hmem
    have hheight : (Source.ofValue (.array nodes)).height ≤
        Source.heightOfMembers (Source.ofMembers ms) := by
      refine Source.heightOfMembers_le_iff.1 (Nat.le_refl _) (.name key, _) ?_
      rw [Source.ofMembers_eq_map]
      exact List.mem_map_of_mem hm
    obtain ⟨n, hn, hlist⟩ := Reader.exists_sequence_eq "a sequence" Node.read hheight
    refine ⟨n, hn, ?_⟩
    change Node.readGraph
      ⟨.memory, Source.heightOfMembers (Source.ofMembers ms) + 1⟩ (.ofValue (.object ms)) = _
    rw [readGraph_object, h]
    dsimp only
    rw [Reader.list, hlist]
    exact bind_pure _
  | array =>
    have hheight : (Source.ofValue (.array nodes)).height ≤
        Source.heightOfItems (Source.ofItems [.array nodes]) := Nat.le_max_left _ _
    obtain ⟨n, hn, hlist⟩ := Reader.exists_sequence_eq "a sequence" Node.read hheight
    refine ⟨n, hn, ?_⟩
    change Node.readGraph
      ⟨.memory, Source.heightOfItems (Source.ofItems [.array nodes]) + 1⟩
      (.ofValue (.array [.array nodes])) = _
    rw [readGraph_array, Reader.list, hlist]
    exact bind_pure _

/-- A document is read if all its nodes are. -/
theorem readGraph_eq_ok {ns : List Node} (h : Graph v step nodes)
    (hnodes : List.Forall₂ (fun w n => readValue Node.read w = .ok n) nodes ns) :
    readValue Node.readGraph v = .ok ns := by
  obtain ⟨n, hn, heq⟩ := exists_readGraph_eq h
  have hitems : Reader.items (Node.read ⟨.memory, n⟩) 0 (nodes.map Source.ofValue) = .ok ns := by
    rw [Reader.items_eq_ok_iff, List.forall₂_map_left_iff]
    refine ((List.forall₂_and_left _ _).2 ⟨hn, hnodes⟩).imp fun w a hwa => ?_
    rw [Node.steady_read.eq_readValue hwa.1]
    exact hwa.2
  rw [heq, hitems]
  rfl

/-- What is said of a document is what is said of the first node that cannot be read. -/
theorem readGraph_eq_error {before after : List Value} {bad : Value} {e : ReadError}
    (h : Graph v step (before ++ bad :: after)) (hbefore : ∀ w ∈ before, Readable w)
    (hbad : readValue Node.read bad = .error e) :
    readValue Node.readGraph v =
      .error ⟨step :: .index before.length :: e.path, e.complaint⟩ := by
  obtain ⟨n, hn, heq⟩ := exists_readGraph_eq h
  have hread : ∀ s ∈ before.map Source.ofValue, ∃ a, Node.read ⟨.memory, n⟩ s = .ok a := by
    refine List.forall_mem_map.2 fun w hw => ?_
    rw [Node.steady_read.eq_readValue (hn w (List.mem_append_left _ hw))]
    exact hbefore w hw
  have hfirst : Node.read ⟨.memory, n⟩ (.ofValue bad) = .error e := by
    rw [Node.steady_read.eq_readValue (hn bad (List.mem_append_right _ List.mem_cons_self)), hbad]
  have hitems := Reader.items_eq_error 0 (after.map Source.ofValue) hread hfirst
  rw [heq, List.map_append, List.map_cons, hitems, Nat.zero_add, List.length_map]
  rfl

/-- The facts of nodes are the facts of each, if each has some. -/
theorem ofNodes_eq_ok_flatten {nodes : List Node} {parts : List (List Fact)}
    (h : List.Forall₂ (fun n facts => n.facts ns = .ok facts) nodes parts) :
    ofNodes ns nodes = .ok parts.flatten := by
  induction h with
  | nil => rfl
  | cons hhead _ ih =>
    rw [ofNodes, hhead, ih]
    rfl

/-- What is said of nodes is what is said of the first that offends. -/
theorem ofNodes_eq_error {before after : List Node} {bad : Node} {e : CompileError}
    (hbefore : ∀ n ∈ before, ∃ facts, n.facts ns = .ok facts) (hbad : bad.Offends ns e) :
    ofNodes ns (before ++ bad :: after) = .error e := by
  induction before with
  | nil =>
    rw [List.nil_append, ofNodes, Node.facts_eq_error_iff.2 hbad]
    rfl
  | cons n before ih =>
    obtain ⟨⟨facts, hfacts⟩, hrest⟩ := List.forall_mem_cons.1 hbefore
    rw [List.cons_append, ofNodes, hfacts, ih hrest]
    rfl

/-- An accepted document has the facts of its nodes. -/
theorem ofValue_of_accepted {facts : List Fact} (h : Accepted ns v facts) :
    Fact.ofValue ns v = .ok facts := by
  obtain ⟨step, vs, parts, hgraph, hstands, rfl⟩ := h
  obtain ⟨nodes, hread, hfacts⟩ : ∃ nodes,
      List.Forall₂ (fun w n => readValue Node.read w = .ok n) vs nodes ∧
        List.Forall₂ (fun n facts => n.facts ns = .ok facts) nodes parts := by
    clear hgraph
    induction hstands with
    | nil => exact ⟨[], .nil, .nil⟩
    | cons hhead _ ih =>
      obtain ⟨n, hn, hfacts⟩ := hhead
      obtain ⟨nodes, hread, hrest⟩ := ih
      exact ⟨n :: nodes, .cons hn hread, .cons hfacts hrest⟩
  rw [Fact.ofValue, readGraph_eq_ok hgraph hread]
  exact ofNodes_eq_ok_flatten hfacts

/-- A refused document has no facts, and it is refused for the reason given. -/
theorem ofValue_of_refused {e : CompileError} (h : Refused ns v e) :
    Fact.ofValue ns v = .error e := by
  cases h with
  | noGraph _ he =>
    rw [Fact.ofValue, he]
    rfl
  | malformed hgraph hbefore hbad =>
    rw [Fact.ofValue, readGraph_eq_error hgraph hbefore hbad]
    rfl
  | @offending _ before after bad n _ hgraph hbefore hbad hoffends hafter =>
    obtain ⟨befores, hbefores⟩ : ∃ befores, List.Forall₂
        (fun w m => (∃ facts, Node.facts ns m = .ok facts) ∧ readValue Node.read w = .ok m)
        before befores :=
      exists_forall₂_of_forall fun w hw => by
        obtain ⟨facts, m, hm, hfacts⟩ := hbefore w hw
        exact ⟨m, ⟨facts, hfacts⟩, hm⟩
    obtain ⟨afters, hafters⟩ := exists_forall₂_of_forall hafter
    obtain ⟨hstand, hreadable⟩ := (List.forall₂_and_left _ _).1 hbefores.flip
    have hread : List.Forall₂ (fun w m => readValue Node.read w = .ok m)
        (before ++ bad :: after) (befores ++ n :: afters) :=
      List.rel_append hreadable.flip (.cons hbad hafters)
    rw [Fact.ofValue, readGraph_eq_ok hgraph hread]
    exact ofNodes_eq_error hstand hoffends

/-- Every document is accepted or refused. -/
theorem accepted_or_refused (ns : Namespace) (v : Value) :
    (∃ facts, Accepted ns v facts) ∨ ∃ e, Refused ns v e := by
  by_cases hgraph : ∃ step nodes, Graph v step nodes
  · obtain ⟨step, nodes, hgraph⟩ := hgraph
    rcases forall_or_exists_first_not Readable nodes with
      hread | ⟨before, bad, after, rfl, hbefore, hbad⟩
    · rcases forall_or_exists_first_not (fun w => ∃ facts, Stands ns w facts) nodes with
        hstands | ⟨before, bad, after, rfl, hbefore, hbad⟩
      · obtain ⟨parts, hparts⟩ := exists_forall₂_of_forall hstands
        exact .inl ⟨_, step, nodes, parts, hgraph, hparts, rfl⟩
      · -- The first node without facts can be read, so it offends.
        obtain ⟨n, hn⟩ := hread bad (List.mem_append_right _ List.mem_cons_self)
        have hafter : ∀ w ∈ after, Readable w := fun w hw =>
          hread w (List.mem_append_right _ (List.mem_cons_of_mem _ hw))
        cases hfacts : n.facts ns with
        | ok facts => exact absurd ⟨facts, n, hn, hfacts⟩ hbad
        | error e =>
          exact .inr ⟨e, .offending hgraph hbefore hn (Node.facts_eq_error_iff.1 hfacts) hafter⟩
    · cases hread : readValue Node.read bad with
      | ok n => exact absurd ⟨n, hread⟩ hbad
      | error e => exact .inr ⟨_, .malformed hgraph hbefore hread⟩
  · push Not at hgraph
    obtain ⟨e, he⟩ := exists_readGraph_eq_error hgraph
    exact .inr ⟨_, .noGraph hgraph he⟩

/-- A document has facts exactly if it is accepted with them. -/
theorem ofValue_eq_ok_iff {facts : List Fact} :
    Fact.ofValue ns v = .ok facts ↔ Accepted ns v facts := by
  refine ⟨fun h => ?_, ofValue_of_accepted⟩
  rcases accepted_or_refused ns v with ⟨facts', haccepted⟩ | ⟨e, hrefused⟩
  · cases h.symm.trans (ofValue_of_accepted haccepted)
    exact haccepted
  · cases h.symm.trans (ofValue_of_refused hrefused)

/-- A document has no facts, for a reason, exactly if it is refused for it. -/
theorem ofValue_eq_error_iff {e : CompileError} :
    Fact.ofValue ns v = .error e ↔ Refused ns v e := by
  refine ⟨fun h => ?_, ofValue_of_refused⟩
  rcases accepted_or_refused ns v with ⟨facts, haccepted⟩ | ⟨e', hrefused⟩
  · cases h.symm.trans (ofValue_of_accepted haccepted)
  · cases h.symm.trans (ofValue_of_refused hrefused)
    exact hrefused

/-- The nodes of two accepted documents make an accepted document with the facts of both. -/
theorem Accepted.append {w u : Value} {step' step'' : Segment} {nodes' : List Value}
    {facts more : List Fact} (h : Accepted ns v facts) (h' : Accepted ns w more)
    (hv : Graph v step nodes) (hw : Graph w step' nodes') (hu : Graph u step'' (nodes ++ nodes')) :
    Accepted ns u (facts ++ more) := by
  obtain ⟨_, _, parts, hgraph, hstands, rfl⟩ := h
  obtain ⟨_, _, parts', hgraph', hstands', rfl⟩ := h'
  cases hgraph.nodes_eq hv
  cases hgraph'.nodes_eq hw
  exact ⟨step'', _, parts ++ parts', hu, List.rel_append hstands hstands',
    List.flatten_append.symm⟩

/-- After each other, documents add facts if they are accepted, and something is said of those that
are refused. -/
inductive Gathers (ns : Namespace) : List Value → List Fact → List (Option CompileError) → Prop
  | nil : Gathers ns [] [] []
  | accepted {v : Value} {docs : List Value} {facts more : List Fact}
      {verdicts : List (Option CompileError)} (h : Accepted ns v facts)
      (hrest : Gathers ns docs more verdicts) :
      Gathers ns (v :: docs) (facts ++ more) (none :: verdicts)
  | refused {v : Value} {docs : List Value} {e : CompileError} {more : List Fact}
      {verdicts : List (Option CompileError)} (h : Refused ns v e)
      (hrest : Gathers ns docs more verdicts) :
      Gathers ns (v :: docs) more (some e :: verdicts)

end Fact

/-! ## Compilers -/

namespace Compiler

/-- A compiler after it was offered a document, and what it says if it refuses it. -/
def offer (c : Compiler) (v : Value) : Compiler × Option CompileError :=
  match c.observeValue v with
  | .ok c' => (c', none)
  | .error e => (c, some e)

/-- A compiler after it was offered some documents, and what it says of each. -/
def offerAll (c : Compiler) : List Value → Compiler × List (Option CompileError)
  | [] => (c, [])
  | v :: docs =>
    let (c', verdict) := c.offer v
    let (c'', verdicts) := c'.offerAll docs
    (c'', verdict :: verdicts)

variable {c : Compiler} {v : Value}

/-- Facts that are added one after another are added together. -/
theorem observe_observe (facts more : List Fact) :
    (c.observe facts).observe more = c.observe (facts ++ more) := by
  rw [observe, observe, observe, List.append_assoc]

/-- What was added can be told from the compiler afterwards. -/
theorem observe_injective : Function.Injective c.observe := fun _ _ h =>
  List.append_cancel_left (congrArg Compiler.facts h)

/-- A compiler adds the facts of a document that is accepted. -/
theorem offer_of_accepted {facts : List Fact} (h : Fact.Accepted c.vocabulary v facts) :
    c.offer v = (c.observe facts, none) := by
  rw [offer, observeValue, Fact.ofValue_of_accepted h]
  rfl

/-- A compiler adds nothing of a document that is refused. -/
theorem offer_of_refused {e : CompileError} (h : Fact.Refused c.vocabulary v e) :
    c.offer v = (c, some e) := by
  rw [offer, observeValue, Fact.ofValue_of_refused h]
  rfl

/-- One node without facts is enough for the whole document to be refused. -/
theorem exists_offer_eq_of_not_stands {step : Segment} {nodes : List Value} {w : Value}
    (hgraph : Fact.Graph v step nodes) (hw : w ∈ nodes)
    (hnot : ¬ ∃ facts, Fact.Stands c.vocabulary w facts) :
    ∃ e, Fact.Refused c.vocabulary v e ∧ c.offer v = (c, some e) := by
  rcases Fact.accepted_or_refused c.vocabulary v with ⟨facts, haccepted⟩ | ⟨e, hrefused⟩
  · obtain ⟨_, _, parts, hgraph', hstands, -⟩ := haccepted
    cases hgraph'.nodes_eq hgraph
    have hparts := hstands.imp fun _ part h => And.intro (Exists.intro part h) trivial
    exact absurd (((List.forall₂_and_left _ _).1 hparts).1 w hw) hnot
  · exact ⟨e, hrefused, offer_of_refused hrefused⟩

/-- A compiler adds what documents gather and says what is to be said of them. -/
theorem offerAll_of_gathers {docs : List Value} {facts : List Fact}
    {verdicts : List (Option CompileError)}
    (h : Fact.Gathers c.vocabulary docs facts verdicts) :
    c.offerAll docs = (c.observe facts, verdicts) := by
  induction docs generalizing c facts verdicts with
  | nil =>
    cases h
    rw [offerAll, observe, List.append_nil]
  | cons v docs ih =>
    cases h with
    | @accepted _ _ facts more _ h hrest =>
      have hdocs : (c.observe facts).offerAll docs = ((c.observe facts).observe more, _) := ih hrest
      rw [offerAll, offer_of_accepted h]
      dsimp only
      rw [hdocs, observe_observe]
    | refused h hrest =>
      rw [offerAll, offer_of_refused h]
      dsimp only
      rw [ih hrest]

/-- Documents always gather something. -/
theorem exists_gathers (ns : Namespace) (docs : List Value) :
    ∃ facts verdicts, Fact.Gathers ns docs facts verdicts := by
  induction docs with
  | nil => exact ⟨_, _, .nil⟩
  | cons v docs ih =>
    obtain ⟨more, verdicts, hrest⟩ := ih
    rcases Fact.accepted_or_refused ns v with ⟨facts, h⟩ | ⟨e, h⟩
    · exact ⟨_, _, .accepted h hrest⟩
    · exact ⟨_, _, .refused h hrest⟩

/-- A compiler that is offered documents has the facts that it had and then those of the accepted
documents in order, and says of each document whether it is accepted and else why not. One node that
stands for no fact has the whole document refused. Two accepted documents add the same facts as one
with the nodes of both. -/
theorem offerAll_exact (c : Compiler) :
    (∀ docs, ∃ facts verdicts, c.offerAll docs = (c.observe facts, verdicts)) ∧
    (∀ docs facts verdicts, c.offerAll docs = (c.observe facts, verdicts) ↔
      Fact.Gathers c.vocabulary docs facts verdicts) ∧
    (∀ v step nodes w, Fact.Graph v step nodes → w ∈ nodes →
      (¬ ∃ facts, Fact.Stands c.vocabulary w facts) →
        ∃ e, Fact.Refused c.vocabulary v e ∧ c.offer v = (c, some e)) ∧
    (∀ v w u step step' step'' nodes nodes' facts more,
      Fact.Graph v step nodes → Fact.Graph w step' nodes' → Fact.Graph u step'' (nodes ++ nodes') →
        Fact.Accepted c.vocabulary v facts → Fact.Accepted c.vocabulary w more →
          c.offerAll [v, w] = (c.observe (facts ++ more), [none, none]) ∧
            c.offerAll [u] = (c.observe (facts ++ more), [none])) := by
  refine ⟨fun docs => ?_, fun docs facts verdicts => ⟨fun h => ?_, offerAll_of_gathers⟩,
    fun v step nodes w => exists_offer_eq_of_not_stands,
    fun v w u step step' step'' nodes nodes' facts more hv hw hu haccepted haccepted' => ?_⟩
  · obtain ⟨facts, verdicts, hgathers⟩ := exists_gathers c.vocabulary docs
    exact ⟨facts, verdicts, offerAll_of_gathers hgathers⟩
  · obtain ⟨facts', verdicts', hgathers⟩ := exists_gathers c.vocabulary docs
    obtain ⟨hfacts, hverdicts⟩ := Prod.mk.inj (h.symm.trans (offerAll_of_gathers hgathers))
    rw [observe_injective hfacts, hverdicts]
    exact hgathers
  · have hone := haccepted.append haccepted' hv hw hu
    have htwo := offerAll_of_gathers (.accepted haccepted (.accepted haccepted' .nil))
    rw [List.append_nil] at htwo
    have hu' := offerAll_of_gathers (.accepted hone .nil)
    rw [List.append_nil] at hu'
    exact ⟨htwo, hu'⟩

/-- The node of a class. -/
def placeNode : Value := .object [("@id", .string "schema:Place"), ("@type", .string "rdfs:Class")]

/-- The node of a property. -/
def geoNode : Value := .object [("@id", .string "schema:geo"), ("@type", .string "rdf:Property")]

/-- The node of a class of another vocabulary. -/
def strayNode : Value := .object [("@id", .string "other:Place"), ("@type", .string "rdfs:Class")]

/-- Two documents of different forms add the same facts as one with the nodes of both, and a node of
another vocabulary between two good ones keeps a document out. -/
theorem offerAll_three_nodes :
    let c : Compiler := ⟨.standard, {}, [.classFact "Thing" [] "" false]⟩
    let place : Value := .object [("@graph", .array [placeNode])]
    let geo : Value := .array [.array [geoNode]]
    let both : Value := .object [("@graph", .array ([placeNode] ++ [geoNode]))]
    let stray : Value := .object [("@graph", .array [placeNode, strayNode, geoNode])]
    let placeFacts := [Fact.classFact "Place" [] "" false]
    let geoFacts := [Fact.propertyFact "geo" [] [] "" false]
    (Fact.Graph place (.key "@graph") [placeNode] ∧ Fact.Graph geo (.index 0) [geoNode] ∧
      Fact.Graph both (.key "@graph") ([placeNode] ++ [geoNode]) ∧
      Fact.Accepted c.vocabulary place placeFacts ∧ Fact.Accepted c.vocabulary geo geoFacts ∧
      c.offerAll [place, geo] = (c.observe (placeFacts ++ geoFacts), [none, none]) ∧
      c.offerAll [both] = (c.observe (placeFacts ++ geoFacts), [none])) ∧
    Fact.Graph stray (.key "@graph") [placeNode, strayNode, geoNode] ∧
      strayNode ∈ [placeNode, strayNode, geoNode] ∧
      (¬ ∃ facts, Fact.Stands c.vocabulary strayNode facts) ∧
      ∃ e, Fact.Refused c.vocabulary stray e ∧ c.offer stray = (c, some e) := by
  intro c place geo both stray placeFacts geoFacts
  obtain ⟨-, -, hstray, hboth⟩ := offerAll_exact c
  have hplace : Fact.Stands c.vocabulary placeNode placeFacts :=
    ⟨⟨"schema:Place", ["rdfs:Class"], none, none, none, none, false⟩, rfl, rfl⟩
  have hgeo : Fact.Stands c.vocabulary geoNode geoFacts :=
    ⟨⟨"schema:geo", ["rdf:Property"], none, none, none, none, false⟩, rfl, rfl⟩
  have hnot : ¬ ∃ facts, Fact.Stands c.vocabulary strayNode facts := by
    rintro ⟨facts, n, hn, hfacts⟩
    cases hn
    cases hfacts
  have hplaceGraph : Fact.Graph place (.key "@graph") [placeNode] := .object (by simp)
  have hbothGraph : Fact.Graph both (.key "@graph") ([placeNode] ++ [geoNode]) := .object (by simp)
  have hstrayGraph : Fact.Graph stray (.key "@graph") [placeNode, strayNode, geoNode] :=
    .object (by simp)
  have hplaceAccepted : Fact.Accepted c.vocabulary place placeFacts :=
    ⟨_, _, [placeFacts], hplaceGraph, .cons hplace .nil, rfl⟩
  have hgeoAccepted : Fact.Accepted c.vocabulary geo geoFacts :=
    ⟨_, _, [geoFacts], .array _, .cons hgeo .nil, rfl⟩
  have hmem : strayNode ∈ [placeNode, strayNode, geoNode] := by simp
  obtain ⟨htwo, hone⟩ := hboth _ _ _ _ _ _ _ _ _ _ hplaceGraph (.array _) hbothGraph
    hplaceAccepted hgeoAccepted
  exact ⟨⟨hplaceGraph, .array _, hbothGraph, hplaceAccepted, hgeoAccepted, htwo, hone⟩,
    hstrayGraph, hmem, hnot, hstray _ _ _ _ hstrayGraph hmem hnot⟩

end Compiler

end VocabularyCompiler
