import VocabularyCompiler.Fact.Document
import VocabularyCompiler.Proofs.Json.Reading
import VocabularyCompiler.Proofs.Text.Words

/-!
# The spellings of facts

One fact can be written as a node in many ways: with any prefix before a name, with one reference
or an array of them, with a comment in one of three forms, under either of two keys. `Writes` says
which nodes write which fact, from the members of a node alone. Main statement: a document whose
nodes write some facts, each in its own way, is read as these facts (`Fact.ofValue_eq_ok`).
-/

namespace VocabularyCompiler

open Json

/-! ## Identifiers -/

namespace Namespace

variable {ns : Namespace} {iri name : String}

/-- An identifier names something of the vocabulary: it is a prefix and the local name. -/
def Names (ns : Namespace) (iri name : String) : Prop := ∃ p ∈ ns.prefixes, iri = p ++ name

/-- An identifier leads out of the vocabulary: it begins with none of the prefixes. -/
def IsForeign (ns : Namespace) (iri : String) : Prop :=
  ∀ p ∈ ns.prefixes, ¬ p.toList <+: iri.toList

/-- No prefix begins with another one. -/
def PrefixFree (ns : Namespace) : Prop :=
  ∀ p ∈ ns.prefixes, ∀ q ∈ ns.prefixes, p.toList <+: q.toList → p = q

/-- The names of the identifiers in the vocabulary, those that lead out left aside. -/
inductive Mentions (ns : Namespace) : List String → List String → Prop
  | nil : Mentions ns [] []
  | named {iri name : String} {iris names : List String} (h : ns.Names iri name)
      (hrest : Mentions ns iris names) : Mentions ns (iri :: iris) (name :: names)
  | foreign {iri : String} {iris names : List String} (h : ns.IsForeign iri)
      (hrest : Mentions ns iris names) : Mentions ns (iri :: iris) names

/-- An identifier of the vocabulary has the local name that it names. -/
theorem strip?_of_names (hns : ns.PrefixFree) (h : ns.Names iri name) :
    ns.strip? iri = some name := by
  obtain ⟨p, hp, rfl⟩ := h
  -- Whichever prefix comes first, it is the one that the identifier was made with.
  have hall : ∀ q ∈ ns.prefixes, (Text.dropStart? q.toList (p ++ name).toList).map String.ofList =
      if q = p then some name else none := by
    intro q hq
    rw [String.toList_append]
    by_cases hqp : q = p
    · rw [hqp, Text.dropStart?_eq_some_iff.2 rfl, if_pos rfl, Option.map_some, String.ofList_toList]
    · have hnot : ¬ q.toList <+: p.toList ++ name.toList := fun hq' =>
        (List.prefix_or_prefix_of_prefix hq' (List.prefix_append _ _)).elim
          (fun h => hqp (hns q hq p hp h)) fun h => hqp (hns p hp q hq h).symm
      rw [Text.dropStart?_eq_none hnot, if_neg hqp, Option.map_none]
  rw [strip?]
  cases hfound : ns.prefixes.findSome? fun q =>
      (Text.dropStart? q.toList (p ++ name).toList).map String.ofList with
  | none =>
    have hnone := List.findSome?_eq_none_iff.1 hfound p hp
    rw [hall p hp, if_pos rfl] at hnone
    cases hnone
  | some found =>
    obtain ⟨q, hq, hsome⟩ := List.exists_of_findSome?_eq_some hfound
    rw [hall q hq] at hsome
    split at hsome
    · exact hsome.symm
    · cases hsome

/-- An identifier of the vocabulary is accepted where one is needed. -/
theorem localName_of_names (hns : ns.PrefixFree) (h : ns.Names iri name) :
    ns.localName iri = .ok name := by
  rw [localName, strip?_of_names hns h]

/-- An identifier that leads out of the vocabulary has no local name. -/
theorem strip?_of_isForeign (h : ns.IsForeign iri) : ns.strip? iri = none := by
  refine List.findSome?_eq_none_iff.2 fun p hp => ?_
  rw [Text.dropStart?_eq_none (h p hp), Option.map_none]

/-- The local names of identifiers are the names that they mention. -/
theorem Mentions.filterMap_strip? {iris names : List String} (hns : ns.PrefixFree)
    (h : ns.Mentions iris names) : iris.filterMap ns.strip? = names := by
  induction h with
  | nil => rfl
  | named h _ ih => rw [List.filterMap_cons_some (strip?_of_names hns h), ih]
  | foreign h _ ih => rw [List.filterMap_cons_none (strip?_of_isForeign h), ih]

/-- No prefix of schema.org begins with another one. -/
theorem prefixFree_standard : standard.PrefixFree := by
  simp [PrefixFree, standard]

end Namespace

/-! ## Texts and references -/

namespace Node

/-- A value holds a text: it is the text, or an object with the text under a key. -/
inductive Holds (key text : String) : Value → Prop
  | bare : Holds key text (.string text)
  | member {ms : List (String × Value)} (h : valuesUnder [key] ms = [.string text]) :
      Holds key text (.object ms)

/-- A value stands for items: it is the only one, or an array of all of them. -/
inductive OneOrMany (Item : String → Value → Prop) : List String → Value → Prop
  | one {s : String} {v : Value} (h : Item s v) : OneOrMany Item [s] v
  | many {ss : List String} {vs : List Value} (h : List.Forall₂ Item ss vs) :
      OneOrMany Item ss (.array vs)

/-- The values of a member refer to some names of the vocabulary, with references out of it mixed
in. The member can be left out if there are none. -/
inductive Refers (ns : Namespace) : List String → List Value → Prop
  | absent : Refers ns [] []
  | null : Refers ns [] [.null]
  | given {iris names : List String} {v : Value} (h : ns.Mentions iris names)
      (hv : OneOrMany (Holds "@id") iris v) : Refers ns names [v]

/-- The values of a member are a comment: a text, or an array of texts whose first element it is.
The member can be left out if the comment is empty. -/
inductive Comments : String → List Value → Prop
  | absent : Comments "" []
  | null : Comments "" [.null]
  | one {text : String} {v : Value} (h : Holds "@value" text v) : Comments text [v]
  | many {text : String} {v : Value} {vs : List Value} (h : Holds "@value" text v)
      (hrest : ∀ w ∈ vs, ∃ other, Holds "@value" other w) : Comments text [.array (v :: vs)]

/-- The values of a member tell whether there is anything under it. -/
inductive Marks : Bool → List Value → Prop
  | absent : Marks false []
  | null : Marks false [.null]
  | given {v : Value} (h : v ≠ .null) : Marks true [v]

/-- The members of an object describe a node: each of these keys stands at most once, and there may
be any others. -/
structure Describes (ns : Namespace) (ms : List (String × Value)) (name : String)
    (types : List String) (comment : String) (superclasses domains ranges : List String)
    (superseded : Bool) : Prop where
  id : ∃ iri, valuesUnder ["@id"] ms = [.string iri] ∧ ns.Names iri name
  types : ∃ v, valuesUnder ["@type"] ms = [v] ∧ OneOrMany (fun s v => v = .string s) types v
  comment : Comments comment (valuesUnder ["rdfs:comment"] ms)
  superclasses : Refers ns superclasses (valuesUnder ["rdfs:subClassOf"] ms)
  domains : Refers ns domains
    (valuesUnder ["http://schema.org/domainIncludes", "schema:domainIncludes"] ms)
  ranges : Refers ns ranges
    (valuesUnder ["http://schema.org/rangeIncludes", "schema:rangeIncludes"] ms)
  superseded : Marks superseded
    (valuesUnder ["http://schema.org/supersededBy", "schema:supersededBy"] ms)

end Node

namespace Fact

/-- A node writes a fact. What the fact does not speak of may stand in the node all the same. -/
inductive Writes (ns : Namespace) : Value → Fact → Prop
  | classNode {ms : List (String × Value)} {name comment : String}
      {types parents domains ranges : List String} {superseded : Bool}
      (h : Node.Describes ns ms name types comment parents domains ranges superseded)
      (hclass : "rdfs:Class" ∈ types) :
      Writes ns (.object ms) (.classFact name parents comment superseded)
  | propertyNode {ms : List (String × Value)} {name comment : String}
      {types superclasses domains ranges : List String} {superseded : Bool}
      (h : Node.Describes ns ms name types comment superclasses domains ranges superseded)
      (hproperty : "rdf:Property" ∈ types) (hclass : "rdfs:Class" ∉ types) :
      Writes ns (.object ms) (.propertyFact name domains ranges comment superseded)
  | literalNode {ms : List (String × Value)} {name type enumType comment : String}
      {superclasses domains ranges : List String} {superseded : Bool}
      (h : Node.Describes ns ms name [type] comment superclasses domains ranges superseded)
      (htype : ns.Names type enumType) :
      Writes ns (.object ms) (.literalFact name enumType superseded)

end Fact

/-! ## Reading what was written -/

namespace Node

variable {ns : Namespace} {key text : String}

/-- The only member under a key is found. -/
theorem onlyString?_ofMembers {ms : List (String × Value)}
    (h : valuesUnder [key] ms = [.string text]) :
    onlyString? key (Source.ofMembers ms) = some text := by
  obtain ⟨m, hm, hvalue⟩ := List.map_eq_singleton_iff.1 h
  simp only [List.mem_singleton] at hm
  rw [onlyString?, Source.ofMembers_eq_map, List.filter_map]
  simp only [Function.comp_def]
  rw [hm, List.map_singleton, hvalue]
  rfl

/-- A value that holds an identifier refers to it. -/
theorem reference?_of_holds {v : Value} (h : Holds "@id" text v) :
    reference? (.ofValue v) = some text := by
  cases h with
  | bare => rfl
  | member h => exact onlyString?_ofMembers h

/-- A value that holds a text is a literal with it. -/
theorem literal?_of_holds {v : Value} (h : Holds "@value" text v) :
    literal? (.ofValue v) = some text := by
  cases h with
  | bare => rfl
  | member h => exact onlyString?_ofMembers h

/-- Items are read as they stand, alone or in an array. -/
theorem oneOrMany?_of_items {Item : String → Value → Prop} {item? : Source → Option String}
    (hitem : ∀ s v, Item s v → item? (.ofValue v) = some s ∧ ∀ vs, v ≠ .array vs)
    {ss : List String} {v : Value} (h : OneOrMany Item ss v) :
    oneOrMany? item? (.ofValue v) = some ss := by
  cases h with
  | @one s _ h =>
    obtain ⟨hread, harray⟩ := hitem s v h
    cases v with
    | array vs => exact absurd rfl (harray vs)
    | null | bool _ | number _ | string _ | object _ =>
      exact congrArg (Option.map fun s => [s]) hread
  | many h =>
    change (Source.ofItems _).mapM item? = _
    rw [Source.ofItems_eq_map, List.mapM_map]
    induction h with
    | nil => rfl
    | cons hhead _ ih => rw [List.mapM_cons, Function.comp_apply, (hitem _ _ hhead).1, ih]; rfl

/-- The texts of literals are found one by one. -/
theorem exists_literals? {vs : List Value} (h : ∀ w ∈ vs, ∃ other, Holds "@value" other w) :
    ∃ texts, literals? (Source.ofItems vs) = some texts := by
  induction vs with
  | nil => exact ⟨[], rfl⟩
  | cons w rest ih =>
    obtain ⟨⟨text, hw⟩, hrest⟩ := List.forall_mem_cons.1 h
    obtain ⟨texts, htexts⟩ := ih hrest
    exact ⟨text :: texts, by rw [Source.ofItems, literals?, literal?_of_holds hw, htexts]⟩

/-- The types of a node are read. -/
theorem reads_types {types : List String} {v : Value}
    (h : OneOrMany (fun s v => v = .string s) types v) :
    (Reader.oneOf "OneOrMany" (oneOrMany? string?)).Reads v types := by
  refine Reader.reads_oneOf (oneOrMany?_of_items (fun s v hv => ?_) h)
  subst hv
  exact ⟨rfl, fun _ => Value.noConfusion⟩

/-- References are read, and the names that they lead to are those that were written. -/
theorem exists_given_references {names : List String} {vs : List Value} (hns : ns.PrefixFree)
    (h : Refers ns names vs) :
    ∃ references, FieldReader.Given readReferences none references vs ∧
      localNames ns references = names := by
  cases h with
  | absent => exact ⟨none, .inl ⟨rfl, rfl⟩, rfl⟩
  | null => exact ⟨none, .inr ⟨.null, rfl, Reader.reads_option_null _⟩, rfl⟩
  | @given iris _ v h hv =>
    have hitem : ∀ s w, Holds "@id" s w →
        reference? (.ofValue w) = some s ∧ ∀ vs, w ≠ .array vs := by
      intro s w hw
      refine ⟨reference?_of_holds hw, ?_⟩
      cases hw <;> exact fun _ => Value.noConfusion
    have hread : (Reader.oneOf "OneOrMany" (oneOrMany? reference?)).Reads v iris :=
      Reader.reads_oneOf (oneOrMany?_of_items hitem hv)
    have hnull : v ≠ .null := by
      rintro rfl
      cases hv with
      | one hw => cases hw
    exact ⟨some iris, .inr ⟨v, rfl, hread.option hnull⟩, h.filterMap_strip? hns⟩

/-- A comment is read, and its text is the one that was written. -/
theorem exists_given_comment {vs : List Value} (h : Comments text vs) :
    ∃ comment, FieldReader.Given (.option (.oneOf "Literal" literal?)) none comment vs ∧
      comment.getD "" = text := by
  cases h with
  | absent => exact ⟨none, .inl ⟨rfl, rfl⟩, rfl⟩
  | null => exact ⟨none, .inr ⟨.null, rfl, Reader.reads_option_null _⟩, rfl⟩
  | @one _ v h =>
    have hread : (Reader.oneOf "Literal" literal?).Reads v text :=
      Reader.reads_oneOf (literal?_of_holds h)
    have hnull : v ≠ .null := by cases h <;> exact Value.noConfusion
    exact ⟨some text, .inr ⟨v, rfl, hread.option hnull⟩, rfl⟩
  | @many _ v vs h hrest =>
    obtain ⟨texts, htexts⟩ := exists_literals? hrest
    have hfit : literal? (.ofValue (.array (v :: vs))) = some text := by
      rw [Source.ofValue, literal?, Source.ofItems, literals?, literal?_of_holds h, htexts]
      rfl
    have hread : (Reader.oneOf "Literal" literal?).Reads (.array (v :: vs)) text :=
      Reader.reads_oneOf hfit
    exact ⟨some text, .inr ⟨_, rfl, hread.option Value.noConfusion⟩, rfl⟩

/-- The node with what stands under some names. -/
def upTo (n : Node) (seen : List String) : Node where
  id := if "@id" ∈ seen then n.id else ""
  types := if "@type" ∈ seen then n.types else []
  comment := if "rdfs:comment" ∈ seen then n.comment else none
  superclasses := if "rdfs:subClassOf" ∈ seen then n.superclasses else none
  domains := if "http://schema.org/domainIncludes" ∈ seen then n.domains else none
  ranges := if "http://schema.org/rangeIncludes" ∈ seen then n.ranges else none
  superseded := if "http://schema.org/supersededBy" ∈ seen then n.superseded else false

/-- Whether a node is superseded is read, or nothing tells of it and the node is not. -/
theorem reads_superseded (n : Node) {vs : List Value} (h : Marks n.superseded vs) :
    (vs = [] ∧ n.superseded = false) ∨ ∃ v, vs = [v] ∧ ∀ seen,
      Reader.Reads (fun scope source => (Reader.option .value scope source).map
        fun v => { n.upTo seen with superseded := v.isSome })
        v (n.upTo ("http://schema.org/supersededBy" :: seen)) := by
  have hupTo (seen : List String) : n.upTo ("http://schema.org/supersededBy" :: seen) =
      { n.upTo seen with superseded := n.superseded } := by simp [upTo]
  simp only [hupTo]
  generalize n.superseded = superseded at h
  cases h with
  | absent => exact .inl ⟨rfl, rfl⟩
  | null => exact .inr ⟨.null, rfl, fun _ _ _ => rfl⟩
  | @given v hv =>
    refine .inr ⟨v, rfl, fun seen budget hbudget => ?_⟩
    -- Whatever the value is, there is one.
    obtain ⟨w, hw⟩ := Reader.exists_any_ofValue v hbudget
    have hread : Reader.value ⟨.memory, budget⟩ (.ofValue v) = .ok w := hw
    cases v with
    | null => exact absurd rfl hv
    | bool _ | number _ | string _ | array _ | object _ =>
      unfold Reader.option
      dsimp only [Source.ofValue] at hread ⊢
      rw [hread]
      rfl

/-- A node is read as it is described. -/
theorem exists_reads_of_describes {ms : List (String × Value)} {name comment : String}
    {types superclasses domains ranges : List String} {superseded : Bool} (hns : ns.PrefixFree)
    (h : Describes ns ms name types comment superclasses domains ranges superseded) :
    ∃ n : Node, Node.read.Reads (.object ms) n ∧ ns.Names n.id name ∧ n.types = types ∧
      n.comment.getD "" = comment ∧ localNames ns n.superclasses = superclasses ∧
      localNames ns n.domains = domains ∧ localNames ns n.ranges = ranges ∧
      n.superseded = superseded := by
  obtain ⟨iri, hid, hname⟩ := h.id
  obtain ⟨v, htype, hv⟩ := h.types
  obtain ⟨comment?, hcomment, htext⟩ := exists_given_comment h.comment
  obtain ⟨superclasses?, hsuperclasses, hsupernames⟩ := exists_given_references hns h.superclasses
  obtain ⟨domains?, hdomains, hdomainnames⟩ := exists_given_references hns h.domains
  obtain ⟨ranges?, hranges, hrangenames⟩ := exists_given_references hns h.ranges
  -- The node of what was found under each key, with what it starts from where nothing was.
  let n : Node := ⟨iri, types, comment?, superclasses?, domains?, ranges?, superseded⟩
  have hsuperseded := reads_superseded n h.superseded
  refine ⟨n, ?_, hname, rfl, htext, hsupernames, hdomainnames, hrangenames, rfl⟩
  refine Reader.reads_record n.upTo rfl (by simp) ?_ fun seen hseen => ?_
  · simp only [List.forall_mem_cons]
    refine ⟨.of_value (fun _ => rfl) (by simpa using hid) (Reader.reads_string iri) fun seen => ?_,
      .of_value (fun _ => rfl) (by simpa using htype) (reads_types hv) fun seen => ?_,
      .of_given (fun _ => rfl) rfl hcomment fun seen => ?_,
      .of_given (fun _ => rfl) rfl hsuperclasses fun seen => ?_,
      .of_given (fun _ => rfl) rfl hdomains fun seen => ?_,
      .of_given (fun _ => rfl) rfl hranges fun seen => ?_, ?_, List.forall_mem_nil _⟩
    case refine_7 =>
      rcases hsuperseded with ⟨hnone, -⟩ | hgiven
      · exact .inl ⟨rfl, hnone⟩
      · exact .inr hgiven
    all_goals simp [upTo, n]
  · simp only [List.forall_mem_cons, FieldReader.name_mandatory, FieldReader.name_optional,
      FieldReader.name_orUnder, FieldReader.keys_mandatory, FieldReader.keys_optional,
      FieldReader.keys_orUnder, hid, htype, ne_eq, List.cons_ne_nil, not_false_eq_true,
      iff_true] at hseen
    obtain ⟨hidseen, htypeseen, hcommentseen, hsuperseen, hdomainseen, hrangeseen, hmarkseen, -⟩ :=
      hseen
    have hmark : (if "http://schema.org/supersededBy" ∈ seen then superseded else false) =
        superseded := by
      rcases hsuperseded with ⟨-, hfalse⟩ | ⟨v, hv, -⟩
      · rw [show superseded = false from hfalse]
        exact ite_self false
      · exact if_pos (hmarkseen.2 (hv ▸ List.cons_ne_nil _ _))
    dsimp only [upTo, n]
    rw [if_pos hidseen, if_pos htypeseen, hcomment.ite_eq hcommentseen,
      hsuperclasses.ite_eq hsuperseen, hdomains.ite_eq hdomainseen, hranges.ite_eq hrangeseen,
      hmark]

end Node

/-! ## Documents -/

namespace Fact

variable {v : Value} {fact : Fact}

/-- The words for classes and properties lead out of schema.org. -/
theorem not_names_word {word name : String} (hword : word ∈ ["rdfs:Class", "rdf:Property"]) :
    ¬ Namespace.standard.Names word name := by
  intro h
  have hstrip := Namespace.strip?_of_names Namespace.prefixFree_standard h
  rw [Namespace.strip?_of_isForeign] at hstrip
  · cases hstrip
  · simp only [List.mem_cons, List.not_mem_nil, or_false] at hword
    rcases hword with rfl | rfl <;> simp [Namespace.IsForeign, Namespace.standard]

/-- A node that writes a fact is read, and the fact is the one that it stands for. -/
theorem Writes.exists_node (h : Writes Namespace.standard v fact) :
    ∃ n : Node, Node.read.Reads v n ∧ n.facts Namespace.standard = .ok [fact] := by
  have hns := Namespace.prefixFree_standard
  cases h with
  | classNode h hclass =>
    obtain ⟨n, hread, hid, htypes, hcomment, hparents, -, -, hsuperseded⟩ :=
      Node.exists_reads_of_describes hns h
    have hname := Namespace.localName_of_names hns hid
    refine ⟨n, hread, ?_⟩
    rw [Node.facts, htypes, if_pos hclass, hname, hcomment, hparents, hsuperseded]
    rfl
  | propertyNode h hproperty hclass =>
    obtain ⟨n, hread, hid, htypes, hcomment, -, hdomains, hranges, hsuperseded⟩ :=
      Node.exists_reads_of_describes hns h
    have hname := Namespace.localName_of_names hns hid
    refine ⟨n, hread, ?_⟩
    rw [Node.facts, htypes, if_neg hclass, if_pos hproperty, hname, hcomment, hdomains, hranges,
      hsuperseded]
    rfl
  | @literalNode _ _ type _ _ _ _ _ _ h htype =>
    obtain ⟨n, hread, hid, htypes, -, -, -, -, hsuperseded⟩ :=
      Node.exists_reads_of_describes hns h
    have hname := Namespace.localName_of_names hns hid
    -- The type is a name of the vocabulary, so it is neither of the two words.
    have hword : ∀ word ∈ ["rdfs:Class", "rdf:Property"], word ∉ [type] := by
      intro word hmem hword
      rw [List.mem_singleton] at hword
      exact not_names_word (hword ▸ hmem) htype
    refine ⟨n, hread, ?_⟩
    rw [Node.facts, htypes, if_neg (hword _ (by decide)), if_neg (hword _ (by decide)),
      List.mapM_cons, Namespace.strip?_of_names hns htype, hname, hsuperseded]
    rfl

/-- The facts of nodes that stand for one fact each are these facts. -/
theorem ofNodes_eq_ok {ns : Namespace} {nodes : List Node} {facts : List Fact}
    (h : List.Forall₂ (fun n fact => n.facts ns = .ok [fact]) nodes facts) :
    ofNodes ns nodes = .ok facts := by
  induction h with
  | nil => rfl
  | cons hhead _ ih =>
    rw [ofNodes, hhead, ih]
    rfl

/-- A document is read as its nodes are. -/
theorem reads_readGraph {ms : List (String × Value)} {vs : List Value} {nodes : List Node}
    (hgraph : valuesUnder ["@graph"] ms = [.array vs])
    (h : List.Forall₂ Node.read.Reads vs nodes) : Node.readGraph.Reads (.object ms) nodes := by
  refine Reader.reads_record (fun seen => if "@graph" ∈ seen then nodes else []) rfl (by simp) ?_
    fun seen hseen => ?_
  · refine List.forall_mem_singleton.2
      (.of_value (fun _ => rfl) (by simpa using hgraph) (Reader.reads_sequence h) fun seen => ?_)
    simp
  · exact if_pos (by simpa [hgraph] using hseen)

/-- A document whose nodes write facts is read as these facts, however each of them is written. -/
theorem ofValue_eq_ok {ms : List (String × Value)} {vs : List Value} {facts : List Fact}
    (hgraph : valuesUnder ["@graph"] ms = [.array vs])
    (h : List.Forall₂ (Writes Namespace.standard) vs facts) :
    Fact.ofValue Namespace.standard (.object ms) = .ok facts := by
  obtain ⟨nodes, hreads, hfacts⟩ : ∃ nodes : List Node, List.Forall₂ Node.read.Reads vs nodes ∧
      List.Forall₂ (fun n fact => n.facts Namespace.standard = .ok [fact]) nodes facts := by
    clear hgraph
    induction h with
    | nil => exact ⟨[], .nil, .nil⟩
    | cons hhead _ ih =>
      obtain ⟨n, hread, hfact⟩ := hhead.exists_node
      obtain ⟨nodes, hreads, hfacts⟩ := ih
      exact ⟨n :: nodes, .cons hread hreads, .cons hfact hfacts⟩
  -- Reading the document leaves the nodes, and naming them leaves the facts.
  rw [Fact.ofValue, (reads_readGraph hgraph hreads).readValue]
  exact ofNodes_eq_ok hfacts

/-- Each prefix of schema.org makes an identifier of a name. -/
theorem names_standard (name : String) :
    ∀ p ∈ Namespace.standard.prefixes, Namespace.standard.Names (p ++ name) name :=
  fun p hp => ⟨p, hp, rfl⟩

/-- A class with a further type, a comment in two languages and a parent out of the vocabulary. -/
def spelledClass : List (String × Value) :=
  [("@type", .array [.string "schema:DataType", .string "rdfs:Class"]),
    ("@id", .string "https://schema.org/Place"),
    ("rdfs:comment", .array
      [.object [("@language", .string "en"), ("@value", .string "A place.")], .string "Ein Ort."]),
    ("rdfs:subClassOf", .array
      [.string "rdfs:Resource", .object [("@id", .string "schema:Thing")]]),
    ("rdfs:label", .bool true)]

/-- The class is described by its members, the label aside. -/
theorem describes_spelledClass : Node.Describes Namespace.standard spelledClass "Place"
    ["schema:DataType", "rdfs:Class"] "A place." ["Thing"] [] [] false where
  id := ⟨_, by simp [spelledClass], names_standard "Place" "https://schema.org/" (by decide)⟩
  types := ⟨_, by simp [spelledClass], .many (.cons rfl (.cons rfl .nil))⟩
  comment := by
    have htext : Node.Holds "@value" "A place."
        (.object [("@language", .string "en"), ("@value", .string "A place.")]) :=
      .member (by simp)
    have hrest : ∀ w ∈ [Value.string "Ein Ort."], ∃ other, Node.Holds "@value" other w :=
      List.forall_mem_singleton.2 ⟨"Ein Ort.", .bare⟩
    simpa [spelledClass] using Node.Comments.many htext hrest
  superclasses := by
    have hresource : Namespace.standard.IsForeign "rdfs:Resource" := by
      simp [Namespace.IsForeign, Namespace.standard]
    have hthing : Node.Holds "@id" "schema:Thing" (.object [("@id", .string "schema:Thing")]) :=
      .member (by simp)
    have hmentions : Namespace.standard.Mentions ["rdfs:Resource", "schema:Thing"] ["Thing"] :=
      .foreign hresource (.named (names_standard "Thing" "schema:" (by decide)) .nil)
    simpa [spelledClass] using Node.Refers.given hmentions (.many (.cons .bare (.cons hthing .nil)))
  domains := by simpa [spelledClass] using Node.Refers.absent
  ranges := by simpa [spelledClass] using Node.Refers.absent
  superseded := by simpa [spelledClass] using Node.Marks.absent

/-- A superseded property without a comment, under keys of both kinds. -/
def spelledProperty : List (String × Value) :=
  [("@id", .string "schema:geo"), ("@type", .string "rdf:Property"),
    ("schema:domainIncludes", .string "http://schema.org/Place"),
    ("http://schema.org/rangeIncludes", .array
      [.object [("@id", .string "schema:GeoShape")], .string "https://schema.org/Text"]),
    ("schema:supersededBy", .bool false)]

/-- The property is described by its members. -/
theorem describes_spelledProperty : Node.Describes Namespace.standard spelledProperty "geo"
    ["rdf:Property"] "" [] ["Place"] ["GeoShape", "Text"] true where
  id := ⟨_, by simp [spelledProperty], names_standard "geo" "schema:" (by decide)⟩
  types := ⟨_, by simp [spelledProperty], .one rfl⟩
  comment := by simpa [spelledProperty] using Node.Comments.absent
  superclasses := by simpa [spelledProperty] using Node.Refers.absent
  domains := by
    have hmentions : Namespace.standard.Mentions ["http://schema.org/Place"] ["Place"] :=
      .named (names_standard "Place" "http://schema.org/" (by decide)) .nil
    simpa [spelledProperty] using Node.Refers.given hmentions (.one .bare)
  ranges := by
    have hshape : Node.Holds "@id" "schema:GeoShape"
        (.object [("@id", .string "schema:GeoShape")]) := .member (by simp)
    have hmentions : Namespace.standard.Mentions
        ["schema:GeoShape", "https://schema.org/Text"] ["GeoShape", "Text"] :=
      .named (names_standard "GeoShape" "schema:" (by decide))
        (.named (names_standard "Text" "https://schema.org/" (by decide)) .nil)
    simpa [spelledProperty] using
      Node.Refers.given hmentions (.many (.cons hshape (.cons .bare .nil)))
  superseded := by
    have hfalse : Value.bool false ≠ .null := Value.noConfusion
    simpa [spelledProperty] using Node.Marks.given hfalse

/-- A literal that nothing supersedes. -/
def spelledLiteral : List (String × Value) :=
  [("@id", .string "http://schema.org/Monday"), ("@type", .array [.string "schema:DayOfWeek"]),
    ("http://schema.org/supersededBy", .null)]

/-- The literal is described by its members. -/
theorem describes_spelledLiteral : Node.Describes Namespace.standard spelledLiteral "Monday"
    ["schema:DayOfWeek"] "" [] [] [] false where
  id := ⟨_, by simp [spelledLiteral], names_standard "Monday" "http://schema.org/" (by decide)⟩
  types := ⟨_, by simp [spelledLiteral], .many (.cons rfl .nil)⟩
  comment := by simpa [spelledLiteral] using Node.Comments.absent
  superclasses := by simpa [spelledLiteral] using Node.Refers.absent
  domains := by simpa [spelledLiteral] using Node.Refers.absent
  ranges := by simpa [spelledLiteral] using Node.Refers.absent
  superseded := by simpa [spelledLiteral] using Node.Marks.null

/-- Nodes of the three kinds, each in a spelling of its own, are read as their facts. -/
theorem ofValue_spelled :
    let nodes := [Value.object spelledClass, .object spelledProperty, .object spelledLiteral]
    let facts := [classFact "Place" ["Thing"] "A place." false,
      propertyFact "geo" ["Place"] ["GeoShape", "Text"] "" true,
      literalFact "Monday" "DayOfWeek" false]
    valuesUnder ["@graph"] [("@context", .null), ("@graph", .array nodes)] = [.array nodes] ∧
      List.Forall₂ (Writes Namespace.standard) nodes facts ∧
      Fact.ofValue Namespace.standard (.object [("@context", .null), ("@graph", .array nodes)]) =
        .ok facts := by
  intro nodes facts
  have hgraph : valuesUnder ["@graph"] [("@context", .null), ("@graph", .array nodes)] =
      [.array nodes] := by simp
  have hliteral : Writes Namespace.standard (.object spelledLiteral)
      (literalFact "Monday" "DayOfWeek" false) :=
    .literalNode describes_spelledLiteral (names_standard "DayOfWeek" "schema:" (by decide))
  have hwrites : List.Forall₂ (Writes Namespace.standard) nodes facts :=
    .cons (.classNode describes_spelledClass (by decide))
      (.cons (.propertyNode describes_spelledProperty (by decide) (by decide))
        (.cons hliteral .nil))
  exact ⟨hgraph, hwrites, ofValue_eq_ok hgraph hwrites⟩

end Fact

end VocabularyCompiler
