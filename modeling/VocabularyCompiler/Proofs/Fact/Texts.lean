import VocabularyCompiler.Proofs.Fact.Observation
import VocabularyCompiler.Proofs.Json.Overlooked

/-!
# Documents in texts

A document may be read from a text directly, or the text is first parsed as a value and the document
is read from that. The first way stops at the end of the document's value and only passes over what
stands under other keys than those of documents and nodes. Where the text holds something behind the
value, or something under such a key that cannot be read, the two ways part (`ofText_trailing`).
Nothing else parts them: what both ways accept, they accept with the same facts, and the second way
accepts exactly the texts that the first one accepts and reads whole (`exists_parse_iff_readWhole`).
-/

namespace VocabularyCompiler

open Json

/-! ## Nodes and graphs -/

namespace Node

/-- The keys that nodes are read by. -/
def keys : List String :=
  ["@id", "@type", "rdfs:comment", "rdfs:subClassOf", "http://schema.org/domainIncludes",
    "schema:domainIncludes", "http://schema.org/rangeIncludes", "schema:rangeIncludes",
    "http://schema.org/supersededBy", "schema:supersededBy"]

/-- Nodes are the same wherever they come from. -/
theorem carries_read {o o' : Origin} : Node.read.Carries o o' := by
  refine Reader.carries_record ?_ _ _
  simp only [List.forall_mem_cons]
  exact ⟨fun _ => Reader.carries_string.map _, fun _ => (Reader.carries_oneOf _ _).map _,
    fun _ => (Reader.carries_oneOf _ _).option.map _,
    fun _ => (Reader.carries_oneOf _ _).option.map _,
    fun _ => (Reader.carries_oneOf _ _).option.map _,
    fun _ => (Reader.carries_oneOf _ _).option.map _,
    fun _ => Reader.carries_value.option.map _, List.forall_mem_nil _⟩

/-- Documents are the same wherever they come from. -/
theorem carries_readGraph {o o' : Origin} : Node.readGraph.Carries o o' :=
  Reader.carries_record (List.forall_mem_singleton.2 fun _ => carries_read.list.map _) _ _

/-- A document is read the same anywhere. -/
theorem steady_readGraph : Node.readGraph.Steady :=
  Reader.steady_record (List.forall_mem_singleton.2 fun _ => (steady_read.sequence _).map _)

/-- A node that is read is faultless if what stands under other keys is. -/
theorem exists_faultless_iff {b : Nat} {s : Source} {node : Node}
    (h : Node.read ⟨.text, b⟩ s = .ok node) : ∃ n, b = n + 1 ∧
      (s.Faultless (n + 1) ↔ ∀ t ∈ s.otherThan keys, t.Faultless n) := by
  obtain ⟨n, rfl, htaken⟩ := Reader.exists_taken_of_record h
  refine ⟨n, rfl, htaken.faultless_iff_of_readsAll ?_⟩
  simp only [List.forall_mem_cons]
  exact ⟨fun _ => Reader.readsAll_string.map _, fun _ => (Reader.readsAll_oneOf _ _).map _,
    fun _ => (Reader.readsAll_oneOf _ _).option.map _,
    fun _ => (Reader.readsAll_oneOf _ _).option.map _,
    fun _ => (Reader.readsAll_oneOf _ _).option.map _,
    fun _ => (Reader.readsAll_oneOf _ _).option.map _,
    fun _ => Reader.readsAll_value.option.map _, List.forall_mem_nil _⟩

/-- A list of nodes that is read is faultless if what stands in them under other keys is. -/
theorem list_faultless_iff {b : Nat} {s : Source} {nodes : List Node}
    (h : Reader.list Node.read ⟨.text, b⟩ s = .ok nodes) : s.Faultless b ↔
      ∀ node ∈ s.items, ∀ t ∈ node.otherThan keys, t.Faultless (b - 2) := by
  obtain ⟨n, items, rfl, rfl, hread⟩ := Reader.exists_of_list_eq_ok h
  rw [Source.faultless_array_iff, and_iff_right rfl]
  refine forall₂_congr fun node hnode => ?_
  obtain ⟨a, ha⟩ := hread node hnode
  obtain ⟨k, rfl, hfaultless⟩ := exists_faultless_iff ha
  exact hfaultless

/-- A document that is read is faultless if what stands under other keys is, in the document and in
its nodes. -/
theorem faultless_iff_of_readGraph {b : Nat} {s : Source} {nodes : List Node}
    (h : Node.readGraph ⟨.text, b⟩ s = .ok nodes) : s.Faultless b ↔
      (∀ t ∈ s.otherThan ["@graph"], t.Faultless (b - 1)) ∧
        ∀ graph ∈ s.under ["@graph"], ∀ node ∈ graph.items, ∀ t ∈ node.otherThan keys,
          t.Faultless (b - 3) := by
  obtain ⟨n, rfl, htaken⟩ := Reader.exists_taken_of_record h
  refine (htaken.faultless_iff.trans and_comm).trans (and_congr_right fun _ => ?_)
  refine forall₂_congr fun graph hgraph => ?_
  -- The only field is the graph.
  obtain ⟨f, hf, st, st', hread⟩ := htaken.readByField graph hgraph
  rw [List.mem_singleton.1 hf] at hread
  obtain ⟨nodes, hnodes, -⟩ := map_eq_ok_iff.1 hread
  exact list_faultless_iff hnodes

end Node

/-! ## Documents -/

namespace Fact

/-- A text is read to its end, and so is what a document passes over: nothing but space stands
behind the value, and what stands under other keys, in the document and in its nodes, can be
read. -/
structure ReadWhole (text : String) : Prop where
  behind : ∀ behind ∈ (Scan.scan text.toList).2, ∀ c ∈ behind, Scan.isSpace c = true
  document : ∀ s ∈ (Scan.scan text.toList).1.otherThan ["@graph"], s.Faultless (maxDepth - 1)
  nodes : ∀ graph ∈ (Scan.scan text.toList).1.under ["@graph"], ∀ node ∈ graph.items,
    ∀ s ∈ node.otherThan Node.keys, s.Faultless (maxDepth - 3)

variable {ns : Namespace} {text : String} {facts : List Fact}

/-- A document that is read from a text is one value if and only if it is read whole. -/
theorem exists_parse_iff_of_readText {nodes : List Node}
    (h : readText Node.readGraph text = .ok nodes) :
    (∃ v, parse text = .ok v) ↔ ReadWhole text := by
  simp only [parse_eq_ok_iff, exists_and_right]
  have hfaultless := Node.faultless_iff_of_readGraph h
  constructor
  · rintro ⟨hany, hbehind⟩
    obtain ⟨hdocument, hnodes⟩ := hfaultless.1 hany
    exact ⟨hbehind, hdocument, hnodes⟩
  · rintro ⟨hbehind, hdocument, hnodes⟩
    exact ⟨hfaultless.2 ⟨hdocument, hnodes⟩, hbehind⟩

/-- From a text that is one value the same document is read as from the value. -/
theorem readText_eq_ok_iff_of_parse {v : Value} {nodes : List Node}
    (hdistinct : (Scan.scan text.toList).1.DistinctKeys) (h : parse text = .ok v) :
    readText Node.readGraph text = .ok nodes ↔ readValue Node.readGraph v = .ok nodes := by
  obtain ⟨hsource, hheight⟩ := eq_ofValue_of_parse hdistinct h
  rw [readText, hsource, ← Node.steady_readGraph.eq_readValue hheight]
  exact ⟨Node.carries_readGraph v _ _, Node.carries_readGraph v _ _⟩

/-- Facts are those of the nodes that are read. -/
theorem mapError_bind_eq_ok_iff {read : Except ReadError (List Node)} :
    (read.mapError malformed >>= ofNodes ns) = .ok facts ↔
      ∃ nodes, read = .ok nodes ∧ ofNodes ns nodes = .ok facts := by
  cases read with
  | error e => exact ⟨nofun, nofun⟩
  | ok nodes => simp [Except.mapError, bind_eq_ok_iff]

/-- A text in which no object has a key twice is one value that is accepted as a document if and
only if it is accepted as a text and read whole, and then the facts are the same. -/
theorem exists_parse_iff_readWhole (ns : Namespace) (text : String) (facts : List Fact)
    (hdistinct : (Scan.scan text.toList).1.DistinctKeys) :
    (∃ v, parse text = .ok v ∧ ofValue ns v = .ok facts) ↔
      ofText ns text = .ok facts ∧ ReadWhole text := by
  simp only [ofValue, ofText, mapError_bind_eq_ok_iff]
  constructor
  · rintro ⟨v, hparse, nodes, hread, hfacts⟩
    have htext := (readText_eq_ok_iff_of_parse hdistinct hparse).2 hread
    exact ⟨⟨nodes, htext, hfacts⟩, (exists_parse_iff_of_readText htext).1 ⟨v, hparse⟩⟩
  · rintro ⟨⟨nodes, hread, hfacts⟩, hwhole⟩
    obtain ⟨v, hparse⟩ := (exists_parse_iff_of_readText hread).2 hwhole
    exact ⟨v, hparse, nodes, (readText_eq_ok_iff_of_parse hdistinct hparse).1 hread, hfacts⟩

/-- A document with one class, and with something under a key that is passed over. -/
def thingDocument : Value :=
  .object [("@context", .array []), ("@graph", .array
    [.object [("@id", .string "schema:Thing"), ("@type", .string "rdfs:Class")]])]

/-- The document as text, with a line break behind it. -/
def thingText : String :=
  "\x7b\"@context\": [], \"@graph\": [\x7b\"@id\": \"schema:Thing\",
    \"@type\": \"rdfs:Class\"\x7d]\x7d\n"

/-- The document as text, with something else behind it. -/
def thingTextAndMore : String :=
  "\x7b\"@context\": [], \"@graph\": [\x7b\"@id\": \"schema:Thing\",
    \"@type\": \"rdfs:Class\"\x7d]\x7d x"

/-- The document has each key once. -/
theorem distinctKeys_thingDocument : (Source.ofValue thingDocument).DistinctKeys := by
  have hnode : (Value.object [("@id", .string "schema:Thing"),
      ("@type", .string "rdfs:Class")]).WellFormed := by
    refine .object (by decide) ?_
    simp only [List.forall_mem_cons]
    exact ⟨.string _, .string _, List.forall_mem_nil _⟩
  refine distinctKeys_ofValue _ (.object (by decide) ?_)
  simp only [List.forall_mem_cons]
  exact ⟨.array (List.forall_mem_nil _), .array (List.forall_mem_singleton.2 hnode),
    List.forall_mem_nil _⟩

set_option maxRecDepth 20000 in
/-- Both ways accept the document with a line break behind it, and it is read whole. -/
theorem exists_parse_iff_readWhole_thing :
    (Scan.scan thingText.toList).1.DistinctKeys ∧
    (∃ v, parse thingText = .ok v ∧
      ofValue .standard v = .ok [.classFact "Thing" [] "" false]) ∧
    ofText .standard thingText = .ok [.classFact "Thing" [] "" false] ∧ ReadWhole thingText := by
  have hscan : Scan.scan thingText.toList = (.ofValue thingDocument, some ['\n']) := by cbv
  have hdistinct : (Scan.scan thingText.toList).1.DistinctKeys := by
    rw [hscan]
    exact distinctKeys_thingDocument
  have hparse : parse thingText = .ok thingDocument := by
    rw [parse_eq_ok_iff, hscan]
    exact ⟨rfl, by simp [Scan.isSpace]⟩
  have hfacts : ofValue .standard thingDocument = .ok [.classFact "Thing" [] "" false] := by cbv
  exact ⟨hdistinct, ⟨thingDocument, hparse, hfacts⟩,
    (exists_parse_iff_readWhole .standard thingText _ hdistinct).1 ⟨thingDocument, hparse, hfacts⟩⟩

set_option maxRecDepth 20000 in
/-- A document is accepted with something else behind it, although the text is no value. -/
theorem ofText_trailing :
    (Scan.scan thingTextAndMore.toList).1.DistinctKeys ∧
    ofText .standard thingTextAndMore = .ok [.classFact "Thing" [] "" false] ∧
    ¬∃ v, parse thingTextAndMore = .ok v ∧
      ofValue .standard v = .ok [.classFact "Thing" [] "" false] := by
  have hscan : Scan.scan thingTextAndMore.toList =
      (.ofValue thingDocument, some [' ', 'x']) := by cbv
  refine ⟨?_, by cbv, ?_⟩
  · rw [hscan]
    exact distinctKeys_thingDocument
  · rintro ⟨v, hparse, -⟩
    have hbehind := (parse_eq_ok_iff.1 hparse).2
    rw [hscan] at hbehind
    exact absurd (hbehind _ rfl 'x' (by simp)) (by decide)

end Fact

end VocabularyCompiler
