import VocabularyCompiler.Proofs.FirstOccurrences
import VocabularyCompiler.Proofs.TypeGraph.Building

/-!
# The graph that facts say

What a sequence of facts says of the types of a vocabulary can be told without building anything:
which types there are, in the order in which facts bring them up, and what each of them is, of which
the last fact about it decides. `SaidBy` tells it, and `build_eq_iff` shows that the built graph is
the one graph of which it holds.

Names are met by a fold that adds the new ones, so they stand where they occur first. Seen from one
name, a class replaces the parents and the comment, and a property is set in a map, so what facts
make of that name has a closed form (`foldl_change`).
-/

namespace VocabularyCompiler

open TypeGraph

namespace Fact

/-- The names of the types that a fact brings up: its own if it is a class, and the domains that are
kept if it is a property. -/
def bringsUp (p : Policy) (fact : Fact) : List String :=
  if fact.isLeftOut p then [] else
    match fact with
    | classFact name .. => [name]
    | propertyFact _ domains .. => domains.filter (Draft.keepsType p)
    | literalFact .. => []

/-- The parents and the comment that a fact gives as a class of the name. -/
def classOf? (p : Policy) (name : String) (fact : Fact) : Option (List String × String) :=
  if fact.isLeftOut p then none else
    match fact with
    | classFact name' parents comment _ => if name' = name then some (parents, comment) else none
    | _ => none

/-- The declaration that a fact gives as a property with the name among its domains. -/
def declarationOn? (p : Policy) (name : String) (fact : Fact) : Option PropertyDecl :=
  if fact.isLeftOut p then none else
    match fact with
    | propertyFact prop domains ranges comment _ =>
      if name ∈ domains then some ⟨prop, ranges, comment⟩ else none
    | _ => none

end Fact

/-- A type is what facts say of its name. -/
structure TypeNode.SaidBy (p : Policy) (facts : List Fact) (n : TypeNode) : Prop where
  /-- Without a class of its name, it has neither parents nor a comment. -/
  undescribed (hnone : facts.filterMap (Fact.classOf? p n.name) = []) :
    n.parents = [] ∧ n.comment = ""
  /-- The last class of its name decides. If no parent is kept, the root type takes their place,
  unless this is the root type. -/
  described {parents : List String} {comment : String}
    (hlast : (facts.filterMap (Fact.classOf? p n.name)).getLast? = some (parents, comment)) :
    n.parents = (if p.keep parents = [] ∧ n.name ≠ p.rootType then [p.rootType]
      else p.keep parents) ∧ n.comment = comment
  /-- Properties stand in the order in which they are first declared. -/
  keys : n.properties.keys =
    ((facts.filterMap (Fact.declarationOn? p n.name)).map PropertyDecl.name).eraseDups
  /-- The last declaration of a property decides. -/
  declared (prop : String) : n.properties.get? prop =
    ((facts.filterMap (Fact.declarationOn? p n.name)).filter fun decl => decl.name = prop).getLast?
  /-- Literals stand in the order in which they are first given. -/
  literals : n.literals.items = (facts.filterMap (Fact.literalOf? p n.name)).eraseDups
  unclassified : n.classification = {}

/-- A graph is what facts say: its types are those that facts bring up, first brought up first. -/
structure TypeGraph.SaidBy (p : Policy) (facts : List Fact) (g : TypeGraph) : Prop where
  names : g.names = (facts.flatMap (Fact.bringsUp p)).eraseDups
  types : ∀ n ∈ g.nodes, n.SaidBy p facts

namespace TypeGraph

variable {p : Policy} {g h : TypeGraph} {name : String}

/-! ## Which types there are -/

namespace Draft

/-- A declaration brings up its domain. -/
theorem names_addDeclaration (decl : PropertyDecl) (g : TypeGraph) (domain : String) :
    (addDeclaration decl g domain).names =
      if domain ∈ g.names then g.names else g.names ++ [domain] := by
  rw [← names_ensure]
  unfold addDeclaration
  dsimp only
  split
  · rw [declare, names_modify]
  · rfl

/-- A class brings up its name. -/
theorem names_addClass (p : Policy) (d : Draft) (name : String) (parents : List String)
    (comment : String) :
    (d.addClass p name parents comment).graph.names =
      if name ∈ d.graph.names then d.graph.names else d.graph.names ++ [name] := by
  rw [← names_ensure]
  unfold addClass
  dsimp only
  split
  · dsimp only
    rw [names_modify]
  · rfl

/-- What a fact brings up goes to the end if it is new. -/
theorem names_add (d : Draft) (fact : Fact) :
    (d.add p fact).graph.names =
      d.graph.names ++ ((fact.bringsUp p).filter (· ∉ d.graph.names)).eraseDups := by
  unfold Fact.bringsUp
  cases hleft : fact.isLeftOut p with
  | true =>
    rw [(add_of_isLeftOut hleft).1]
    exact (List.append_nil _).symm
  | false =>
    rw [add_of_counts hleft]
    cases fact with
    | classFact name parents comment superseded =>
      dsimp only
      rw [names_addClass]
      by_cases hname : name ∈ d.graph.names <;> simp [hname, List.eraseDups_cons]
    | propertyFact prop domains ranges comment superseded =>
      exact view_foldl_addNew (names_addDeclaration _) _ _
    | literalFact => exact (List.append_nil _).symm

/-- What facts bring up goes to the end if it is new, at its first occurrence. -/
theorem names_foldl_add (d : Draft) (facts : List Fact) :
    (facts.foldl (add p) d).graph.names = d.graph.names ++
      ((facts.flatMap (Fact.bringsUp p)).filter (· ∉ d.graph.names)).eraseDups := by
  induction facts generalizing d with
  | nil => exact (List.append_nil _).symm
  | cons fact rest ih =>
    rw [List.foldl_cons, ih, names_add, List.flatMap_cons, eraseDups_filter_append,
      List.append_assoc]

/-- Literals bring up nothing. -/
theorem names_foldl_attach (entries : List (String × OrderedSet String)) (d : Draft) :
    (entries.foldl attach d).graph.names = d.graph.names := by
  induction entries generalizing d with
  | nil => rfl
  | cons e rest ih =>
    rw [List.foldl_cons, ih]
    unfold attach
    split
    · dsimp only
      rw [setLiterals, names_modify]
    · rfl

end Draft

/-- The types of the built graph are those that facts bring up. -/
theorem names_build (p : Policy) (facts : List Fact) :
    (build p facts).1.names = (facts.flatMap (Fact.bringsUp p)).eraseDups := by
  have hempty : ({} : Draft).graph.names = [] := rfl
  unfold build
  dsimp only
  rw [Draft.names_foldl_attach, Draft.names_foldl_add, hempty, filter_notMem_nil, List.nil_append]

/-! ## What a type is -/

/-- A fact changes the type of a kept name as a class of that name, as a property on it, or not at
all. -/
theorem change?_cases (hname : Draft.keepsType p name = true) (fact : Fact) :
    (fact.change? p name = none ∧ fact.classOf? p name = none ∧ fact.declarationOn? p name = none) ∨
    (∃ parents comment, fact.classOf? p name = some (parents, comment) ∧
      fact.declarationOn? p name = none ∧ fact.change? p name =
        some fun n => { n with parents := Draft.parentsOf p name parents, comment := comment }) ∨
    ∃ decl, fact.classOf? p name = none ∧ fact.declarationOn? p name = some decl ∧
      fact.change? p name =
        some fun n => { n with properties := n.properties.insert decl.name decl } := by
  unfold Fact.change? Fact.classOf? Fact.declarationOn?
  split
  next => exact .inl ⟨rfl, rfl, rfl⟩
  next =>
    cases fact with
    | classFact name' parents comment superseded =>
      by_cases hsame : name' = name <;> simp [hsame]
    | propertyFact prop domains ranges comment superseded =>
      by_cases hmem : name ∈ domains <;> simp [hmem, hname]
    | literalFact => exact .inl ⟨rfl, rfl, rfl⟩

/-- Facts make of a name what they make of a type without anything to it. -/
theorem getD_foldl_applyTo (p : Policy) (name : String) (facts : List Fact) (n? : Option TypeNode) :
    (facts.foldl (fun n? fact => fact.applyTo p name n?) n?).getD { name := name } =
      facts.foldl (fun n fact => (fact.change? p name).getD id n)
        (n?.getD { name := name }) := by
  induction facts generalizing n? with
  | nil => rfl
  | cons fact rest ih =>
    rw [List.foldl_cons, ih, List.foldl_cons]
    congr 1
    unfold Fact.applyTo
    cases fact.change? p name <;> rfl

/-- What facts make of a type without anything to it: the last class gives it parents and a comment,
and it has the properties that are declared on it. -/
theorem foldl_change (hname : Draft.keepsType p name = true) (facts : List Fact) :
    facts.foldl (fun n fact => (fact.change? p name).getD id n) { name := name } =
      { name := name
        parents := ((facts.filterMap (Fact.classOf? p name)).getLast?).elim []
          fun c => Draft.parentsOf p name c.1
        comment := ((facts.filterMap (Fact.classOf? p name)).getLast?).elim "" Prod.snd
        properties := .ofList
          ((facts.filterMap (Fact.declarationOn? p name)).map fun decl => (decl.name, decl)) } := by
  -- The last fact about a type decides, so the induction takes facts from the end.
  induction facts using List.reverseRecOn with
  | nil => rfl
  | append_singleton facts fact ih =>
    rw [List.foldl_append, List.foldl_cons, List.foldl_nil, ih, List.filterMap_append,
      List.filterMap_append]
    rcases change?_cases hname fact with ⟨hchange, hclass, hdecl⟩ |
      ⟨parents, comment, hclass, hdecl, hchange⟩ | ⟨decl, hclass, hdecl, hchange⟩
    · simp [hchange, hclass, hdecl]
    · simp [hchange, hclass, hdecl]
    · simp [hchange, hclass, hdecl, OrderedMap.ofList]

/-- A type of the built graph is what facts make of its name, with the literals that they give. -/
theorem eq_of_mem_build {facts : List Fact} {n : TypeNode} (hn : n ∈ (build p facts).1.nodes) :
    n = { name := n.name
          parents := ((facts.filterMap (Fact.classOf? p n.name)).getLast?).elim []
            fun c => Draft.parentsOf p n.name c.1
          comment := ((facts.filterMap (Fact.classOf? p n.name)).getLast?).elim "" Prod.snd
          properties := .ofList
            ((facts.filterMap (Fact.declarationOn? p n.name)).map fun decl => (decl.name, decl))
          literals := .ofList (facts.filterMap (Fact.literalOf? p n.name)) } := by
  have hkeeps := keepsTypes_build p facts n.name (List.mem_map_of_mem hn)
  -- Looked up by its own name, the type is what the facts make of that name.
  have hget : (build p facts).1.get? n.name = some n :=
    get?_eq_some_iff.2 ⟨List.mem_iff_getElem?.1 hn, rfl⟩
  rw [get?_build, Option.map_eq_some_iff] at hget
  obtain ⟨m, hm, hliterals⟩ := hget
  have hmade := getD_foldl_applyTo p n.name facts none
  rw [hm, Option.getD_some, Option.getD_none, foldl_change hkeeps] at hmade
  rw [hmade] at hliterals
  exact hliterals.symm

/-- The parents of a class are those that are kept, or else the root type. -/
theorem parentsOf_eq (p : Policy) (name : String) (parents : List String) :
    Draft.parentsOf p name parents =
      if p.keep parents = [] ∧ name ≠ p.rootType then [p.rootType] else p.keep parents := by
  unfold Draft.parentsOf
  split
  next hnone =>
    have hkeep : p.keep parents = [] := hnone
    by_cases hroot : name = p.rootType <;> simp [hkeep, hroot]
  next hsome =>
    rw [if_neg fun h => hsome h.1]
    rfl

/-- The built graph is what facts say. -/
theorem saidBy_build (p : Policy) (facts : List Fact) : (build p facts).1.SaidBy p facts where
  names := names_build p facts
  types n hn := by
    have hmade := eq_of_mem_build hn
    have hparents := congrArg TypeNode.parents hmade
    have hcomment := congrArg TypeNode.comment hmade
    have hproperties := congrArg TypeNode.properties hmade
    dsimp only at hparents hcomment hproperties
    refine ⟨fun hnone => ?_, fun hlast => ?_, ?_, fun prop => ?_, ?_,
      congrArg TypeNode.classification hmade⟩
    · rw [hnone] at hparents hcomment
      exact ⟨hparents, hcomment⟩
    · rw [hlast] at hparents hcomment
      exact ⟨hparents.trans (parentsOf_eq _ _ _), hcomment⟩
    · rw [hproperties, OrderedMap.keys_ofList, List.map_map]
      rfl
    · rw [hproperties, OrderedMap.get?_ofList, List.filter_map, List.getLast?_map, Option.map_map]
      exact Option.map_id'
    · exact (congrArg (fun n => n.literals.items) hmade).trans (OrderedSet.items_ofList _)

/-! ## Facts say one graph -/

/-- Facts say one thing of a name. -/
theorem eq_of_saidBy {facts : List Fact} {m n : TypeNode} (hm : m.SaidBy p facts)
    (hn : n.SaidBy p facts) (hname : m.name = n.name) : m = n := by
  have hproperties : m.properties = n.properties :=
    OrderedMap.ext_get? (by rw [hm.keys, hn.keys, hname])
      fun prop => by rw [hm.declared, hn.declared, hname]
  have hliterals : m.literals = n.literals :=
    OrderedSet.ext (by rw [hm.literals, hn.literals, hname])
  have hclass : m.parents = n.parents ∧ m.comment = n.comment := by
    cases hlast : (facts.filterMap (Fact.classOf? p n.name)).getLast? with
    | none =>
      have hnone := List.getLast?_eq_none_iff.1 hlast
      obtain ⟨hparents, hcomment⟩ := hm.undescribed (hname ▸ hnone)
      obtain ⟨hparents', hcomment'⟩ := hn.undescribed hnone
      exact ⟨hparents.trans hparents'.symm, hcomment.trans hcomment'.symm⟩
    | some c =>
      obtain ⟨hparents, hcomment⟩ := hm.described (hname ▸ hlast)
      obtain ⟨hparents', hcomment'⟩ := hn.described hlast
      exact ⟨hparents.trans (by rw [hparents', hname]), hcomment.trans hcomment'.symm⟩
  have hkind := hm.unclassified.trans hn.unclassified.symm
  cases m
  cases n
  dsimp only at hname hproperties hliterals hclass hkind
  rw [hname, hproperties, hliterals, hclass.1, hclass.2, hkind]

/-- Facts say one graph. -/
theorem SaidBy.eq {facts : List Fact} (hg : g.SaidBy p facts) (hh : h.SaidBy p facts) : g = h := by
  have hnames : g.names = h.names := hg.names.trans hh.names.symm
  refine eq_of_nodes_eq (List.ext_getElem ?_ fun i hi hi' => ?_)
  · exact (g.length_names.symm.trans (congrArg List.length hnames)).trans h.length_names
  · refine eq_of_saidBy (hg.types _ (List.getElem_mem hi)) (hh.types _ (List.getElem_mem hi')) ?_
    have hname : (g.nodes.map TypeNode.name)[i]? = (h.nodes.map TypeNode.name)[i]? :=
      congrArg (·[i]?) hnames
    simpa [hi, hi'] using hname

/-- What is built from facts is the graph that they say. Its types are the names of the classes that
count and the kept domains of the properties that count, in the order in which they are first
mentioned. The last class of its name gives a type its parents, of which those that are left out are
taken away, and its comment. The last declaration of each property on it is the one that it has, and
the properties stand in the order of their first declaration. Its literals are those that are given
to its name, each once. -/
theorem build_eq_iff (p : Policy) (facts : List Fact) (g : TypeGraph) :
    (build p facts).1 = g ↔ g.SaidBy p facts :=
  ⟨fun h => h ▸ saidBy_build p facts, fun h => (saidBy_build p facts).eq h⟩

/-- Facts that contradict each other, and some that do not count. -/
example :
    (build .standard [
      .propertyFact "status" ["Text", "Event", "Place"] ["Status"] "" false,
      .classFact "Place" ["Action"] "to be revised" false,
      .propertyFact "name" ["Place"] ["Text"] "" false,
      .literalFact "Open" "Status" false,
      .classFact "Place" ["BedType"] "revised" false,
      .propertyFact "status" ["Place"] ["Text", "Status"] "revised" false,
      .classFact "Status" ["Enumeration"] "" false,
      .literalFact "Closed" "Status" false,
      .literalFact "Open" "Status" false,
      .classFact "Event" ["Thing"] "" true]).1.nodes =
    [{ name := "Event", properties := .ofList [("status", ⟨"status", ["Status"], ""⟩)] },
      { name := "Place", parents := ["Thing"], comment := "revised",
        properties := .ofList [("status", ⟨"status", ["Text", "Status"], "revised"⟩),
          ("name", ⟨"name", ["Text"], ""⟩)] },
      { name := "Status", parents := ["Enumeration"],
        literals := .ofList ["Open", "Closed"] }] := by
  decide +kernel

end TypeGraph

end VocabularyCompiler
