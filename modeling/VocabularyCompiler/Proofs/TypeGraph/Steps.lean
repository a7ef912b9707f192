import VocabularyCompiler.Proofs.FirstOccurrences
import VocabularyCompiler.Proofs.TypeGraph.Building

/-!
# Graphs step by step

A graph is made from the empty one by steps: names are asked for, types are changed, all types are
classified, and cycles are resolved. In whatever order that is done, a name that is asked for gets
the next position when it is new, and no step takes its position away again (`names_made`,
`id?_made_append`). The analysis of facts is such a sequence of steps (`isMade_analyze`).
-/

namespace VocabularyCompiler

/-- A step in the making of a graph. -/
inductive GraphStep where
  /-- Asks for the type of a name. -/
  | ensure (name : String)
  /-- Changes the type at a position, but not its name, as `setParents`, `declare` and `setLiterals`
  do. Where there is no type, nothing is changed. -/
  | modify (id : Nat) (f : TypeNode → TypeNode) (keepsName : ∀ n, (f n).name = n.name)
  /-- Gives all types their kinds. -/
  | classify (p : Policy)
  /-- Demotes the structs that contain themselves, and their ancestors. -/
  | resolveCycles (p : Policy)

/-- The name that a step asks for. -/
def GraphStep.asksFor? : GraphStep → Option String
  | ensure name => some name
  | _ => none

/-- A type without its kind. -/
def TypeNode.unclassified (n : TypeNode) : TypeNode := { n with classification := {} }

namespace TypeGraph

variable {g h : TypeGraph} {name : String} {i : Nat}

/-- The graph after a step. -/
def take (g : TypeGraph) : GraphStep → TypeGraph
  | .ensure name => g.ensure name
  | .modify id f keepsName => g.modify id f keepsName
  | .classify p => (g.classify p).1
  | .resolveCycles p => (g.resolveCycles p).1

/-- What steps make of the graph without types. -/
def made (steps : List GraphStep) : TypeGraph := steps.foldl take ∅

theorem made_append_singleton (steps : List GraphStep) (step : GraphStep) :
    made (steps ++ [step]) = (made steps).take step := by
  rw [made, List.foldl_append]
  rfl

/-- Graphs whose types have the same names at the same positions have the same names. -/
theorem names_congr (hname : ∀ i, (g.node? i).map TypeNode.name = (h.node? i).map TypeNode.name) :
    g.names = h.names := by
  refine List.ext_getElem? fun i => ?_
  rw [names, names, List.getElem?_map, List.getElem?_map]
  exact hname i

/-- The position of a name is where it stands among the names. -/
theorem id?_eq_some_iff_names : g.id? name = some i ↔ g.names[i]? = some name := by
  rw [id?_eq_some_iff, names, List.getElem?_map, Option.map_eq_some_iff]
  rfl

/-- Graphs with the same names have the same positions of names. -/
theorem id?_eq_of_names_eq (hnames : g.names = h.names) : g.id? = h.id? :=
  funext fun name => Option.ext fun i => by
    rw [id?_eq_some_iff_names, id?_eq_some_iff_names, hnames]

/-- A name that is there can be asked for without any effect. -/
theorem ensure_of_mem (hname : name ∈ g.names) : g.ensure name = g := dif_pos hname

/-- A new name gets the position behind all others. -/
theorem id?_ensure_of_notMem (hname : name ∉ g.names) (name' : String) :
    (g.ensure name).id? name' = if name = name' then some g.size else g.id? name' := by
  have hnone : g.id? name = none := by
    rw [Option.eq_none_iff_forall_not_mem]
    intro i hi
    exact hname (List.mem_of_getElem? (id?_eq_some_iff_names.1 hi))
  unfold id? at hnone ⊢
  rw [nodes_ensure, if_neg hname, List.findIdx?_append]
  by_cases heq : name = name'
  · subst heq
    simp [hnone, size]
  · simp [heq]

/-- Classification leaves everything but the kinds. -/
theorem map_unclassified_classify (g : TypeGraph) (p : Policy) (i : Nat) :
    ((g.classify p).1.node? i).map TypeNode.unclassified =
      (g.node? i).map TypeNode.unclassified :=
  g.map_node?_classify p TypeNode.unclassified (fun _ _ => rfl) i

/-- So does the resolution of cycles. -/
theorem map_unclassified_resolveCycles (g : TypeGraph) (p : Policy) (i : Nat) :
    ((g.resolveCycles p).1.node? i).map TypeNode.unclassified =
      (g.node? i).map TypeNode.unclassified :=
  (g.isStruct_resolveCycles_iff p).1.map_node? TypeNode.unclassified (fun _ => rfl) i

/-- Where types agree but for their kinds, they have the same names. -/
theorem map_name_of_unclassified
    (hsame : (h.node? i).map TypeNode.unclassified = (g.node? i).map TypeNode.unclassified) :
    (h.node? i).map TypeNode.name = (g.node? i).map TypeNode.name := by
  have hname := congrArg (Option.map TypeNode.name) hsame
  rw [Option.map_map, Option.map_map] at hname
  exact hname

/-- The names change only with a step that asks for a new one, which goes to the end. -/
theorem names_take (g : TypeGraph) (step : GraphStep) :
    (g.take step).names = step.asksFor?.elim g.names fun name =>
      if name ∈ g.names then g.names else g.names ++ [name] := by
  cases step with
  | ensure name => exact names_ensure g name
  | modify id f keepsName => exact names_modify g id f keepsName
  | classify p =>
    exact names_congr fun i => map_name_of_unclassified (g.map_unclassified_classify p i)
  | resolveCycles p =>
    exact names_congr fun i => map_name_of_unclassified (g.map_unclassified_resolveCycles p i)

/-- The names are those that were asked for, first asked for first. -/
theorem names_made (steps : List GraphStep) :
    (made steps).names = (steps.filterMap GraphStep.asksFor?).eraseDups := by
  -- The steps that ask for no name are passed over.
  have hfold : (made steps).names = (steps.filterMap GraphStep.asksFor?).foldl
      (fun names name => if name ∈ names then names else names ++ [name]) [] := by
    induction steps using List.reverseRecOn with
    | nil => rfl
    | append_singleton steps step ih =>
      rw [made_append_singleton, names_take, ih, List.filterMap_append, List.foldl_append]
      cases hstep : step.asksFor? <;> simp [hstep]
  rw [hfold, foldl_addNew, filter_notMem_nil, List.nil_append]

/-- A name has its position among the names that were asked for. -/
theorem id?_made {steps : List GraphStep} (hname : name ∈ steps.filterMap GraphStep.asksFor?) :
    (made steps).id? name = some ((steps.filterMap GraphStep.asksFor?).eraseDups.idxOf name) := by
  rw [id?_eq_some_iff_names, names_made]
  exact List.getElem?_idxOf (List.mem_eraseDups.2 hname)

/-- A name that has a position keeps it. -/
theorem id?_made_append {steps : List GraphStep} (hi : (made steps).id? name = some i)
    (more : List GraphStep) : (made (steps ++ more)).id? name = some i := by
  rw [id?_eq_some_iff_names] at hi ⊢
  have hlt : i < (made steps).names.length := (List.getElem?_eq_some_iff.1 hi).1
  rw [names_made] at hi hlt ⊢
  rw [List.filterMap_append, List.eraseDups_append, List.getElem?_append_left hlt]
  exact hi

/-! ## The analysis of facts -/

/-- The graph can be made step by step. -/
def IsMade (g : TypeGraph) : Prop := ∃ steps, made steps = g

namespace IsMade

/-- A step more makes a graph again. -/
theorem take (hg : g.IsMade) (step : GraphStep) : (g.take step).IsMade := by
  obtain ⟨steps, rfl⟩ := hg
  exact ⟨steps ++ [step], made_append_singleton steps step⟩

theorem ensure (hg : g.IsMade) (name : String) : (g.ensure name).IsMade := hg.take (.ensure name)

theorem modify (hg : g.IsMade) {f : TypeNode → TypeNode} (hf : ∀ n, (f n).name = n.name) :
    (g.modify i f hf).IsMade := hg.take (.modify i f hf)

/-- To declare a property is to ask for its domain and to change that type. -/
theorem addDeclaration (hg : g.IsMade) (decl : PropertyDecl) (domain : String) :
    (Draft.addDeclaration decl g domain).IsMade := by
  unfold Draft.addDeclaration
  dsimp only
  split
  · exact (hg.ensure domain).modify fun _ => by rfl
  · exact hg.ensure domain

/-- Every fact is added by steps. -/
theorem add {d : Draft} (hd : d.graph.IsMade) (p : Policy) (fact : Fact) :
    (d.add p fact).graph.IsMade := by
  cases hleft : fact.isLeftOut p with
  | true =>
    rw [(add_of_isLeftOut hleft).1]
    exact hd
  | false =>
    rw [Draft.add_of_counts hleft]
    cases fact with
    | literalFact name enumType superseded => exact hd
    | propertyFact name domains ranges comment superseded =>
      exact List.foldlRecOn _ (Draft.addDeclaration ⟨name, ranges, comment⟩) hd
        fun g hg domain _ => hg.addDeclaration _ domain
    | classFact name parents comment superseded =>
      dsimp only [Draft.addClass]
      split
      · exact (hd.ensure name).modify fun _ => by rfl
      · exact hd.ensure name

/-- Literals are attached by a step. -/
theorem attach {d : Draft} (hd : d.graph.IsMade) (e : String × OrderedSet String) :
    (d.attach e).graph.IsMade := by
  unfold Draft.attach
  split
  · exact hd.modify fun _ => by rfl
  · exact hd

end IsMade

/-- The graph of facts is made step by step. -/
theorem isMade_build (p : Policy) (facts : List Fact) : (build p facts).1.IsMade := by
  have hfacts : (facts.foldl (Draft.add p) {}).graph.IsMade :=
    List.foldlRecOn facts (Draft.add p) (motive := fun d => d.graph.IsMade) ⟨[], rfl⟩
      fun _ hd fact _ => hd.add p fact
  exact List.foldlRecOn _ Draft.attach (motive := fun d => d.graph.IsMade) hfacts
    fun _ hd e _ => hd.attach e

/-- So is the analyzed graph. -/
theorem isMade_analyze (p : Policy) (facts : List Fact) : (analyze p facts).1.IsMade :=
  ((isMade_build p facts).take (.classify p)).take (.resolveCycles p)

end TypeGraph

end VocabularyCompiler
