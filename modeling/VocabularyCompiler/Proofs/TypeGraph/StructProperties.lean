import VocabularyCompiler.Lowering.StructFields
import VocabularyCompiler.Proofs.TypeGraph.Nodes

/-!
# The walk to the properties of a struct

`collect` walks from a type to its ancestors. `Walks` tells what a step of it can do
(`walks_collect`). The walk comes across no type twice, so it ends by itself: the number of steps
that it is allowed makes no difference as long as there are more of them than types to come across
(`collect_eq_of_unseen_lt`).
-/

namespace VocabularyCompiler.TypeGraph

variable {g : TypeGraph} {p : Policy} {everything : Bool}

/-! ## The steps of a walk -/

/-- A walk takes the properties of the type `n`, of the name `a`: of every type, or else of one that
lies under a struct root. -/
structure Contributes (g : TypeGraph) (everything : Bool) (a : String) (n : TypeNode) : Prop where
  found : g.get? a = some n
  struct : everything = true ∨ n.classification.isStructSubtype = true

/-- A walk goes on from the type `a` to its parent `b`. Unless it takes everything, it goes no
further than to a struct root. -/
def Climbs (g : TypeGraph) (p : Policy) (everything : Bool) (a b : String) : Prop :=
  ∃ n, g.Contributes everything a n ∧ b ∈ n.parents ∧ (everything = true ∨ a ∉ p.structRoots)

/-- The type of a name is the only one that contributes under it. -/
theorem Contributes.unique {a : String} {m n : TypeNode} (hm : g.Contributes everything a m)
    (hn : g.get? a = some n) : m = n :=
  Option.some_inj.1 (hm.found.symm.trans hn)

/-- The collection after the walk came across a type. -/
def Collection.visit (c : Collection) (a : String) : Collection :=
  { c with visited := a :: c.visited }

/-- What a walk does that comes to the type `a` with one more step left than `n`, and the collection
that it leaves. -/
inductive Walks (g : TypeGraph) (p : Policy) (everything : Bool) (n : Nat) (c : Collection)
    (a : String) : Collection → Prop where
  | unknown (hnode : g.get? a = none) : Walks g p everything n c a c
  /-- The walk came across the type before. -/
  | again (hold : a ∈ c.visited) : Walks g p everything n c a c
  /-- The walk takes nothing from the type. -/
  | pass (hnew : a ∉ c.visited) (hout : ∀ m, ¬g.Contributes everything a m) :
      Walks g p everything n c a (c.visit a)
  /-- The walk goes no further. -/
  | stop {node : TypeNode} (hnew : a ∉ c.visited) (hnode : g.Contributes everything a node)
      (hroot : ∀ b, ¬g.Climbs p everything a b) : Walks g p everything n c a ((c.visit a).add node)
  | climb {node : TypeNode} (hnew : a ∉ c.visited) (hnode : g.Contributes everything a node)
      (hon : everything = true ∨ a ∉ p.structRoots) :
      Walks g p everything n c a
        (node.parents.foldl (g.collect p everything n) ((c.visit a).add node))

/-- Every step of a walk is of one of these kinds. -/
theorem walks_collect (g : TypeGraph) (p : Policy) (everything : Bool) (n : Nat) (c : Collection)
    (a : String) : g.Walks p everything n c a (g.collect p everything (n + 1) c a) := by
  unfold collect
  split
  next hnode => exact .unknown hnode
  next node hnode =>
    split
    next hold => exact .again hold
    next hnew =>
      dsimp only
      split
      next hpass =>
        simp only [Bool.and_eq_true, Bool.not_eq_true'] at hpass
        refine .pass hnew fun m hm => ?_
        obtain rfl := hm.unique hnode
        simpa [hpass.1, hpass.2] using hm.struct
      next htake =>
        simp only [Bool.and_eq_true, Bool.not_eq_true', not_and_or, Bool.not_eq_false] at htake
        split
        next hroot =>
          simp only [Bool.and_eq_true, Bool.not_eq_true', decide_eq_true_eq] at hroot
          refine .stop hnew ⟨hnode, htake⟩ ?_
          rintro b ⟨m, -, -, hon⟩
          simp [hroot.1, hroot.2] at hon
        next hon =>
          simp only [Bool.and_eq_true, Bool.not_eq_true', decide_eq_true_eq, not_and_or,
            Bool.not_eq_false] at hon
          exact .climb hnew ⟨hnode, htake⟩ hon

/-! ## What is come across -/

/-- A walk forgets nothing that was come across. -/
theorem subset_collect (n : Nat) (c : Collection) (name : String) :
    c.visited ⊆ (g.collect p everything n c name).visited := by
  induction n generalizing c name with
  | zero => exact List.Subset.refl _
  | succ n ih =>
    have hvisit := List.subset_cons_self name c.visited
    have hwalk := g.walks_collect p everything n c name
    generalize g.collect p everything (n + 1) c name = c' at hwalk ⊢
    cases hwalk with
    | unknown | again => exact List.Subset.refl _
    | pass | stop => exact hvisit
    | @climb node =>
      have hadd : c.visited ⊆ ((c.visit name).add node).visited := hvisit
      exact List.foldlRecOn node.parents _ (motive := fun c' => c.visited ⊆ c'.visited) hadd
        fun c' hc' parent _ => List.Subset.trans hc' (ih c' parent)

/-- A walk is never cut off: with more steps than there are types to come across, their number
makes no difference. -/
theorem collect_eq_of_unseen_lt {n m : Nat} {c : Collection} {name : String}
    (hn : unseen g.names c.visited < n) (hm : unseen g.names c.visited < m) :
    g.collect p everything n c name = g.collect p everything m c name := by
  induction n generalizing m c name with
  | zero => omega
  | succ n ih =>
    obtain ⟨m, rfl⟩ : ∃ k, m = k + 1 := ⟨m - 1, by omega⟩
    -- The walks from the parents come one after another, each with no more to come across.
    have hfold : ∀ (parents : List String) (c : Collection), unseen g.names c.visited < n →
        unseen g.names c.visited < m → parents.foldl (g.collect p everything n) c =
          parents.foldl (g.collect p everything m) c := by
      intro parents
      induction parents with
      | nil => intros; rfl
      | cons parent rest ihrest =>
        intro c hcn hcm
        have hsub : unseen g.names (g.collect p everything n c parent).visited ≤
            unseen g.names c.visited := unseen_mono g.names (subset_collect n c parent)
        rw [List.foldl_cons, List.foldl_cons, ← ih hcn hcm]
        exact ihrest _ (by omega) (by omega)
    unfold collect
    split
    next => rfl
    next node hnode =>
      split
      next => rfl
      next hfresh =>
        have hlt := unseen_lt (List.subset_cons_self name c.visited) (mem_names_of_get? hnode)
          hfresh List.mem_cons_self
        dsimp only
        split
        next => rfl
        next =>
          split
          next => rfl
          next =>
            refine hfold node.parents _ ?_ ?_
            · exact hlt.trans_le (Nat.le_of_lt_succ hn)
            · exact hlt.trans_le (Nat.le_of_lt_succ hm)

end VocabularyCompiler.TypeGraph
