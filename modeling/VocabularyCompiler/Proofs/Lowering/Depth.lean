import VocabularyCompiler.Proofs.Lowering.Outcome
import VocabularyCompiler.Proofs.TypeGraph.Nodes

/-!
# The bound on the steps of a lowering

A lowering stops at a list without an end when it has gone `depth` steps down. That is never too
early: whatever does not come to an end in so many steps does not do so in more of them, and what
does has the same result. A list whose elements are lists, and so on forever, runs out of any number
of steps. On the way through other lists no type is met twice before the next struct is entered, and
no struct is entered inside itself.
-/

namespace VocabularyCompiler.Lowering

open Relation (TransGen)

/-- A computation stops at a list without an end. -/
def RunsOut {α : Type} (x : Step α) (notes : Diagnostics) : Prop :=
  ∃ name, x.run notes = .error (.endlessList name)

/-- Two computations that do the same, unless both stop at a list without an end. -/
def Alike {α : Type} (x y : Step α) : Prop :=
  ∀ notes, x.run notes = y.run notes ∨ RunsOut x notes ∧ RunsOut y notes

/-- What stops at a list without an end does so whatever would come after. -/
theorem RunsOut.bind {α β : Type} {x : Step α} {notes : Diagnostics} (h : RunsOut x notes)
    (f : α → Step β) : RunsOut (x >>= f) notes := by
  obtain ⟨name, hrun⟩ := h
  exact ⟨name, by rw [StateT.run_bind, hrun]; rfl⟩

/-- To be alike is kept by whatever computations are put together from. -/
theorem Alike.congruence : Congruence Alike where
  pure _ _ := Or.inl rfl
  report _ _ := Or.inl rfl
  stop _ _ := Or.inl rfl
  bind {α β x y f g} hx hf notes := by
    rcases hx notes with hrun | ⟨hx, hy⟩
    · unfold RunsOut
      rw [StateT.run_bind, StateT.run_bind, hrun]
      cases y.run notes with
      | error e => exact Or.inl rfl
      | ok r => exact hf r.1 r.2
    · exact Or.inr ⟨hx.bind f, hy.bind g⟩

variable {l : Lowering} {hasGeo : Bool}

/-- The elements of a list, if they are lowered. -/
def ElementOf (l : Lowering) (item range : String) : Prop :=
  ∃ node, l.IsType range node ∧ node.classification.isItemList = true ∧
    l.Known (l.elementOf node) ∧ item = l.elementOf node

/-- To lower a list is to lower its elements. -/
theorem ElementOf.lowerStep_eq {item range : String} (h : l.ElementOf item range)
    (lower : List String → String → Step ValueType) (building : List String) :
    l.lowerStep hasGeo lower building range =
      lower building item >>= fun t => pure (.array t) := by
  obtain ⟨node, htype, hlist, hknown, rfl⟩ := h
  unfold lowerStep
  rw [htype.builtin, htype.found]
  dsimp only
  rw [if_pos hlist]
  exact if_pos hknown

/-- A list whose elements are lists, and so on forever, runs out of any number of steps. -/
theorem runsOut_of_not_acc {range : String} (h : ¬Acc l.ElementOf range) (n : Nat)
    (building : List String) (notes : Diagnostics) :
    RunsOut (l.lowerRange hasGeo n building range) notes := by
  induction n generalizing range with
  | zero => exact ⟨range, rfl⟩
  | succ n ih =>
    have hnext : ∃ item, l.ElementOf item range ∧ ¬Acc l.ElementOf item := by
      by_contra hnone
      exact h (.intro range fun item hitem => by_contra fun hacc => hnone ⟨item, hitem, hacc⟩)
    obtain ⟨item, hitem, hacc⟩ := hnext
    unfold lowerRange
    rw [hitem.lowerStep_eq]
    exact (ih hacc).bind _

/-- What every chain ends below is not below itself. -/
theorem not_rel_self_of_acc {α : Type} {R : α → α → Prop} {a : α} (h : Acc R a) : ¬R a a := by
  induction h with
  | intro a _ ih => exact fun haa => ih a haa haa

/-! ## Counting steps -/

/-- One more struct that is entered outweighs any number of lists up to the next one. -/
theorem unseen_append_mul_lt {building : List String} {range : String} {k : Nat}
    (hrange : range ∈ l.graph.names) (hnew : range ∉ building) (hk : k ≤ l.graph.size + 1)
    (k' : Nat) :
    unseen l.graph.names (building ++ [range]) * (l.graph.size + 2) + k <
      unseen l.graph.names building * (l.graph.size + 2) + k' := by
  have hlt : unseen l.graph.names (building ++ [range]) < unseen l.graph.names building :=
    unseen_lt (List.subset_append_left _ _) hrange hnew (by simp)
  have hmul := Nat.mul_le_mul_right (l.graph.size + 2) (Nat.succ_le_of_lt hlt)
  rw [Nat.succ_mul] at hmul
  omega

/-- The bound on the number of steps is above what can be taken inside any structs. -/
theorem unseen_mul_lt_depth (l : Lowering) (building : List String) {k : Nat}
    (hk : k ≤ l.graph.size + 1) :
    unseen l.graph.names building * (l.graph.size + 2) + k < l.depth := by
  have hmul := Nat.mul_le_mul_right (l.graph.size + 2) (l.graph.unseen_names_le building)
  have hdepth : l.depth = l.graph.size * (l.graph.size + 2) + (l.graph.size + 2) :=
    Nat.succ_mul _ _
  omega

/-- How many steps down the lowering of a range can take, inside some structs and behind the lists
`seen` since the last of them. -/
def stepsLeft (l : Lowering) (building seen : List String) : Nat :=
  unseen l.graph.names building * (l.graph.size + 2) + unseen l.graph.names seen

/-- One more list seen leaves fewer steps. -/
theorem stepsLeft_cons_lt {building seen : List String} {range : String}
    (hrange : range ∈ l.graph.names) (hnew : range ∉ seen) :
    l.stepsLeft building (range :: seen) < l.stepsLeft building seen :=
  Nat.add_lt_add_left
    (unseen_lt (List.subset_cons_self _ _) hrange hnew List.mem_cons_self) _

/-- One more struct entered leaves fewer steps, whatever lists were seen before. -/
theorem stepsLeft_append_lt {building : List String} (seen : List String) {range : String}
    (hrange : range ∈ l.graph.names) (hnew : range ∉ building) :
    l.stepsLeft (building ++ [range]) [] < l.stepsLeft building seen :=
  unseen_append_mul_lt hrange hnew (Nat.le_succ_of_le (l.graph.unseen_names_le [])) _

/-- The bound on the number of steps is above what is left at the start. -/
theorem stepsLeft_lt_depth (l : Lowering) : l.stepsLeft [] [] < l.depth :=
  l.unseen_mul_lt_depth [] (Nat.le_succ_of_le (l.graph.unseen_names_le []))

/-! ## Enough steps -/

/-- With more steps than are left, their number makes no difference. -/
theorem lowerRange_alike {n m : Nat} {building seen : List String} {range : String}
    (hseen : ∀ list ∈ seen, TransGen l.ElementOf range list)
    (hn : l.stepsLeft building seen < n) (hm : l.stepsLeft building seen < m) :
    Alike (l.lowerRange hasGeo n building range) (l.lowerRange hasGeo m building range) := by
  induction n generalizing m building seen range with
  | zero => omega
  | succ n ih =>
    by_cases hacc : Acc l.ElementOf range
    · obtain ⟨m, rfl⟩ : ∃ k, m = k + 1 := ⟨m - 1, by omega⟩
      have hcall : ∀ {building' seen' : List String} {range' : String},
          (∀ list ∈ seen', TransGen l.ElementOf range' list) →
          l.stepsLeft building' seen' < l.stepsLeft building seen →
            Alike (l.lowerRange hasGeo n building' range')
              (l.lowerRange hasGeo m building' range') := fun hseen' hlt =>
        ih hseen' (hlt.trans_le (Nat.le_of_lt_succ hn)) (hlt.trans_le (Nat.le_of_lt_succ hm))
      unfold lowerRange
      refine Alike.congruence.lowerStep fun q hq => ?_
      cases hq with
      | @element _ _ node hbuiltin hnode hlist hitem =>
        have helement : l.ElementOf (l.elementOf node) range :=
          ⟨node, ⟨hbuiltin, hnode⟩, hlist, hitem, rfl⟩
        -- A list that has been seen would be inside itself, and so on forever.
        have hnew : range ∉ seen := fun hmem =>
          not_rel_self_of_acc hacc.transGen (hseen range hmem)
        have hseen' : ∀ list ∈ range :: seen, TransGen l.ElementOf (l.elementOf node) list :=
          List.forall_mem_cons.2
            ⟨.single helement, fun list hmem => .head helement (hseen list hmem)⟩
        exact hcall hseen' (stepsLeft_cons_lt (TypeGraph.mem_names_of_get? hnode) hnew)
      | @member _ _ node decl choice array _ hnode _ _ _ hnew _ _ _ =>
        exact hcall (List.forall_mem_nil _)
          (stepsLeft_append_lt seen (TypeGraph.mem_names_of_get? hnode) hnew)
    · exact fun notes => Or.inr ⟨runsOut_of_not_acc hacc _ _ _, runsOut_of_not_acc hacc _ _ _⟩

/-- The bound on the steps is never too small: with any greater number of them the lowering of an
argument has the same result, unless it stops at a list without an end with either. -/
theorem lowerArgument_alike {n : Nat} (hn : l.depth ≤ n) (hasGeo : Bool) (range : String) :
    Alike (l.lowerArgument hasGeo range) (l.lowerRange hasGeo n [] range) :=
  lowerRange_alike (List.forall_mem_nil _) l.stepsLeft_lt_depth (l.stepsLeft_lt_depth.trans_le hn)

end VocabularyCompiler.Lowering
