import Mathlib.Data.List.Perm.Basic

/-!
# Steps in another order

When a state is made by one step after another, and states need only be the same in some sense, the
steps may be reordered as far as that leaves the state the same: a step may be moved past others
(`foldl_step_comm`), steps of one kind past those of another (`foldl_foldl_comm`), and all of them
may be put into any order (`foldl_perm`). What is the same may also be absent on both sides.
-/

namespace VocabularyCompiler

/-! ## Sameness of what may be absent -/

/-- A relation that everything has to itself is one that absent things have to each other too. -/
theorem optionRel_refl {α : Type _} {r : α → α → Prop} (h : ∀ a, r a a) :
    ∀ s : Option α, Option.Rel r s s
  | none => .none
  | some a => .some (h a)

theorem optionRel_trans {α : Type _} {r : α → α → Prop} (h : ∀ a b c, r a b → r b c → r a c) :
    ∀ s t u : Option α, Option.Rel r s t → Option.Rel r t u → Option.Rel r s u
  | _, _, _, .none, .none => .none
  | _, _, _, .some hst, .some htu => .some (h _ _ _ hst htu)

/-! ## Steps in either order -/

variable {σ ι κ : Type _} {r : σ → σ → Prop} {f : σ → ι → σ} {g : σ → κ → σ}

/-- Where a step may be made after any one of others instead of before it, it may be made after all
of them. -/
theorem foldl_step_comm (hrefl : ∀ s, r s s) (htrans : ∀ {s t u}, r s t → r t u → r s u)
    (hg : ∀ {s t} b, r s t → r (g s b) (g t b)) (hcomm : ∀ s a b, r (g (f s a) b) (f (g s b) a))
    (a : ι) (bs : List κ) (s : σ) : r (bs.foldl g (f s a)) (f (bs.foldl g s) a) := by
  induction bs generalizing s with
  | nil => exact hrefl _
  | cons b rest ih =>
    have hrest : r (rest.foldl g (g (f s a) b)) (rest.foldl g (f (g s b) a)) :=
      List.foldl_rel (hcomm s a b) fun b _ _ _ => hg b
    exact htrans hrest (ih (g s b))

/-- Where steps of two kinds may be made in either order, so may all of one kind and all of the
other. -/
theorem foldl_foldl_comm (hrefl : ∀ s, r s s) (htrans : ∀ {s t u}, r s t → r t u → r s u)
    (hf : ∀ {s t} a, r s t → r (f s a) (f t a)) (hg : ∀ {s t} b, r s t → r (g s b) (g t b))
    (hcomm : ∀ s a b, r (g (f s a) b) (f (g s b) a)) (as : List ι) (bs : List κ) (s : σ) :
    r (bs.foldl g (as.foldl f s)) (as.foldl f (bs.foldl g s)) := by
  induction as generalizing s with
  | nil => exact hrefl _
  | cons a rest ih =>
    have hstep := foldl_step_comm hrefl htrans hg hcomm a bs s
    exact htrans (ih (f s a)) (List.foldl_rel hstep fun a _ _ _ => hf a)

/-- Where two steps may be made in either order unless they are rivals, any order of steps without
rivals will do. -/
theorem foldl_perm {rivals : ι → ι → Prop} (hrefl : ∀ s, r s s)
    (htrans : ∀ {s t u}, r s t → r t u → r s u) (hsymm : ∀ {a b}, rivals a b → rivals b a)
    (hf : ∀ {s t} a, r s t → r (f s a) (f t a))
    (hcomm : ∀ s a b, ¬rivals a b → r (f (f s a) b) (f (f s b) a)) {as bs : List ι}
    (hperm : as.Perm bs) (hone : as.Pairwise fun a b => ¬rivals a b) (s : σ) :
    r (as.foldl f s) (bs.foldl f s) := by
  induction hperm generalizing s with
  | nil => exact hrefl s
  | cons a _ ih => exact ih (List.pairwise_cons.1 hone).2 (f s a)
  | swap a b rest =>
    have hrivals : ¬rivals b a := (List.pairwise_cons.1 hone).1 a List.mem_cons_self
    exact List.foldl_rel (hcomm s b a hrivals) fun a _ _ _ => hf a
  | trans hfirst _ ih ih' =>
    -- Being rivals is mutual, so the steps in between have none either.
    have hone' := (hfirst.pairwise_iff fun hnot h => hnot (hsymm h)).1 hone
    exact htrans (ih hone s) (ih' hone' s)

end VocabularyCompiler
