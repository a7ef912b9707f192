import Mathlib.Data.Finset.Card

/-!
# What a walk has yet to see

A walk over finitely many things that never visits one twice ends, since every visit leaves fewer
of them unseen. The walks over type graphs count their steps down from a bound; the number of
things unseen is what has to stay below it.
-/

namespace VocabularyCompiler

variable {α : Type _} [DecidableEq α]

/-- How many of the things in `all` are not among those `seen`. -/
def unseen (all seen : List α) : Nat := (all.toFinset \ seen.toFinset).card

/-- No more things are unseen than there are. -/
theorem unseen_le_length (all seen : List α) : unseen all seen ≤ all.length :=
  (Finset.card_le_card Finset.sdiff_subset).trans all.toFinset_card_le

/-- Who has seen more has less to see. -/
theorem unseen_mono (all : List α) {seen more : List α} (h : seen ⊆ more) :
    unseen all more ≤ unseen all seen := by
  apply Finset.card_le_card
  intro a ha
  simp only [Finset.mem_sdiff, List.mem_toFinset] at ha ⊢
  exact ⟨ha.1, fun hs => ha.2 (h hs)⟩

/-- Who has seen more, and one of the things that there are among it, has strictly less to see. -/
theorem unseen_lt {all seen more : List α} {a : α} (h : seen ⊆ more) (ha : a ∈ all)
    (hold : a ∉ seen) (hnew : a ∈ more) : unseen all more < unseen all seen := by
  apply Finset.card_lt_card
  rw [Finset.ssubset_iff_of_subset]
  · exact ⟨a, by simp [ha, hold], by simp [hnew]⟩
  · intro b hb
    simp only [Finset.mem_sdiff, List.mem_toFinset] at hb ⊢
    exact ⟨hb.1, fun hs => hb.2 (h hs)⟩

end VocabularyCompiler
