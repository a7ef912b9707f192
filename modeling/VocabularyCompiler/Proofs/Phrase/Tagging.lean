import Mathlib.Data.List.Chain
import VocabularyCompiler.Phrase.PartOfSpeech
import VocabularyCompiler.Proofs.Text.LetterCase

/-!
# Tags in context

The tags of a sequence of words are those of each word on its own, gone through once from left to
right. Each one is corrected after the one before it, which was corrected itself, so the pass is a
scan (`smooth_eq_tail_scanl`). One correction leaves no tag that clashes with the one before it
(`not_clashes_inContext`), hence none does in the end (`isChain_scanl_inContext`).
-/

namespace VocabularyCompiler.Phrase.PartOfSpeech

open Text

/-- The second part of speech cannot stand right after the first: no verb in the present tense
follows a determiner or an adjective, and what follows `to` is not such a verb in any person but the
third, and no noun in the singular. -/
def Clashes (previous current : PartOfSpeech) : Prop :=
  (previous = dt ∨ previous = jj) ∧ (current = vbz ∨ current = vbp) ∨
    previous = infinitiveTo ∧ (current = vbp ∨ current = nn)

/-! ## One correction -/

/-- What is left of a tag after a correction does not clash. -/
theorem not_clashes_inContext (previous current : PartOfSpeech) :
    ¬Clashes previous (inContext previous current) := by
  unfold inContext
  split <;> grind [Clashes]

/-- The tags that are corrected are those that clash. -/
theorem inContext_ne_self_iff {previous current : PartOfSpeech} :
    inContext previous current ≠ current ↔ Clashes previous current := by
  constructor
  · intro h
    unfold inContext at h
    split at h <;> grind [Clashes]
  · intro h heq
    exact not_clashes_inContext previous current (heq.symm ▸ h)

/-- After a noun every tag can stand. -/
theorem inContext_nn (current : PartOfSpeech) : inContext nn current = current := rfl

/-! ## The pass from left to right -/

/-- The tag that is corrected to and the corrected ones after it are a scan. -/
theorem cons_smoothAfter (previous : PartOfSpeech) (guesses : List PartOfSpeech) :
    previous :: smoothAfter previous guesses = guesses.scanl inContext previous := by
  induction guesses generalizing previous with
  | nil => rw [List.scanl_nil, smoothAfter]
  | cons current rest ih => rw [List.scanl_cons, ← ih, smoothAfter]

/-- The first tag stands as it does after a noun. -/
theorem smooth_eq_tail_scanl (guesses : List PartOfSpeech) :
    smooth guesses = (guesses.scanl inContext nn).tail := by
  rw [← cons_smoothAfter, List.tail_cons]
  cases guesses with
  | nil => rfl
  | cons first rest => rw [smooth, smoothAfter, inContext_nn]

/-- No tag of a scan clashes with the one before it. -/
theorem isChain_scanl_inContext (previous : PartOfSpeech) (guesses : List PartOfSpeech) :
    (guesses.scanl inContext previous).IsChain fun previous current => ¬Clashes previous current := by
  induction guesses generalizing previous with
  | nil => rw [List.scanl_nil]; exact List.isChain_singleton previous
  | cons current rest ih =>
    rw [List.scanl_cons, List.isChain_cons]
    refine ⟨fun next hnext => ?_, ih (inContext previous current)⟩
    rw [List.head?_scanl, Option.mem_some_iff] at hnext
    exact hnext ▸ not_clashes_inContext previous current

/-! ## The tags of words -/

/-- The tag of a word on its own. -/
def ownTag (token : String) : PartOfSpeech := guess (lowerChars token.toList)

/-- The tags of a sequence of words are a scan of their own tags. -/
theorem tag_eq_tail_scanl (tokens : List String) :
    tag tokens = ((tokens.map ownTag).scanl inContext nn).tail := by
  rw [tag, tagChars, smooth_eq_tail_scanl, List.map_map]
  rfl

theorem length_tag (tokens : List String) : (tag tokens).length = tokens.length := by
  rw [tag_eq_tail_scanl, List.length_tail, List.length_scanl, List.length_map, Nat.add_sub_cancel]

/-- No tag clashes with the one before it. -/
theorem isChain_tag (tokens : List String) :
    (tag tokens).IsChain fun previous current => ¬Clashes previous current := by
  rw [tag_eq_tail_scanl]
  exact (isChain_scanl_inContext nn _).tail

/-- The last tag, if there is one, is what the pass has come to. -/
theorem getD_getLast?_tag (tokens : List String) :
    (tag tokens).getLast?.getD nn = (tokens.map ownTag).foldl inContext nn := by
  rw [tag_eq_tail_scanl, List.getLast?_tail, List.length_scanl, List.getLast?_scanl]
  cases tokens <;> simp

/-- The tags of words are not changed by the words after them, whose tags are a scan that goes on
from the last tag. -/
theorem tag_append (tokens more : List String) :
    tag (tokens ++ more) = tag tokens ++
      ((more.map ownTag).scanl inContext ((tag tokens).getLast?.getD nn)).tail := by
  rw [getD_getLast?_tag, tag_eq_tail_scanl, tag_eq_tail_scanl, List.map_append, List.scanl_append,
    List.tail_append_of_ne_nil List.scanl_ne_nil]

/-- The tag of the next word is its own one, corrected after the last tag. -/
theorem tag_append_singleton (tokens : List String) (next : String) :
    tag (tokens ++ [next]) =
      tag tokens ++ [inContext ((tag tokens).getLast?.getD nn) (ownTag next)] := by
  rw [tag_append, List.map_singleton, List.scanl_singleton, List.tail_cons]

/-- Words have the same tags whatever the case of their ASCII letters. -/
theorem tag_recased {tokens recased : List String}
    (h : List.Forall₂ (fun s t => Recased s.toList t.toList) tokens recased) :
    tag recased = tag tokens := by
  have hown : recased.map ownTag = tokens.map ownTag := by
    induction h with
    | nil => rfl
    | cons hword _ ih => rw [List.map_cons, List.map_cons, ih, ownTag, hword.lowerChars_eq, ownTag]
  rw [tag_eq_tail_scanl, tag_eq_tail_scanl, hown]

/-- There is one tag for each word. The tags of the first words of a sequence are the first tags of
the sequence, and the case of ASCII letters does not matter. No tag clashes with the one before it;
and no tag is another than that of its word alone, unless that one would clash. -/
theorem tag_lawful (tokens : List String) :
    (tag tokens).length = tokens.length ∧
      (∀ more, tag tokens <+: tag (tokens ++ more)) ∧
      (∀ recased, List.Forall₂ (fun s t => Recased s.toList t.toList) tokens recased →
        tag recased = tag tokens) ∧
      ((tag tokens).IsChain fun previous current => ¬Clashes previous current) ∧
      ∀ next, ∃ own corrected, tag [next] = [own] ∧
        tag (tokens ++ [next]) = tag tokens ++ [corrected] ∧
        (corrected ≠ own ↔ ∃ previous ∈ (tag tokens).getLast?, Clashes previous own) := by
  refine ⟨length_tag tokens, fun more => ?_, fun recased h => tag_recased h, isChain_tag tokens,
    fun next => ⟨ownTag next, _, rfl, tag_append_singleton tokens next, ?_⟩⟩
  · rw [tag_append]
    exact List.prefix_append _ _
  · rw [inContext_ne_self_iff]
    cases (tag tokens).getLast? with
    | none => simp [Clashes]
    | some previous => simp

example : tag ["The", "works"] = [dt, nns] := by decide +kernel

end VocabularyCompiler.Phrase.PartOfSpeech
