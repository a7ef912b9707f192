import Mathlib.Data.List.Chain
import VocabularyCompiler.Text.Words

/-!
# Words and the spaces between them

The words of a text are cut at its white space, and all that is said of them here follows from one
equation (`words_append_cons`). Joined by single spaces again they make the text with its white
space squeezed. A text that is squeezed already, which is to say singly spaced, is the same after it
(`SinglySpaced.squeeze_eq`), and between any two characters that are kept a space is left if there
was white space between them, and none otherwise (`squeeze_append_blank`, `squeeze_append_solid`).
-/

namespace VocabularyCompiler.Text

/-! ## Beginnings and endings -/

/-- What follows a beginning is what is left when it is dropped. -/
theorem dropStart?_eq_some_iff {start s rest : List Char} :
    dropStart? start s = some rest ↔ s = start ++ rest := by
  rw [dropStart?]
  split
  next h =>
    obtain ⟨t, rfl⟩ := List.isPrefixOf_iff_prefix.1 h
    rw [List.drop_left, Option.some.injEq, List.append_cancel_left_eq]
  next h =>
    refine ⟨fun h' => (nomatch h'), fun h' => absurd ?_ h⟩
    rw [h', List.isPrefixOf_iff_prefix]
    exact List.prefix_append start rest

/-- Nothing is left of a text that does not begin as given. -/
theorem dropStart?_eq_none {start s : List Char} (h : ¬ start <+: s) : dropStart? start s = none :=
  if_neg fun h' => h (List.isPrefixOf_iff_prefix.1 h')

/-- What stands before an ending is what is left when it is dropped. -/
theorem dropEnd?_eq_some_iff {ending s rest : List Char} :
    dropEnd? ending s = some rest ↔ s = rest ++ ending := by
  rw [dropEnd?]
  split
  next h =>
    obtain ⟨t, rfl⟩ := List.isSuffixOf_iff_suffix.1 h
    rw [List.length_append, Nat.add_sub_cancel, List.take_left, Option.some.injEq,
      List.append_cancel_right_eq]
  next h =>
    refine ⟨fun h' => (nomatch h'), fun h' => absurd ?_ h⟩
    rw [h', List.isSuffixOf_iff_suffix]
    exact List.suffix_append rest ending

/-! ## Pieces between separators -/

/-- The pieces hold all but the separators, in its order. -/
theorem flatten_splitWhere {α : Type _} (p : α → Bool) (s : List α) :
    (splitWhere p s).flatten = s.filter fun c => !p c := by
  induction s with
  | nil => rfl
  | cons c s ih =>
    rw [splitWhere, List.filter_cons, ← ih]
    cases hc : p c
    · cases splitWhere p s <;> simp
    · simp

/-- No separator is in a piece. -/
theorem not_of_mem_splitWhere {α : Type _} {p : α → Bool} {s piece : List α}
    (hpiece : piece ∈ splitWhere p s) : ∀ c ∈ piece, p c = false := by
  intro c hc
  have hmem : c ∈ s.filter fun c => !p c :=
    flatten_splitWhere p s ▸ List.mem_flatten_of_mem hpiece hc
  simpa using (List.mem_filter.1 hmem).2

/-! ## Words -/

/-- A word is not empty and holds no white space. -/
structure IsWord (w : List Char) : Prop where
  ne_nil : w ≠ []
  solid : ∀ c ∈ w, isBlank c = false

section Words

variable {c : Char} {s t w : List Char} {ws : List (List Char)}

theorem words_nil : words [] = [] := rfl

/-- White space ends a word whatever stands before it. -/
theorem words_append_cons (hc : isBlank c = true) (s t : List Char) :
    words (s ++ c :: t) = words s ++ words t := by
  unfold words
  simp only [splitWhere_eq_splitOnP]
  rw [List.splitOnP_append_cons s t hc, List.filter_append]

/-- White space in front of a text belongs to no word. -/
theorem words_cons_of_blank (hc : isBlank c = true) (s : List Char) : words (c :: s) = words s :=
  words_append_cons hc [] s

/-- A word is the only word of itself. -/
theorem IsWord.words_eq (h : IsWord w) : words w = [w] := by
  unfold words
  rw [splitWhere_eq_splitOnP, List.splitOnP_eq_singleton h.solid]
  exact List.filter_eq_self.2 (by simpa using h.ne_nil)

/-- A character that stands right before a word belongs to it. -/
theorem words_cons_cons {d : Char} (hc : isBlank c = false) (hd : isBlank d = false)
    (s : List Char) : words (c :: d :: s) = (words (d :: s)).modifyHead (c :: ·) := by
  have hpiece : ∃ piece pieces, splitWhere isBlank (d :: s) = (d :: piece) :: pieces := by
    rw [splitWhere, if_neg (by simp [hd])]
    cases splitWhere isBlank s with
    | nil => exact ⟨_, _, rfl⟩
    | cons piece pieces => exact ⟨_, _, rfl⟩
  obtain ⟨piece, pieces, hpieces⟩ := hpiece
  unfold words
  rw [splitWhere, if_neg (by simp [hc]), hpieces]
  rfl

/-- The words hold all that is not white space, in its order. -/
theorem flatten_words (s : List Char) : (words s).flatten = s.filter fun c => !isBlank c := by
  -- Empty pieces add nothing, so all pieces may be counted.
  have hpieces : ∀ pieces : List (List Char),
      (pieces.filter fun w => !w.isEmpty).flatten = pieces.flatten := by
    intro pieces
    induction pieces with
    | nil => rfl
    | cons piece rest ih => cases piece <;> simp [ih]
  unfold words
  rw [hpieces, flatten_splitWhere]

/-- The words of a text are words. -/
theorem isWord_of_mem_words (hw : w ∈ words s) : IsWord w where
  ne_nil := by
    have hne := (List.mem_filter.1 hw).2
    simpa using hne
  solid := not_of_mem_splitWhere (List.mem_filter.1 hw).1

/-- A text has no words if and only if it is all white space. -/
theorem words_eq_nil_iff : words s = [] ↔ ∀ c ∈ s, isBlank c = true := by
  have hflat : words s = [] ↔ (words s).flatten = [] := by
    refine ⟨fun h => by rw [h]; rfl, fun h => List.eq_nil_iff_forall_not_mem.2 fun w hw => ?_⟩
    exact (isWord_of_mem_words hw).ne_nil (List.flatten_eq_nil_iff.1 h w hw)
  rw [hflat, flatten_words, List.filter_eq_nil_iff]
  simp

/-! ## Single spaces -/

@[simp]
theorem joinSpaces_nil : joinSpaces [] = [] := rfl

@[simp]
theorem joinSpaces_singleton (w : List Char) : joinSpaces [w] = w := List.intercalate_singleton

theorem joinSpaces_cons_of_ne_nil (w : List Char) (hws : ws ≠ []) :
    joinSpaces (w :: ws) = w ++ ' ' :: joinSpaces ws := by
  unfold joinSpaces
  rw [List.intercalate_cons_of_ne_nil hws, List.append_assoc]
  rfl

theorem joinSpaces_append {ws ws' : List (List Char)} (hws : ws ≠ []) (hws' : ws' ≠ []) :
    joinSpaces (ws ++ ws') = joinSpaces ws ++ ' ' :: joinSpaces ws' := by
  induction ws with
  | nil => exact absurd rfl hws
  | cons w ws ih =>
    cases ws with
    | nil => rw [joinSpaces_singleton, List.singleton_append, joinSpaces_cons_of_ne_nil w hws']
    | cons v vs =>
      rw [List.cons_append, joinSpaces_cons_of_ne_nil w (by simp), ih (by simp),
        joinSpaces_cons_of_ne_nil w (by simp), List.append_assoc, List.cons_append]

/-- Pieces without spaces are cut out again where they were joined. -/
theorem splitSpaces_joinSpaces {pieces : List (List Char)} (hne : pieces ≠ [])
    (h : ∀ w ∈ pieces, ' ' ∉ w) : splitSpaces (joinSpaces pieces) = pieces :=
  splitWhere_intercalate hne h

/-- White space stands in a text only as single spaces between words. -/
structure SinglySpaced (s : List Char) : Prop where
  blank : ∀ c ∈ s, isBlank c = true → c = ' '
  head : s.head? ≠ some ' '
  last : s.getLast? ≠ some ' '
  single : s.IsChain fun c d => c = ' ' → d ≠ ' '

theorem singlySpaced_nil : SinglySpaced [] := ⟨by simp, by simp, by simp, .nil⟩

/-- A text that is singly spaced has words if it is not empty. -/
theorem SinglySpaced.words_ne_nil (h : SinglySpaced s) (hs : s ≠ []) : words s ≠ [] := by
  intro hwords
  obtain ⟨c, t, rfl⟩ := List.exists_cons_of_ne_nil hs
  exact h.head (congrArg some (h.blank c (List.mem_cons_self ..)
    (words_eq_nil_iff.1 hwords c (List.mem_cons_self ..))))

/-- A word holds no space. -/
theorem IsWord.ne_space (h : IsWord w) (hc : c ∈ w) : c ≠ ' ' := by
  rintro rfl
  exact absurd (h.solid _ hc) (by decide)

/-- A word is singly spaced. -/
theorem IsWord.singlySpaced (h : IsWord w) : SinglySpaced w where
  blank c hc hblank := absurd hblank (by simp [h.solid c hc])
  head hhead := h.ne_space (List.mem_of_head? hhead) rfl
  last hlast := h.ne_space (List.mem_of_getLast? hlast) rfl
  single := (List.pairwise_of_forall_mem_list fun _ hc _ _ hspace =>
    absurd hspace (h.ne_space hc)).isChain

/-- A space splits a text that is singly spaced into two such texts, and neither is empty. -/
theorem singlySpaced_append_space_iff :
    SinglySpaced (s ++ ' ' :: t) ↔ (SinglySpaced s ∧ s ≠ []) ∧ SinglySpaced t ∧ t ≠ [] := by
  constructor
  · rintro ⟨hblank, hhead, hlast, hsingle⟩
    obtain ⟨hs, ht, hspace⟩ := List.isChain_append.1 hsingle
    have hs' : s ≠ [] := fun h => hhead (by rw [h]; rfl)
    have ht' : t ≠ [] := fun h => hlast (by rw [h]; simp)
    refine ⟨⟨⟨fun c hc => hblank c (List.mem_append_left _ hc), fun h => hhead ?_, fun h => ?_, hs⟩,
      hs'⟩, ⟨fun c hc => hblank c (by simp [hc]), fun h => ?_, fun h => hlast ?_,
        (List.isChain_cons.1 ht).2⟩, ht'⟩
    · rw [List.head?_append, h]
      rfl
    · exact hspace _ h _ rfl rfl rfl
    · exact (List.isChain_cons.1 ht).1 _ h rfl rfl
    · rw [List.getLast?_append_of_ne_nil _ (by simp), List.getLast?_cons_of_ne_nil ht', h]
  · rintro ⟨⟨hs, hs'⟩, ht, ht'⟩
    refine ⟨fun c hc hblank => ?_, fun h => hs.head ?_, fun h => ht.last ?_,
      List.isChain_append.2 ⟨hs.single, List.isChain_cons.2 ⟨fun d hd _ hspace => ht.head ?_,
        ht.single⟩, fun c hc d _ hspace => absurd ?_ hs.last⟩⟩
    · rcases List.mem_append.1 hc with hc | hc
      · exact hs.blank c hc hblank
      · rcases List.mem_cons.1 hc with rfl | hc
        · rfl
        · exact ht.blank c hc hblank
    · rwa [List.head?_append_of_ne_nil _ hs'] at h
    · rwa [List.getLast?_append_of_ne_nil _ (by simp), List.getLast?_cons_of_ne_nil ht'] at h
    · rw [← hspace]
      exact hd
    · rw [← hspace]
      exact hc

/-- Words joined by spaces make a text only if there is one. -/
theorem joinSpaces_ne_nil (h : ∀ w ∈ ws, IsWord w) (hws : ws ≠ []) : joinSpaces ws ≠ [] := by
  match ws with
  | [] => exact absurd rfl hws
  | [w] =>
    rw [joinSpaces_singleton]
    exact (h w (List.mem_singleton_self w)).ne_nil
  | w :: v :: vs =>
    rw [joinSpaces_cons_of_ne_nil w (List.cons_ne_nil v vs)]
    simp

/-- Words joined by spaces are singly spaced. -/
theorem singlySpaced_joinSpaces (h : ∀ w ∈ ws, IsWord w) : SinglySpaced (joinSpaces ws) := by
  induction ws with
  | nil => exact singlySpaced_nil
  | cons w ws ih =>
    obtain ⟨hw, hws⟩ := List.forall_mem_cons.1 h
    by_cases hne : ws = []
    · rw [hne, joinSpaces_singleton]
      exact hw.singlySpaced
    · rw [joinSpaces_cons_of_ne_nil w hne]
      exact singlySpaced_append_space_iff.2
        ⟨⟨hw.singlySpaced, hw.ne_nil⟩, ih hws, joinSpaces_ne_nil hws hne⟩

/-- Words are read back from where they were joined. -/
theorem words_joinSpaces (h : ∀ w ∈ ws, IsWord w) : words (joinSpaces ws) = ws := by
  induction ws with
  | nil => rfl
  | cons w ws ih =>
    obtain ⟨hw, hws⟩ := List.forall_mem_cons.1 h
    by_cases hne : ws = []
    · rw [hne, joinSpaces_singleton, hw.words_eq]
    · rw [joinSpaces_cons_of_ne_nil w hne, words_append_cons (by decide), hw.words_eq, ih hws]
      rfl

/-- Joined words hold what the words hold, apart from the spaces. -/
theorem filter_joinSpaces (h : ∀ w ∈ ws, IsWord w) :
    (joinSpaces ws).filter (· ≠ ' ') = ws.flatten := by
  induction ws with
  | nil => rfl
  | cons w ws ih =>
    obtain ⟨hw, hws⟩ := List.forall_mem_cons.1 h
    have hkept : w.filter (· ≠ ' ') = w :=
      List.filter_eq_self.2 fun c hc => decide_eq_true (hw.ne_space hc)
    by_cases hne : ws = []
    · rw [hne, joinSpaces_singleton, hkept]
      simp
    · rw [joinSpaces_cons_of_ne_nil w hne, List.filter_append, hkept, List.flatten_cons, ← ih hws]
      simp

/-! ## Squeezed white space -/

/-- A text with its white space squeezed to single spaces between words. -/
def squeeze (s : List Char) : List Char := joinSpaces (words s)

theorem singlySpaced_squeeze (s : List Char) : SinglySpaced (squeeze s) :=
  singlySpaced_joinSpaces fun _ => isWord_of_mem_words

/-- Squeezing leaves all that is not white space. -/
theorem filter_squeeze (s : List Char) :
    (squeeze s).filter (· ≠ ' ') = s.filter fun c => !isBlank c :=
  (filter_joinSpaces fun _ => isWord_of_mem_words).trans (flatten_words s)

/-- White space between words is squeezed to one space. -/
theorem squeeze_append_blank (hc : isBlank c = true) (hs : words s ≠ []) (ht : words t ≠ []) :
    squeeze (s ++ c :: t) = squeeze s ++ ' ' :: squeeze t := by
  unfold squeeze
  rw [words_append_cons hc, joinSpaces_append hs ht]

/-- White space in front of a text is squeezed away. -/
theorem squeeze_append_of_blank (hs : ∀ c ∈ s, isBlank c = true) (t : List Char) :
    squeeze (s ++ t) = squeeze t := by
  induction s with
  | nil => rfl
  | cons c s ih =>
    obtain ⟨hc, hs'⟩ := List.forall_mem_cons.1 hs
    rw [← ih hs', List.cons_append]
    exact congrArg joinSpaces (words_cons_of_blank hc _)

/-- A character in front of other words is kept, with a space behind it if white space follows. -/
theorem squeeze_cons_of_solid {d : Char} (hc : isBlank c = false) (ht : words (d :: t) ≠ []) :
    squeeze (c :: d :: t) =
      c :: ((if isBlank d = true then [' '] else []) ++ squeeze (d :: t)) := by
  have hword : IsWord [c] := ⟨by simp, by simpa using hc⟩
  by_cases hd : isBlank d = true
  · have hrest := words_cons_of_blank hd t
    rw [hrest] at ht
    rw [if_pos hd, squeeze, squeeze, hrest, ← List.singleton_append,
      words_append_cons hd, hword.words_eq, List.singleton_append, joinSpaces_cons_of_ne_nil _ ht]
    rfl
  · rw [if_neg hd, squeeze, squeeze, words_cons_cons hc (Bool.eq_false_iff.2 hd)]
    cases hwords : words (d :: t) with
    | nil => exact absurd hwords ht
    | cons w ws => exact List.intercalate_cons_cons_left

/-- Squeezing leaves two neighbours as they are if neither is white space. -/
theorem squeeze_append_solid {a b : Char} (ha : isBlank a = false) (hb : isBlank b = false)
    (s t : List Char) : squeeze (s ++ a :: b :: t) = squeeze (s ++ [a]) ++ squeeze (b :: t) := by
  have hword : ∀ s t, words (s ++ a :: t) ≠ [] := fun s t h =>
    absurd (words_eq_nil_iff.1 h a (by simp)) (by simp [ha])
  induction s with
  | nil =>
    have hone : squeeze [a] = [a] :=
      (congrArg joinSpaces (IsWord.words_eq ⟨by simp, by simpa using ha⟩)).trans
        (joinSpaces_singleton [a])
    have hnext : words (b :: t) ≠ [] := fun h =>
      absurd (words_eq_nil_iff.1 h b (List.mem_cons_self ..)) (by simp [hb])
    rw [List.nil_append, List.nil_append, hone, squeeze_cons_of_solid ha hnext,
      if_neg (by simp [hb])]
    rfl
  | cons c s ih =>
    by_cases hc : isBlank c = true
    · have hfront := squeeze_append_of_blank (s := [c]) (by simpa using hc)
      exact (hfront (s ++ a :: b :: t)).trans (ih.trans (congrArg (· ++ _) (hfront _).symm))
    · -- Both texts go on with the same character behind `c`.
      obtain ⟨d, u, hu⟩ := List.exists_cons_of_ne_nil (List.append_ne_nil_of_right_ne_nil s
        (List.cons_ne_nil a []))
      have hlong : s ++ a :: b :: t = d :: (u ++ b :: t) := by
        rw [← List.cons_append, ← hu, List.append_assoc]
        rfl
      have hc' := Bool.eq_false_iff.2 hc
      rw [List.cons_append, List.cons_append, hlong, hu,
        squeeze_cons_of_solid hc' (hlong ▸ hword s (b :: t)),
        squeeze_cons_of_solid hc' (hu ▸ hword s []), ← hlong, ih, hu, List.cons_append,
        List.append_assoc]

/-- Cut between two characters that are not white space, a text is squeezed as its two parts are,
with a space between them if there was white space. -/
theorem squeeze_append {a b : Char} {gap : List Char} (ha : isBlank a = false)
    (hb : isBlank b = false) (hgap : ∀ c ∈ gap, isBlank c = true) (s t : List Char) :
    squeeze (s ++ a :: (gap ++ b :: t)) =
      squeeze (s ++ [a]) ++ ((if gap = [] then [] else [' ']) ++ squeeze (b :: t)) := by
  cases gap with
  | nil => exact squeeze_append_solid ha hb s t
  | cons c gap =>
    obtain ⟨hc, hgap'⟩ := List.forall_mem_cons.1 hgap
    have hleft : words (s ++ [a]) ≠ [] := fun h =>
      absurd (words_eq_nil_iff.1 h a (by simp)) (by simp [ha])
    have hright : words (gap ++ b :: t) ≠ [] := fun h =>
      absurd (words_eq_nil_iff.1 h b (by simp)) (by simp [hb])
    rw [List.append_cons, List.cons_append, squeeze_append_blank hc hleft hright,
      squeeze_append_of_blank hgap', if_neg (List.cons_ne_nil c gap)]
    rfl

/-- A text that is singly spaced has nothing to squeeze. -/
theorem SinglySpaced.squeeze_eq (h : SinglySpaced s) : squeeze s = s := by
  induction hlength : s.length using Nat.strong_induction_on generalizing s with
  | _ n ih =>
    subst hlength
    by_cases hspace : ' ' ∈ s
    · -- What stands on either side of a space is shorter.
      obtain ⟨before, after, rfl⟩ := List.append_of_mem hspace
      obtain ⟨⟨hbefore, hne⟩, hafter, hne'⟩ := singlySpaced_append_space_iff.1 h
      have hlength : (before ++ ' ' :: after).length = before.length + (after.length + 1) := by simp
      rw [squeeze_append_blank (by decide) (hbefore.words_ne_nil hne) (hafter.words_ne_nil hne'),
        ih before.length (by omega) hbefore rfl, ih after.length (by omega) hafter rfl]
    · have hsolid : ∀ c ∈ s, isBlank c = false := fun c hc =>
        Bool.eq_false_iff.2 fun hblank => hspace (h.blank c hc hblank ▸ hc)
      by_cases hs : s = []
      · rw [hs]
        rfl
      · rw [squeeze, IsWord.words_eq ⟨hs, hsolid⟩, joinSpaces_singleton]

end Words

end VocabularyCompiler.Text
