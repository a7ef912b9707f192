import VocabularyCompiler.Phrase.Synthesis
import VocabularyCompiler.Proofs.Phrase.Plural
import VocabularyCompiler.Proofs.Phrase.SpelledOut

/-!
# Noun phrases of names

Cutting a spelled-out name down to what stands behind its last point, without ` value`, and putting
that in the plural leaves words with single spaces between them (`isPhrase_nounPhrase`), provided
that the name was not cut in front of a space. Neither step brings in anything but small letters
(`notMem_nounPhrase`).
-/

namespace VocabularyCompiler.Phrase

open Text

section

variable {c : Char} {s t name phrase : List Char} {type : ValueType}

/-! ## Phrases -/

/-- At least one word, and single spaces between words. -/
def IsPhrase (s : List Char) : Prop := SinglySpaced s ∧ s ≠ []

/-- A space splits a phrase into two phrases. -/
theorem isPhrase_append_space_iff : IsPhrase (s ++ ' ' :: t) ↔ IsPhrase s ∧ IsPhrase t :=
  (and_iff_left (by simp)).trans singlySpaced_append_space_iff

theorem isPhrase_of_isWord (h : IsWord s) : IsPhrase s := ⟨h.singlySpaced, h.ne_nil⟩

theorem not_isPhrase_space (t : List Char) : ¬ IsPhrase (' ' :: t) := fun h => h.1.head rfl

theorem isPhrase_joinSpaces {ws : List (List Char)} (h : ∀ w ∈ ws, IsWord w) (hws : ws ≠ []) :
    IsPhrase (joinSpaces ws) := ⟨singlySpaced_joinSpaces h, joinSpaces_ne_nil h hws⟩

/-- A phrase is made of its words. -/
theorem IsPhrase.exists_words (h : IsPhrase phrase) :
    words phrase ≠ [] ∧ joinSpaces (words phrase) = phrase ∧ splitSpaces phrase = words phrase := by
  have hne := h.1.words_ne_nil h.2
  have hjoin := h.1.squeeze_eq
  refine ⟨hne, hjoin, ?_⟩
  have hsplit := splitSpaces_joinSpaces hne fun w hw hspace =>
    (isWord_of_mem_words hw).ne_space hspace rfl
  rwa [show joinSpaces (words phrase) = phrase from hjoin] at hsplit

/-- What is spelled out of a name in which a character is kept is a phrase. -/
theorem isPhrase_spellRest (h : IsAscii s) (hkept : ∃ c ∈ s, isSeparator c = false) :
    IsPhrase (spellRest s) := by
  refine ⟨singlySpaced_spellRest s, fun hnil => ?_⟩
  obtain ⟨c, hc, hsep⟩ := hkept
  have hmem : lowerAscii c ∈ keptLetters s := mem_keptLetters_iff.2 ⟨c, hc, hsep, rfl⟩
  rw [← filter_spellRest h, hnil] at hmem
  cases hmem

/-- What is no letter stands in a phrase only if it stands in the name. -/
theorem notMem_spellRest (h : IsAscii s) (halpha : c.isAlpha = false) (hspace : c ≠ ' ')
    (hc : c ∉ s) : c ∉ spellRest s := by
  intro hmem
  obtain ⟨d, hd, -, hlower⟩ := mem_keptLetters_iff.1 (mem_keptLetters_of_mem h hmem hspace)
  exact hc ((lowerAscii_eq_iff (h d hd) halpha).1 hlower ▸ hd)

/-! ## The last component -/

/-- The last component stands behind the last point. -/
theorem lastComponent_append (s : List Char) (ht : '.' ∉ t) :
    lastComponent (s ++ '.' :: t) = t := by
  have hone : t.splitOnP (· = '.') = [t] :=
    List.splitOnP_eq_singleton fun c hc => decide_eq_false fun h => ht (h ▸ hc)
  rw [lastComponent, splitWhere_eq_splitOnP, List.splitOnP_append_cons s t (by decide), hone,
    List.getLast?_concat]
  rfl

/-- Without a point the last component is the whole. -/
theorem lastComponent_of_notMem (hs : '.' ∉ s) : lastComponent s = s := by
  have hone : s.splitOnP (· = '.') = [s] :=
    List.splitOnP_eq_singleton fun c hc => decide_eq_false fun h => hs (h ▸ hc)
  rw [lastComponent, splitWhere_eq_splitOnP, hone]
  rfl

/-! ## The ending that is dropped -/

/-- A phrase stays as it is, or it ended in ` value`. -/
theorem dropValueSuffixChars_cases (s : List Char) :
    dropValueSuffixChars s = s ∨ s = dropValueSuffixChars s ++ valueSuffix := by
  unfold dropValueSuffixChars
  cases h : dropEnd? valueSuffix s with
  | none => exact Or.inl rfl
  | some rest => exact Or.inr (dropEnd?_eq_some_iff.1 h)

theorem dropValueSuffixChars_append (s : List Char) :
    dropValueSuffixChars (s ++ valueSuffix) = s := by
  rw [dropValueSuffixChars, dropEnd?_eq_some_iff.2 rfl]
  rfl

/-- What has no such ending stays as it is. -/
theorem dropValueSuffixChars_of_not_suffix (h : ¬ valueSuffix <:+ s) :
    dropValueSuffixChars s = s :=
  (dropValueSuffixChars_cases s).resolve_right fun heq => h (heq ▸ List.suffix_append _ _)

theorem dropValueSuffixChars_subset (s : List Char) : dropValueSuffixChars s ⊆ s := by
  intro c hc
  rcases dropValueSuffixChars_cases s with heq | heq
  · rwa [heq] at hc
  · rw [heq]
    exact List.mem_append_left _ hc

theorem IsPhrase.dropValueSuffixChars (h : IsPhrase s) : IsPhrase (dropValueSuffixChars s) := by
  rcases dropValueSuffixChars_cases s with heq | heq
  · rwa [heq]
  · rw [heq] at h
    exact (isPhrase_append_space_iff.1 h).1

/-- Behind a space, a last word is the last word of all. -/
theorem suffix_append_space_iff {w : List Char} (hw : ' ' ∉ w) :
    ' ' :: w <:+ s ++ ' ' :: t ↔ t = w ∨ ' ' :: w <:+ t := by
  constructor
  · intro h
    rcases List.suffix_or_suffix_of_suffix h (List.suffix_append s (' ' :: t)) with h | h
    · rcases List.suffix_cons_iff.1 h with h | h
      · exact Or.inl (List.cons.inj h).2.symm
      · exact Or.inr h
    · rcases List.suffix_cons_iff.1 h with h | h
      · exact Or.inl (List.cons.inj h).2
      · exact absurd (h.subset (List.mem_cons_self ..)) hw
  · rintro (rfl | h)
    · exact List.suffix_append s _
    · exact h.trans ((List.suffix_cons ' ' t).trans (List.suffix_append s _))

/-- What stands in front of a space has no part in the ending, unless the rest is `value`. -/
theorem dropValueSuffixChars_append_space (s : List Char) (ht : t ≠ "value".toList) :
    dropValueSuffixChars (s ++ ' ' :: t) = s ++ ' ' :: dropValueSuffixChars t := by
  by_cases hsuffix : valueSuffix <:+ t
  · obtain ⟨t, rfl⟩ := hsuffix
    have hregroup : s ++ ' ' :: (t ++ valueSuffix) = (s ++ ' ' :: t) ++ valueSuffix := by simp
    rw [hregroup, dropValueSuffixChars_append, dropValueSuffixChars_append]
  · rw [dropValueSuffixChars_of_not_suffix hsuffix, dropValueSuffixChars_of_not_suffix]
    rw [valueSuffix, suffix_append_space_iff (by decide), not_or]
    exact ⟨ht, hsuffix⟩

/-! ## Plurals -/

/-- The plural of a phrase is made of its words, with the plural of the head noun in its place. -/
theorem IsPhrase.exists_pluralizeChars (h : IsPhrase phrase) :
    ∃ before head after, words phrase = before ++ head :: after ∧
      IsHead mayHead before head after ∧
      pluralizeChars phrase = joinSpaces (before ++ pluralizeWordChars head :: after) ∧
      ∀ w ∈ before ++ pluralizeWordChars head :: after, IsWord w := by
  obtain ⟨hne, -, hsplit⟩ := h.exists_words
  obtain ⟨before, head, after, hwords, hhead⟩ := exists_isHead mayHead hne
  refine ⟨before, head, after, hwords, hhead,
    pluralizeChars_of_isHead hhead (hsplit.trans hwords), fun w hw => ?_⟩
  have hword : ∀ w ∈ before ++ head :: after, IsWord w := fun w hw =>
    isWord_of_mem_words (hwords ▸ hw)
  rw [List.forall_mem_append, List.forall_mem_cons] at hword
  rcases List.mem_append.1 hw with hw | hw
  · exact hword.1 w hw
  · rcases List.mem_cons.1 hw with rfl | hw
    · exact isWord_pluralizeWordChars hword.2.1
    · exact hword.2.2 w hw

theorem IsPhrase.pluralizeChars (h : IsPhrase phrase) : IsPhrase (pluralizeChars phrase) := by
  obtain ⟨before, head, after, -, -, heq, hwords⟩ := h.exists_pluralizeChars
  rw [heq]
  exact isPhrase_joinSpaces hwords (by simp)

/-- What is no small letter stands in the plural of a phrase only if it stands in the phrase. -/
theorem IsPhrase.notMem_pluralizeChars (h : IsPhrase phrase) (hlower : c.isLower = false)
    (hspace : c ≠ ' ') (hc : c ∉ phrase) : c ∉ Phrase.pluralizeChars phrase := by
  obtain ⟨before, head, after, hsplit, -, heq, hword⟩ := h.exists_pluralizeChars
  have hwords : c ∉ (words phrase).flatten := by
    rw [flatten_words]
    exact fun hmem => hc (List.mem_of_mem_filter hmem)
  rw [hsplit, List.flatten_append, List.flatten_cons, List.mem_append, List.mem_append] at hwords
  intro hmem
  rw [heq] at hmem
  have hplural := List.mem_filter (p := (· ≠ ' ')).2 ⟨hmem, decide_eq_true hspace⟩
  rw [filter_joinSpaces hword, List.flatten_append, List.flatten_cons, List.mem_append,
    List.mem_append] at hplural
  refine hwords (hplural.imp_right (Or.imp_left fun hhead => ?_))
  exact (mem_pluralizeWordChars hhead).resolve_right (by simp [hlower])

/-! ## Noun phrases -/

/-- A phrase, in the plural if the property holds several values. -/
def inNumber (type : ValueType) (phrase : List Char) : List Char :=
  if type.isArray then pluralizeChars phrase else phrase

theorem IsPhrase.inNumber (h : IsPhrase phrase) : IsPhrase (inNumber type phrase) := by
  unfold Phrase.inNumber
  split
  · exact h.pluralizeChars
  · exact h

/-- The noun phrase that is made of words: without ` value`, and in the plural if the property holds
several values. -/
def nounForm (type : ValueType) (phrase : List Char) : List Char :=
  inNumber type (dropValueSuffixChars phrase)

theorem nounForm_nil (type : ValueType) : nounForm type [] = [] := by
  unfold nounForm inNumber
  split
  all_goals decide

theorem IsPhrase.nounForm (h : IsPhrase phrase) : IsPhrase (nounForm type phrase) :=
  h.dropValueSuffixChars.inNumber

theorem nounPhrase_eq (name : List Char) (type : ValueType) :
    nounPhrase name type = nounForm type (lastComponent (spellOutChars name)) := rfl

/-- Without a point in it, a name is spoken of as a whole. -/
theorem nounPhrase_of_notMem (h : IsAscii name) (hdot : '.' ∉ name) (type : ValueType) :
    nounPhrase name type = nounForm type (spellOutChars name) := by
  have hspelled : '.' ∉ spellOutChars name :=
    notMem_spellRest (isAscii_dropSlotMarker h) (by decide) (by decide) fun hmem =>
      hdot ((dropSlotMarker_suffix name).subset hmem)
  rw [nounPhrase_eq, lastComponent_of_notMem hspelled]

/-- The noun phrase of a name without points is singly spaced and holds no other sign than the name
does. -/
theorem nounPhrase_plain (h : IsAscii name) (hdot : '.' ∉ name) (type : ValueType) :
    SinglySpaced (nounPhrase name type) ∧
      ∀ c, c.isAlpha = false → c ≠ ' ' → c ∉ name → c ∉ nounPhrase name type := by
  rw [nounPhrase_of_notMem h hdot]
  by_cases hnil : spellOutChars name = []
  · rw [hnil, nounForm_nil]
    exact ⟨singlySpaced_nil, fun _ _ _ _ => List.not_mem_nil⟩
  · have hspelled : IsPhrase (spellOutChars name) := ⟨singlySpaced_spellRest _, hnil⟩
    have hdropped := hspelled.dropValueSuffixChars
    refine ⟨hspelled.nounForm.1, fun c halpha hspace hc => ?_⟩
    have hnot : c ∉ dropValueSuffixChars (spellOutChars name) := fun hmem =>
      notMem_spellRest (isAscii_dropSlotMarker h) halpha hspace
        (fun hmem => hc ((dropSlotMarker_suffix name).subset hmem))
        (dropValueSuffixChars_subset _ hmem)
    unfold nounForm inNumber
    split
    · refine hdropped.notMem_pluralizeChars ?_ hspace hnot
      exact (Bool.or_eq_false_iff.1 halpha).2
    · exact hnot

end

end VocabularyCompiler.Phrase
