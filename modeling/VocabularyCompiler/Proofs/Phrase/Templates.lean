import VocabularyCompiler.Proofs.Phrase.Patterns

/-!
# Templates

Whatever pattern a noun phrase follows, the phrases that are made of it are phrases again, singly
spaced and not empty (`isPhrase_of_mem_templates`). The noun form that is named first is one that
the noun phrase ends in (`leadingNoun_cases`), and it is the whole of it if that does not begin with
a finite verb (`leadingNoun_of_not_isFiniteVerb`).
-/

namespace VocabularyCompiler.Phrase

open Text

section

variable {phrase stem : List Char} {type : ValueType} {s : PhraseSet} {t : String}

/-! ## All phrases of a set -/

/-- All phrases of a set. -/
def templates (s : PhraseSet) : List String := s.phrases.values.flatten

/-- What a set is made up of is all that it says. -/
theorem IsPatterned.mem_templates {pattern : Option (PhraseTag × String)} {noun : String}
    (h : IsPatterned s pattern noun) (ht : t ∈ templates s) :
    (∃ e ∈ pattern, t = e.2) ∨ t = noun := by
  rw [templates, OrderedMap.values, h.entries] at ht
  cases pattern with
  | none => exact Or.inr (by simpa using ht)
  | some e => simpa using ht

/-- A stem is written as one word where the value stands. -/
theorem isWord_slot (h : SinglySpaced stem) :
    IsWord ('#' :: stem.map fun c => if c = ' ' then '_' else c) := by
  refine ⟨List.cons_ne_nil _ _, List.forall_mem_cons.2 ⟨by decide, fun c hc => ?_⟩⟩
  obtain ⟨d, hd, rfl⟩ := List.mem_map.1 hc
  split
  · decide
  next hspace => exact Bool.eq_false_iff.2 fun hblank => hspace (h.blank d hd hblank)

theorem templates_nutrientContent (stem : List Char) :
    templates (nutrientContent stem) =
      ["contains #" ++ String.ofList (stem.map fun c => if c = ' ' then '_' else c),
        String.ofList stem ++ " content", String.ofList stem, String.ofList stem ++ " amount"] :=
  rfl

/-- All that is said of how much there is of something is phrases, if that is one. -/
theorem isPhrase_of_mem_nutrientContent (h : IsPhrase stem)
    (ht : t ∈ templates (nutrientContent stem)) : IsPhrase t.toList := by
  rw [templates_nutrientContent] at ht
  simp only [List.mem_cons, List.not_mem_nil, or_false] at ht
  have hcontains : IsPhrase "contains".toList :=
    isPhrase_of_isWord ⟨by decide, forall_mem_of_all (by decide)⟩
  have hcontent : IsPhrase "content".toList :=
    isPhrase_of_isWord ⟨by decide, forall_mem_of_all (by decide)⟩
  have hamount : IsPhrase "amount".toList :=
    isPhrase_of_isWord ⟨by decide, forall_mem_of_all (by decide)⟩
  rcases ht with rfl | rfl | rfl | rfl
  all_goals simp only [String.toList_append, String.toList_ofList]
  · exact isPhrase_append_space_iff.2 ⟨hcontains, isPhrase_of_isWord (isWord_slot h.1)⟩
  · exact isPhrase_append_space_iff.2 ⟨h, hcontent⟩
  · exact h
  · exact isPhrase_append_space_iff.2 ⟨h, hamount⟩

/-- A phrase is read as a noun form that it ends in, and its template is a phrase. -/
theorem isPhrase_reading (h : IsPhrase phrase) :
    IsPhrase (reading phrase).noun ∧
      ((reading phrase).noun = phrase ∨ ∃ start, phrase = start ++ ' ' :: (reading phrase).noun) ∧
      ∀ e ∈ (reading phrase).pattern, IsPhrase e.2 := by
  rcases reading_cases phrase with
    ⟨verb, noun, hverb, -, hread⟩ | ⟨pattern, noun, hread, -, hnoun⟩
  · obtain ⟨heq, hv, hn⟩ := hverb.eq_append h.1
    rw [hread]
    refine ⟨isPhrase_of_isWord hn, Or.inr ⟨verb, heq⟩, fun e he => ?_⟩
    cases he
    refine isPhrase_append_space_iff.2 ⟨isPhrase_of_isWord hv, isPhrase_of_isWord ?_⟩
    exact ⟨List.cons_ne_nil _ _, List.forall_mem_cons.2 ⟨by decide, hn.solid⟩⟩
  · rw [hread]
    refine ⟨?_, hnoun, fun e he => ?_⟩
    · rcases hnoun with rfl | ⟨start, rfl⟩
      · exact h
      · exact (isPhrase_append_space_iff.1 h).2
    · obtain ⟨tag, -, rfl⟩ := Option.map_eq_some_iff.1 he
      rcases dropIs_cases phrase with heq | heq
      · rwa [heq]
      · rw [heq] at h
        exact (isPhrase_append_space_iff.1 h).2

/-- All that is said of a property is phrases, if its noun phrase is one. -/
theorem isPhrase_of_mem_templates (h : IsPhrase phrase)
    (ht : t ∈ templates (ofNounPhrase phrase type)) : IsPhrase t.toList := by
  by_cases hcontent : TellsContent phrase type
  · obtain ⟨stem, rfl, heq⟩ := ofNounPhrase_of_tellsContent hcontent
    exact isPhrase_of_mem_nutrientContent (isPhrase_append_space_iff.1 h).1 (heq ▸ ht)
  · obtain ⟨hnoun, -, hpattern⟩ := isPhrase_reading h
    rw [ofNounPhrase_of_not hcontent] at ht
    rcases (isPatterned_toPhraseSet phrase).mem_templates ht with ⟨e, he, rfl⟩ | rfl
    · obtain ⟨e, hmem, rfl⟩ := Option.map_eq_some_iff.1 he
      rw [String.toList_ofList]
      exact hpattern e hmem
    · rwa [String.toList_ofList]

/-! ## The noun form that is named first -/

/-- The noun form that is named first. -/
def leadingNoun (phrase : List Char) (type : ValueType) : List Char :=
  if TellsContent phrase type then phrase else (reading phrase).noun

theorem head?_property (phrase : List Char) (type : ValueType) :
    ((ofNounPhrase phrase type).get .property).head? =
      some (String.ofList (leadingNoun phrase type)) := by
  unfold leadingNoun
  split
  next hcontent =>
    obtain ⟨stem, rfl, heq⟩ := ofNounPhrase_of_tellsContent hcontent
    rw [heq, String.ofList_append]
    rfl
  next hcontent =>
    have hentry : (PhraseTag.property, [String.ofList (reading phrase).noun]) ∈
        (reading phrase).toPhraseSet.phrases.entries := by
      rw [(isPatterned_toPhraseSet phrase).entries]
      simp
    rw [ofNounPhrase_of_not hcontent, PhraseSet.get, OrderedMap.get?_eq_some_iff.2 hentry]
    rfl

theorem mem_templates_of_mem_get {tag : PhraseTag} (h : t ∈ s.get tag) : t ∈ templates s := by
  unfold PhraseSet.get at h
  cases hget : s.phrases.get? tag with
  | none =>
    rw [hget] at h
    cases h
  | some phrases =>
    rw [hget] at h
    have hentry := OrderedMap.get?_eq_some_iff.1 hget
    exact List.mem_flatten_of_mem (List.mem_map_of_mem hentry) h

theorem mem_templates_leadingNoun (phrase : List Char) (type : ValueType) :
    String.ofList (leadingNoun phrase type) ∈ templates (ofNounPhrase phrase type) :=
  mem_templates_of_mem_get (List.mem_of_head? (head?_property phrase type))

/-- What begins with none of the words that are dropped is named first as a whole, unless it is a
verb with its object. -/
theorem leadingNoun_eq_self (hauxiliary : ¬ BeginsWithAuxiliary phrase)
    (h : TellsContent phrase type ∨ ∀ verb noun, ¬ IsVerbWithObject phrase verb noun) :
    leadingNoun phrase type = phrase := by
  unfold leadingNoun
  split
  next => rfl
  next hcontent =>
    obtain ⟨pattern, hread, -⟩ := readPhrase_of_not (h.resolve_left hcontent)
    rw [reading_of_not hauxiliary, hread]

/-- A phrase ends in what is named first. -/
theorem leadingNoun_cases (h : IsPhrase phrase) (type : ValueType) :
    leadingNoun phrase type = phrase ∨
      ∃ start, phrase = start ++ ' ' :: leadingNoun phrase type := by
  unfold leadingNoun
  split
  · exact Or.inl rfl
  · exact (isPhrase_reading h).2.1

/-- Whether a word may be a finite verb in front of its object. -/
def IsFiniteVerb (w : List Char) : Prop :=
  PartOfSpeech.guess (lowerChars w) = .vbp ∨ PartOfSpeech.guess (lowerChars w) = .vbz

instance (w : List Char) : Decidable (IsFiniteVerb w) := inferInstanceAs (Decidable (_ ∨ _))

/-- The first word of a verb with its object is a finite verb. -/
theorem IsVerbWithObject.isFiniteVerb {verb noun : List Char}
    (h : IsVerbWithObject phrase verb noun) : IsFiniteVerb verb := by
  obtain ⟨-, v, o, htags, hv, -⟩ := h
  have hfirst : PartOfSpeech.guess (lowerChars verb) = v := (List.cons.inj htags).1
  rwa [IsFiniteVerb, hfirst]

/-- A phrase that does not begin with a finite verb is named first as a whole. -/
theorem leadingNoun_of_not_isFiniteVerb {w : List Char} {ws : List (List Char)}
    (hwords : words phrase = w :: ws) (hw : ¬ IsFiniteVerb w) (type : ValueType) :
    leadingNoun phrase type = phrase := by
  -- The words that are dropped are finite verbs themselves.
  have hauxiliary : ¬ BeginsWithAuxiliary phrase := by
    have hdropped : ∀ v ∈ ["has".toList, "is".toList], IsFiniteVerb v ∧ words v = [v] := by
      decide +kernel
    have hfirst : ∀ v ∈ ["has".toList, "is".toList], ∀ rest, phrase ≠ v ++ ' ' :: rest := by
      rintro v hv rest rfl
      rw [words_append_cons (by decide), (hdropped v hv).2] at hwords
      exact hw ((List.cons.inj hwords).1 ▸ (hdropped v hv).1)
    rintro (⟨rest, rfl⟩ | ⟨rest, rfl⟩)
    · exact hfirst "has".toList (by simp) rest rfl
    · exact hfirst "is".toList (by simp) rest rfl
  refine leadingNoun_eq_self hauxiliary (Or.inr fun verb noun hverb => hw ?_)
  have hfirst := (List.cons.inj (hwords.symm.trans hverb.1)).1
  exact hfirst ▸ hverb.isFiniteVerb

end

end VocabularyCompiler.Phrase
