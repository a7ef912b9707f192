import VocabularyCompiler.Proofs.Phrase.NounPhrase

/-!
# Patterns of phrases

The pattern of a phrase is chosen by the words that it begins and ends with and by their parts of
speech. Whatever is chosen, the template is the phrase itself without `is` (`reading_cases`), with
the place of the value marked in front of the second word where a verb stands with its object. So a
phrase set holds a noun phrase and at most one template (`synthesize_patterned`), in which all words
of the name are kept.
-/

namespace VocabularyCompiler.Phrase

open Text

section

variable {phrase rest verb noun : List Char} {type : ValueType}

/-! ## Readings -/

/-- Whether a phrase is a verb with its object. -/
def IsVerbWithObject (phrase verb noun : List Char) : Prop :=
  words phrase = [verb, noun] ∧
    ∃ v o, PartOfSpeech.tagChars [verb, noun] = [v, o] ∧ (v = .vbp ∨ v = .vbz) ∧ o.isNoun = true

/-- A verb with its object is these two words. -/
theorem IsVerbWithObject.eq_append (h : IsVerbWithObject phrase verb noun)
    (hphrase : SinglySpaced phrase) : phrase = verb ++ ' ' :: noun ∧ IsWord verb ∧ IsWord noun := by
  have hjoin := hphrase.squeeze_eq
  rw [squeeze, h.1, joinSpaces_cons_of_ne_nil verb (by simp), joinSpaces_singleton] at hjoin
  have hword : ∀ w ∈ [verb, noun], IsWord w := fun w hw => isWord_of_mem_words (h.1 ▸ hw)
  exact ⟨hjoin.symm, hword verb (by simp), hword noun (by simp)⟩

/-- A phrase without a leading `is`. -/
def dropIs (phrase : List Char) : List Char := (dropStart? ['i', 's', ' '] phrase).getD phrase

theorem dropIs_cases (phrase : List Char) :
    dropIs phrase = phrase ∨ phrase = ['i', 's'] ++ ' ' :: dropIs phrase := by
  unfold dropIs
  cases h : dropStart? ['i', 's', ' '] phrase with
  | none => exact Or.inl rfl
  | some rest =>
    have hphrase : phrase = ['i', 's', ' '] ++ rest := dropStart?_eq_some_iff.1 h
    exact Or.inr hphrase

theorem dropIs_eq_self (h : ¬ ['i', 's', ' '] <+: phrase) : dropIs phrase = phrase := by
  rw [dropIs, dropStart?_eq_none h]
  rfl

/-- The object of a verb is its noun form, and the value takes the place of the object. -/
theorem readPhrase_of_isVerbWithObject (h : IsVerbWithObject phrase verb noun) :
    readPhrase phrase = ⟨some (.verb, verb ++ ' ' :: '#' :: noun), noun⟩ := by
  obtain ⟨hwords, v, o, htags, rfl | rfl, hnoun⟩ := h
  all_goals simp [readPhrase, hwords, htags, hnoun]

/-- Every other phrase is its own noun form, and its own template if it has one. -/
theorem readPhrase_of_not (h : ∀ verb noun, ¬ IsVerbWithObject phrase verb noun) :
    ∃ pattern : Option PhraseTag, readPhrase phrase = ⟨pattern.map (·, phrase), phrase⟩ ∧
      ∀ tag ∈ pattern, tag ∈ [PhraseTag.reverseProperty, .passiveVerb, .verb] := by
  unfold readPhrase
  dsimp only
  split
  iterate 2
    next object verb noun htags hwords =>
      have hnot : ¬ object.isNoun = true := fun hnoun =>
        h verb noun ⟨hwords, _, object, hwords ▸ htags, by decide, hnoun⟩
      rw [if_neg hnot]
      exact ⟨some .verb, rfl, by decide⟩
  · exact ⟨some .verb, rfl, by decide⟩
  · exact ⟨some .verb, rfl, by decide⟩
  · split_ifs
    · exact ⟨some .reverseProperty, rfl, by decide⟩
    · exact ⟨some .passiveVerb, rfl, by decide⟩
    · exact ⟨none, rfl, by decide⟩

/-- What follows `is` is its own noun form, and its own template if it has one, which is no verb. -/
theorem exists_readPredicate (rest : List Char) :
    ∃ pattern : Option PhraseTag, readPredicate rest = ⟨pattern.map (·, rest), rest⟩ ∧
      ∀ tag ∈ pattern, tag ∈ [PhraseTag.reverseProperty, .passiveVerb] := by
  unfold readPredicate
  dsimp only
  split_ifs
  · exact ⟨some .reverseProperty, rfl, by decide⟩
  · exact ⟨some .passiveVerb, rfl, by decide⟩
  · exact ⟨none, rfl, by decide⟩

theorem reading_is (rest : List Char) : reading (['i', 's', ' '] ++ rest) = readPredicate rest :=
  rfl

/-- Whether a phrase begins with one of the words that are dropped. -/
def BeginsWithAuxiliary (phrase : List Char) : Prop :=
  ['h', 'a', 's', ' '] <+: phrase ∨ ['i', 's', ' '] <+: phrase

theorem reading_of_not (h : ¬ BeginsWithAuxiliary phrase) : reading phrase = readPhrase phrase := by
  rw [BeginsWithAuxiliary, not_or] at h
  rw [reading, dropStart?_eq_none h.1, dropStart?_eq_none h.2]

/-- How a phrase is read: as a verb with its object, or as a noun form that it ends in, with the
whole phrase without `is` as the template if there is one. -/
theorem reading_cases (phrase : List Char) :
    (∃ verb noun, IsVerbWithObject phrase verb noun ∧ ¬ BeginsWithAuxiliary phrase ∧
      reading phrase = ⟨some (.verb, verb ++ ' ' :: '#' :: noun), noun⟩) ∨
    ∃ (pattern : Option PhraseTag) (noun : List Char),
      reading phrase = ⟨pattern.map (·, dropIs phrase), noun⟩ ∧
      (∀ tag ∈ pattern, tag ∈ [PhraseTag.reverseProperty, .passiveVerb, .verb]) ∧
      (noun = phrase ∨ ∃ start, phrase = start ++ ' ' :: noun) := by
  by_cases hauxiliary : BeginsWithAuxiliary phrase
  · rcases hauxiliary with ⟨rest, rfl⟩ | ⟨rest, rfl⟩
    · exact Or.inr ⟨none, rest, rfl, by simp, Or.inr ⟨['h', 'a', 's'], rfl⟩⟩
    · obtain ⟨pattern, hread, htags⟩ := exists_readPredicate rest
      exact Or.inr ⟨pattern, rest, (reading_is rest).trans hread, fun tag htag =>
        List.mem_of_mem_take (i := 2) (htags tag htag), Or.inr ⟨['i', 's'], rfl⟩⟩
  · rw [reading_of_not hauxiliary]
    by_cases hverb : ∃ verb noun, IsVerbWithObject phrase verb noun
    · obtain ⟨verb, noun, hverb⟩ := hverb
      exact Or.inl ⟨verb, noun, hverb, hauxiliary, readPhrase_of_isVerbWithObject hverb⟩
    · obtain ⟨pattern, hread, htags⟩ := readPhrase_of_not fun verb noun h => hverb ⟨verb, noun, h⟩
      refine Or.inr ⟨pattern, phrase, ?_, htags, Or.inl rfl⟩
      rw [hread, dropIs_eq_self fun h => hauxiliary (Or.inr h)]

/-- Only what has a template can be read in a pattern, and of these there are three. -/
theorem tag_of_mem_pattern {e : PhraseTag × List Char} (h : e ∈ (reading phrase).pattern) :
    e.1 ∈ [PhraseTag.reverseProperty, .passiveVerb, .verb] := by
  rcases reading_cases phrase with ⟨verb, noun, -, -, hread⟩ | ⟨pattern, noun, hread, htags, -⟩
  · rw [hread] at h
    cases h
    exact List.mem_of_mem_drop (i := 2) (List.mem_singleton_self PhraseTag.verb)
  · rw [hread] at h
    obtain ⟨tag, htag, rfl⟩ := Option.map_eq_some_iff.1 h
    exact htags tag htag

/-- With the sign for the value deleted, a template is the phrase without `is`. -/
theorem filter_of_mem_pattern (hphrase : SinglySpaced phrase) (hsign : '#' ∉ phrase)
    {e : PhraseTag × List Char} (h : e ∈ (reading phrase).pattern) :
    e.2.filter (· ≠ '#') = dropIs phrase := by
  have hplain : ∀ s : List Char, '#' ∉ s → s.filter (· ≠ '#') = s := fun s hs =>
    List.filter_eq_self.2 fun c hc => decide_eq_true fun heq => hs (heq ▸ hc)
  rcases reading_cases phrase with ⟨verb, noun, hverb, hnot, hread⟩ | ⟨pattern, noun, hread, -, -⟩
  · have hjoin := (hverb.eq_append hphrase).1
    rw [hread] at h
    cases h
    rw [hjoin, List.mem_append, List.mem_cons, not_or, not_or] at hsign
    rw [dropIs_eq_self fun h => hnot (Or.inr h), List.filter_append, List.filter_cons_of_pos
      (by decide), List.filter_cons_of_neg (by decide), hplain verb hsign.1,
      hplain noun hsign.2.2, ← hjoin]
  · rw [hread] at h
    obtain ⟨tag, -, rfl⟩ := Option.map_eq_some_iff.1 h
    refine hplain _ fun hmem => hsign ?_
    rcases dropIs_cases phrase with heq | heq
    · exact heq ▸ hmem
    · rw [heq]
      exact List.mem_append_right _ (List.mem_cons_of_mem ' ' hmem)

/-! ## Phrase sets -/

/-- The ending of a phrase that says how much of something there is. -/
def contentSuffix : List Char := [' ', 'c', 'o', 'n', 't', 'e', 'n', 't']

/-- The phrase set of a noun phrase. -/
def ofNounPhrase (phrase : List Char) (type : ValueType) : PhraseSet :=
  match if type.isMeasure then dropEnd? contentSuffix phrase else none with
  | some stem => nutrientContent stem
  | none => (reading phrase).toPhraseSet

/-- The set of a property that has no phrases by table. -/
theorem synthesize_of_none {name : String} {policy : Policy} {manual : Bool}
    (h : policy.canonicalOverride? name manual = none) (type : ValueType) :
    synthesize name type policy manual = ofNounPhrase (nounPhrase name.toList type) type := by
  rw [synthesize, h]
  rfl

/-- Whether a phrase says how much of something there is. -/
def TellsContent (phrase : List Char) (type : ValueType) : Prop :=
  type.isMeasure = true ∧ contentSuffix <:+ phrase

instance (phrase : List Char) (type : ValueType) : Decidable (TellsContent phrase type) :=
  inferInstanceAs (Decidable (_ ∧ _))

theorem ofNounPhrase_of_tellsContent (h : TellsContent phrase type) :
    ∃ stem, phrase = stem ++ contentSuffix ∧ ofNounPhrase phrase type = nutrientContent stem := by
  obtain ⟨hmeasure, stem, rfl⟩ := h
  refine ⟨stem, rfl, ?_⟩
  rw [ofNounPhrase, if_pos hmeasure, dropEnd?_eq_some_iff.2 rfl]

theorem ofNounPhrase_of_not (h : ¬ TellsContent phrase type) :
    ofNounPhrase phrase type = (reading phrase).toPhraseSet := by
  have hnone : (if type.isMeasure then dropEnd? contentSuffix phrase else none) = none := by
    rw [ite_eq_right_iff]
    intro hmeasure
    rw [Option.eq_none_iff_forall_ne_some]
    exact fun stem hstem => h ⟨hmeasure, stem, (dropEnd?_eq_some_iff.1 hstem).symm⟩
  rw [ofNounPhrase, hnone]

/-- How a phrase set is made up of a noun phrase and, at most, one pattern with its template. -/
structure IsPatterned (s : PhraseSet) (pattern : Option (PhraseTag × String)) (noun : String) :
    Prop where
  /-- There are three patterns. -/
  tag : ∀ e ∈ pattern, e.1 ∈ [PhraseTag.reverseProperty, .passiveVerb, .verb]
  /-- If there is a pattern, it is preferred. -/
  default : s.defaultTag = (pattern.map Prod.fst).getD .property
  /-- A template stands under the pattern, and the noun phrase under `property` and `base`. -/
  entries : s.phrases.entries =
    (pattern.toList.map fun e => (e.1, [e.2])) ++ [(.property, [noun]), (.base, [noun])]

theorem IsPatterned.get_ne_nil {s : PhraseSet} {pattern : Option (PhraseTag × String)}
    {noun : String} (h : IsPatterned s pattern noun) : s.get s.defaultTag ≠ [] := by
  have hentry : ∃ one, (s.defaultTag, [one]) ∈ s.phrases.entries := by
    rw [h.entries, h.default]
    cases pattern with
    | none => exact ⟨noun, by simp⟩
    | some e => exact ⟨e.2, by simp⟩
  obtain ⟨one, hone⟩ := hentry
  rw [PhraseSet.get, OrderedMap.get?_eq_some_iff.2 hone]
  exact List.cons_ne_nil one []

/-- The set of a reading is made up as it says. -/
theorem isPatterned_toPhraseSet (phrase : List Char) :
    IsPatterned (reading phrase).toPhraseSet
      ((reading phrase).pattern.map fun e => (e.1, String.ofList e.2))
      (String.ofList (reading phrase).noun) := by
  have htags : ∀ e ∈ (reading phrase).pattern,
      e.1 ∈ [PhraseTag.reverseProperty, .passiveVerb, .verb] := fun _ => tag_of_mem_pattern
  generalize reading phrase = r at htags ⊢
  obtain ⟨pattern, noun⟩ := r
  cases pattern with
  | none => exact ⟨by simp, rfl, rfl⟩
  | some e =>
    obtain ⟨tag, template⟩ := e
    have htag := htags (tag, template) rfl
    refine ⟨by simpa using htag, ?_, ?_⟩
    all_goals
      simp only [List.mem_cons, List.not_mem_nil, or_false] at htag
      rcases htag with rfl | rfl | rfl <;> rfl

/-- The phrase that a property is spoken of by, as long as no point is in its name. -/
def phraseOf (name : String) (type : ValueType) : String :=
  let phrase := dropValueSuffix (spellOut name)
  if type.isArray then pluralize phrase else phrase

theorem toList_phraseOf {name : String} (h : IsAscii name.toList) (hdot : '.' ∉ name.toList)
    (type : ValueType) : (phraseOf name type).toList = nounPhrase name.toList type := by
  rw [nounPhrase_of_notMem h hdot, phraseOf, spellOut, dropValueSuffix, nounForm, inNumber]
  split
  all_goals simp only [pluralize, String.toList_ofList]

/-- The phrases of a property that has none by table. A content has its own three noun phrases
beside a template; every other property has one noun phrase, and at most one template, which then
is preferred. If no point is in the name, no word of it is lost in the template, apart from `is`. -/
theorem synthesize_patterned (name : String) (type : ValueType) (policy : Policy) (manual : Bool)
    (h : policy.canonicalOverride? name manual = none) :
    let s := synthesize name type policy manual
    let phrase := nounPhrase name.toList type
    s.get s.defaultTag ≠ [] ∧
      (TellsContent phrase type →
        s.defaultTag = .property ∧ s.phrases.keys = [.verb, .property]) ∧
      (¬ TellsContent phrase type →
        ∃ pattern noun, IsPatterned s pattern noun ∧
          (IsAscii name.toList → '.' ∉ name.toList → '#' ∉ name.toList →
            ∀ e ∈ pattern, e.2.toList.filter (· ≠ '#') = dropIs (phraseOf name type).toList)) := by
  intro s phrase
  have hs : s = ofNounPhrase phrase type := synthesize_of_none h type
  rw [hs]
  by_cases hcontent : TellsContent phrase type
  · obtain ⟨stem, -, heq⟩ := ofNounPhrase_of_tellsContent hcontent
    rw [heq]
    exact ⟨List.cons_ne_nil _ _, fun _ => ⟨rfl, rfl⟩, fun hnot => absurd hcontent hnot⟩
  · have hpatterned := isPatterned_toPhraseSet phrase
    rw [ofNounPhrase_of_not hcontent]
    refine ⟨hpatterned.get_ne_nil, fun h => absurd h hcontent, fun _ => ⟨_, _, hpatterned, ?_⟩⟩
    intro hascii hdot hsign e he
    obtain ⟨e, hmem, rfl⟩ := Option.map_eq_some_iff.1 he
    obtain ⟨hspaced, hsigns⟩ := nounPhrase_plain hascii hdot type
    rw [toList_phraseOf hascii hdot, String.toList_ofList]
    exact filter_of_mem_pattern hspaced (hsigns '#' (by decide) (by decide) hsign) hmem

/-- The cuisine that is served stands where the value is put, and both words are kept. -/
theorem synthesize_patterned_servesCuisine :
    Policy.standard.canonicalOverride? "servesCuisine" false = none ∧
      let s := synthesize "servesCuisine" .string .standard false
      s.get s.defaultTag ≠ [] ∧ ∃ pattern noun, IsPatterned s pattern noun ∧
        ∀ e ∈ pattern, e.2.toList.filter (· ≠ '#') = "serves cuisine".toList := by
  have hnone : Policy.standard.canonicalOverride? "servesCuisine" false = none := by
    decide +kernel
  have hphrase : (dropIs (phraseOf "servesCuisine" .string).toList) = "serves cuisine".toList := by
    decide +kernel
  have hascii : IsAscii "servesCuisine".toList := forall_mem_of_all (by decide)
  obtain ⟨hdefault, -, hpattern⟩ :=
    synthesize_patterned "servesCuisine" .string .standard false hnone
  obtain ⟨pattern, noun, hpatterned, htemplate⟩ := hpattern fun h => absurd h.1 (by decide)
  rw [hphrase] at htemplate
  exact ⟨hnone, hdefault, pattern, noun, hpatterned, htemplate hascii (by decide) (by decide)⟩

end

end VocabularyCompiler.Phrase
