import VocabularyCompiler.Proofs.Phrase.Templates

/-!
# Dotted names

A dotted name is to be spoken of by its last component. But it is spelled out as a whole, and only
then cut at its points: a slot marker in the last component stays, and if that begins with a
separator or a capital letter, a space is left in front of it (`lastComponent_dotted`). The marker
is always heard (`ofNounPhrase_slotLetter_ne`), and the space is, unless what follows is a verb with
its object, of which only the two words are used (`ofNounPhrase_space_iff`). So it can be read off
the last component whether a dotted name is spoken of as it should be (`synthesize_dotted_iff`).
-/

namespace VocabularyCompiler.Phrase

open Text

section

variable {gap s name q n : List Char} {type : ValueType}

/-! ## The last component of a phrase -/

/-- Separators in front of a name belong to no word. -/
theorem spellRest_append_of_isSeparator (hgap : ∀ c ∈ gap, isSeparator c = true)
    (h : IsAscii (gap ++ s)) : spellRest (gap ++ s) = spellRest s := by
  induction gap with
  | nil => rfl
  | cons c gap ih =>
    obtain ⟨hc, hgap'⟩ := List.forall_mem_cons.1 hgap
    have hascii : IsAscii (gap ++ s) := (isAscii_cons_iff.1 h).2
    have hblank : isBlank (lowerAscii (openUp c)) = true := by
      have hopen := (isBlank_openUp c).trans hc
      rwa [lowerAscii_of_not_isCapital (isCapital_of_isSeparator
        (Bool.or_eq_true_iff.2 (Or.inr hopen)))]
    rw [← ih hgap' hascii, spellRest_eq h, spellRest_eq hascii, List.cons_append, List.map_cons,
      splitCamel_cons, List.map_cons, List.map_append, ← List.cons_append]
    refine squeeze_append_of_blank (List.forall_mem_cons.2 ⟨hblank, fun d hd => ?_⟩) _
    split at hd
    · rw [List.mem_singleton.1 hd]
      decide
    · cases hd

/-- A name in which a character is kept goes on from the first of these. -/
theorem exists_first_kept (h : ∃ c ∈ s, isSeparator c = false) :
    ∃ gap b t, s = gap ++ b :: t ∧ (∀ c ∈ gap, isSeparator c = true) ∧ isSeparator b = false := by
  have hsome : (s.find? fun c => !isSeparator c).isSome = true := by
    rw [List.find?_isSome]
    simpa using h
  obtain ⟨b, hfind⟩ := Option.isSome_iff_exists.1 hsome
  obtain ⟨hb, gap, t, rfl, hgap⟩ := List.find?_eq_some_iff_append.1 hfind
  exact ⟨gap, b, t, rfl, by simpa using hgap, by simpa using hb⟩

/-- What is spelled out of a name that ends in a point ends in it as well. -/
theorem exists_spellRest_concat_dot (h : IsAscii s) :
    ∃ u, spellRest (s ++ ['.']) = u ++ ['.'] := by
  have hkept := filter_spellRest (isAscii_append_iff.2 ⟨h, isAscii_cons_iff.2
    ⟨by decide, List.forall_mem_nil _⟩⟩ : IsAscii (s ++ ['.']))
  have hletters : keptLetters (s ++ ['.']) = keptLetters s ++ ['.'] := by
    rw [keptLetters, List.filter_append, List.map_append]
    rfl
  rw [hletters] at hkept
  rcases List.eq_nil_or_concat' (spellRest (s ++ ['.'])) with hnil | ⟨u, last, hlast⟩
  · rw [hnil] at hkept
    simp at hkept
  · have hspace : last ≠ ' ' := by
      rintro rfl
      exact (singlySpaced_spellRest _).last (by rw [hlast, List.getLast?_concat])
    have hone : [last].filter (· ≠ ' ') = [last] :=
      List.filter_cons_of_pos (decide_eq_true hspace)
    rw [hlast, List.filter_append, hone] at hkept
    refine ⟨u, hlast.trans ?_⟩
    rw [(List.append_inj' hkept rfl).2]

/-- A slot marker is looked for at the start of the whole name only. -/
theorem dropSlotMarker_dotted (q n : List Char) :
    dropSlotMarker (q ++ '.' :: n) = dropSlotMarker q ++ '.' :: n := by
  match q with
  | [] =>
    rcases dropSlotMarker_cases ('.' :: n) with h | ⟨c, hc, h⟩
    · exact h
    · rw [← (List.cons.inj h).1] at hc
      exact absurd hc (by decide)
  | [c] => rfl
  | c :: d :: q =>
    by_cases hd : d = '_'
    · subst hd
      by_cases hc : c ∈ slotLetters
      · simp [dropSlotMarker, hc]
      · simp [dropSlotMarker, hc]
    · simp [dropSlotMarker, hd]

/-- Whether a name begins with a separator or a capital letter, where a word begins. -/
def opensWord (name : List Char) : Bool := name.head?.any fun c => isSeparator c || isCapital c

/-- What stands behind the last point of a dotted name is the last component with its slot marker,
and with a space in front of it if a word begins there. -/
theorem lastComponent_dotted (h : IsAscii (q ++ '.' :: n)) (hdot : '.' ∉ n)
    (hkept : ∃ c ∈ n, isSeparator c = false) :
    lastComponent (spellOutChars (q ++ '.' :: n)) =
      (if opensWord n = true then [' '] else []) ++ spellRest n := by
  have hascii : IsAscii (dropSlotMarker q ++ '.' :: n) :=
    dropSlotMarker_dotted q n ▸ isAscii_dropSlotMarker h
  obtain ⟨gap, b, t, rfl, hgap, hb⟩ := exists_first_kept hkept
  obtain ⟨hq, hrest⟩ := isAscii_append_iff.1 hascii
  have hn : IsAscii (gap ++ b :: t) := (isAscii_cons_iff.1 hrest).2
  obtain ⟨u, hu⟩ := exists_spellRest_concat_dot hq
  -- A point is neither a capital letter nor a separator, so words begin behind it as anywhere.
  have hopens : (gap ≠ [] ∨ isCapital b = true ∧ isCapital '.' = false) ↔
      opensWord (gap ++ b :: t) = true := by
    cases gap with
    | nil => simp [opensWord, hb, show isCapital '.' = false by decide]
    | cons c gap => simp [opensWord, hgap c (List.mem_cons_self ..)]
  rw [spellOutChars_eq, dropSlotMarker_dotted,
    spellRest_append (by decide) hb hgap hascii, hu, List.append_assoc, List.singleton_append,
    lastComponent_append, spellRest_append_of_isSeparator hgap hn]
  · simp only [hopens]
  · have hspelled : '.' ∉ spellRest (b :: t) :=
      notMem_spellRest (fun c hc => hn c (List.mem_append_right _ hc)) (by decide) (by decide)
        fun hmem => hdot (List.mem_append_right _ hmem)
    intro hmem
    rcases List.mem_append.1 hmem with hmem | hmem
    · split at hmem
      · exact absurd (List.mem_singleton.1 hmem) (by decide)
      · cases hmem
    · exact hspelled hmem

/-- A slot marker that is not dropped is a word of its own. -/
theorem spellRest_slotMarker {c : Char} (hc : c ∈ slotLetters) (h : IsAscii (c :: '_' :: s))
    (hkept : ∃ d ∈ s, isSeparator d = false) :
    spellRest (c :: '_' :: s) = [c] ++ ' ' :: spellRest s := by
  obtain ⟨gap, b, t, rfl, hgap, hb⟩ := exists_first_kept hkept
  have hletters : ∀ c ∈ slotLetters,
      isSeparator c = false ∧ c.toNat < 128 ∧ isCapital c = false ∧ c ≠ '_' :=
    forall_mem_of_all (by decide)
  obtain ⟨hletter, hplain⟩ := hletters c hc
  have hword : IsWord [c] :=
    ⟨List.cons_ne_nil c [], by simpa using isBlank_of_not_isSeparator hletter⟩
  have hself : spellRest [c] = [c] :=
    spellOutChars_eq_self (by simpa using hplain) hword.singlySpaced
  have hgap' : ∀ d ∈ '_' :: gap, isSeparator d = true := List.forall_mem_cons.2 ⟨by decide, hgap⟩
  have hcut := spellRest_append (s := []) (t := t) hletter hb hgap' h
  rw [if_pos (Or.inl (List.cons_ne_nil '_' gap)), List.nil_append, List.nil_append,
    hself] at hcut
  have hrest : IsAscii (gap ++ b :: t) := (isAscii_cons_iff.1 (isAscii_cons_iff.1 h).2).2
  rw [spellRest_append_of_isSeparator hgap hrest]
  exact hcut

/-! ## Names with a slot marker -/

/-- The plural of a phrase has as many words, and only one of them may be another one. -/
theorem words_inNumber {phrase w : List Char} {ws : List (List Char)} (h : IsPhrase phrase)
    (hwords : words phrase = w :: ws) (type : ValueType) :
    ∃ v vs, words (inNumber type phrase) = v :: vs ∧ vs.length = ws.length ∧
      (v = w ∨ v = pluralizeWordChars w) := by
  unfold inNumber
  split
  · obtain ⟨before, head, after, hsplit, -, heq, hword⟩ := h.exists_pluralizeChars
    rw [heq, words_joinSpaces hword]
    rw [hwords] at hsplit
    cases before with
    | nil =>
      obtain ⟨rfl, rfl⟩ := List.cons.inj hsplit
      exact ⟨_, _, rfl, rfl, Or.inr rfl⟩
    | cons b before =>
      obtain ⟨rfl, rfl⟩ := List.cons.inj hsplit
      exact ⟨_, _, rfl, by simp, Or.inl rfl⟩
  · exact ⟨w, ws, hwords, rfl, Or.inl rfl⟩

/-- What is named first has fewer words than the phrase, unless it is the phrase. -/
theorem leadingNoun_eq_or_length_lt {phrase : List Char} (h : IsPhrase phrase) (type : ValueType) :
    leadingNoun phrase type = phrase ∨
      (words (leadingNoun phrase type)).length < (words phrase).length := by
  refine (leadingNoun_cases h type).imp_right fun ⟨start, heq⟩ => ?_
  have hstart : words start ≠ [] := by
    rw [heq] at h
    exact (isPhrase_append_space_iff.1 h).1.exists_words.1
  have hwords : words phrase = words start ++ words (leadingNoun phrase type) :=
    (congrArg words heq).trans (words_append_cons (by decide) _ _)
  rw [hwords, List.length_append]
  exact Nat.lt_add_of_pos_left (List.length_pos_iff.2 hstart)

/-- A word in front of a phrase is left when the ending is dropped, and so is the rest if it is not
the ending itself. -/
theorem words_dropValueSuffixChars_append {w : List Char} (hw : IsWord w) (s : List Char) :
    ∃ ws, words (dropValueSuffixChars (w ++ ' ' :: s)) = w :: ws ∧
      (s = "value".toList ∧ ws = [] ∨ ws = words (dropValueSuffixChars s)) := by
  by_cases hs : s = "value".toList
  · subst hs
    have hdrop : dropValueSuffixChars (w ++ ' ' :: "value".toList) = w :=
      dropValueSuffixChars_append w
    exact ⟨[], by rw [hdrop, hw.words_eq], Or.inl ⟨rfl, rfl⟩⟩
  · refine ⟨_, ?_, Or.inr rfl⟩
    rw [dropValueSuffixChars_append_space w hs, words_append_cons (by decide), hw.words_eq]
    rfl

/-- With a slot letter in front of it, a phrase begins with no verb, is another one and has no fewer
words. -/
theorem exists_words_slotLetter {c : Char} (hc : c ∈ slotLetters) (hs : IsPhrase s)
    (type : ValueType) :
    ∃ v vs, words (nounForm type ([c] ++ ' ' :: s)) = v :: vs ∧ ¬ IsFiniteVerb v ∧
      words (nounForm type s) ≠ v :: vs ∧ (words (nounForm type s)).length ≤ vs.length + 1 := by
  have hletters : ∀ c ∈ slotLetters, isBlank c = false ∧
      ∀ v ∈ [[c], pluralizeWordChars [c]], ¬ IsFiniteVerb v ∧
        v ∉ ["value".toList, pluralizeWordChars "value".toList] :=
    forall_mem_of_all (by decide +kernel)
  obtain ⟨hblank, hletter⟩ := hletters c hc
  have hword : IsWord [c] := ⟨List.cons_ne_nil c [], by simpa using hblank⟩
  have hlong := (isPhrase_append_space_iff.2 ⟨isPhrase_of_isWord hword, hs⟩).dropValueSuffixChars
  obtain ⟨ws, hwords, hrest⟩ := words_dropValueSuffixChars_append hword s
  obtain ⟨v, vs, hv, hvs, hone⟩ := words_inNumber hlong hwords type
  obtain ⟨u, us, hu⟩ := List.exists_cons_of_ne_nil hs.dropValueSuffixChars.exists_words.1
  obtain ⟨u', us', hu', hus', hone'⟩ := words_inNumber hs.dropValueSuffixChars hu type
  obtain ⟨hverb, hvalue⟩ := hletter v (by simpa using hone)
  have hshort : words (nounForm type s) = u' :: us' := hu'
  refine ⟨v, vs, hv, hverb, ?_⟩
  rw [hshort, List.length_cons, hus']
  rcases hrest with ⟨rfl, rfl⟩ | rfl
  · -- Only the letter is left of the longer one, and `value` of the other one.
    have hvalues : words (dropValueSuffixChars "value".toList) = ["value".toList] := by decide
    obtain ⟨rfl, rfl⟩ := List.cons.inj (hvalues.symm.trans hu)
    refine ⟨fun heq => hvalue ?_, Nat.succ_le_succ (Nat.zero_le _)⟩
    rw [← (List.cons.inj heq).1]
    simpa using hone'
  · rw [hu, List.length_cons] at hvs
    refine ⟨fun heq => ?_, by omega⟩
    have hlength := congrArg List.length (List.cons.inj heq).2
    omega

/-- A slot letter in front of a phrase is heard. -/
theorem ofNounPhrase_slotLetter_ne {c : Char} (hc : c ∈ slotLetters) (hs : IsPhrase s)
    (type : ValueType) :
    ofNounPhrase (nounForm type ([c] ++ ' ' :: s)) type ≠ ofNounPhrase (nounForm type s) type := by
  obtain ⟨v, vs, hwords, hverb, hother, hlength⟩ := exists_words_slotLetter hc hs type
  -- Equal sets name the same noun form first, and the longer phrase is named as a whole.
  intro heq
  have hfirst := congrArg (fun set => (set.get .property).head?) heq
  simp only [head?_property, leadingNoun_of_not_isFiniteVerb hwords hverb, Option.some.injEq,
    String.ofList_inj] at hfirst
  rcases leadingNoun_eq_or_length_lt (hs.nounForm : IsPhrase (nounForm type s)) type with h | h
  · rw [hfirst, h] at hwords
    exact hother hwords
  · rw [← hfirst, hwords, List.length_cons] at h
    omega

/-! ## Components that begin with a word -/

/-- No particle is a verb, nor is its plural. -/
theorem not_isFiniteVerb_of_particle {w v : List Char} (h : mayHead w = false)
    (hv : v = w ∨ v = pluralizeWordChars w) : ¬ IsFiniteVerb v := by
  have hparticle : ∀ p ∈ particles, ¬ IsFiniteVerb p.toList ∧
      ¬ IsFiniteVerb (pluralizeWordChars p.toList) := by
    decide +kernel
  have hmem : String.ofList w ∈ particles := by simpa [mayHead] using h
  have hw := hparticle _ hmem
  rw [String.toList_ofList] at hw
  rcases hv with rfl | rfl
  · exact hw.1
  · exact hw.2

/-- Behind a space, a phrase has its plural as if it stood alone, unless it is all particles: then
what is put in the plural is the nothing in front of the space. -/
theorem pluralizeChars_space (hs : IsPhrase s) :
    pluralizeChars (' ' :: s) = ' ' :: pluralizeChars s ∨
      pluralizeChars (' ' :: s) = ' ' :: s ∧ ∀ w ∈ words s, mayHead w = false := by
  obtain ⟨before, head, after, hwords, hhead, heq, -⟩ := hs.exists_pluralizeChars
  obtain ⟨-, hjoin, hsplit⟩ := hs.exists_words
  have hspace : splitSpaces (' ' :: s) = [] :: words s := congrArg ([] :: ·) hsplit
  rcases hhead with ⟨hmay, hafter⟩ | ⟨rfl, hhead, hbefore⟩
  · have hhead' : IsHead mayHead ([] :: before) head after := Or.inl ⟨hmay, hafter⟩
    refine Or.inl ?_
    rw [pluralizeChars_of_isHead hhead' (hspace.trans (congrArg _ hwords)), heq, List.cons_append,
      joinSpaces_cons_of_ne_nil [] (by simp)]
    rfl
  · have hnone : ∀ w ∈ words s, mayHead w = false := by
      rw [hwords]
      exact List.forall_mem_append.2 ⟨hbefore, by simpa using hhead⟩
    have hhead' : IsHead mayHead [] [] (words s) := Or.inl ⟨by decide, hnone⟩
    refine Or.inr ⟨?_, hnone⟩
    rw [pluralizeChars_of_isHead hhead' hspace, List.nil_append,
      joinSpaces_cons_of_ne_nil _ hs.exists_words.1, hjoin]
    rfl

/-- Behind a space, a phrase is what it is alone, with the space in front of it, unless neither is a
verb with its object. -/
theorem nounForm_space_cases (hs : IsPhrase s) (type : ValueType) :
    nounForm type (' ' :: s) =
        ' ' :: nounForm type s ∨
      (nounForm type (' ' :: s) = [] ∨
          ∃ rest, nounForm type (' ' :: s) = ' ' :: rest) ∧
        ∀ verb noun, ¬ IsVerbWithObject (nounForm type (' ' :: s)) verb noun ∧
          ¬ IsVerbWithObject (nounForm type s) verb noun := by
  obtain ⟨u, us, hu⟩ := List.exists_cons_of_ne_nil hs.dropValueSuffixChars.exists_words.1
  obtain ⟨v, vs, hv, hvs, hone⟩ := words_inNumber hs.dropValueSuffixChars hu type
  by_cases hvalue : s = "value".toList
  · -- There is one word at most, so neither is a verb with its object.
    subst hvalue
    have hnil : nounForm type (' ' :: "value".toList) = [] := nounForm_nil type
    have hvalues : words (dropValueSuffixChars "value".toList) = ["value".toList] := by decide
    refine Or.inr ⟨Or.inl hnil, fun verb noun => ⟨fun h => ?_, fun h => ?_⟩⟩
    · rw [hnil] at h
      exact absurd h.1 (by simp [words_nil])
    · have hlength := congrArg List.length (hv.symm.trans h.1)
      rw [← (List.cons.inj (hvalues.symm.trans hu)).2] at hvs
      simp [hvs] at hlength
  · have hdrop : dropValueSuffixChars (' ' :: s) = ' ' :: dropValueSuffixChars s :=
      dropValueSuffixChars_append_space [] hvalue
    unfold nounForm
    rw [hdrop]
    by_cases harray : type.isArray = true
    · simp only [inNumber, if_pos harray] at hv ⊢
      refine (pluralizeChars_space hs.dropValueSuffixChars).imp_right fun h => ?_
      obtain ⟨heq, hnone⟩ := h
      -- All words are particles, but a verb is none.
      have hparticle := hnone u (hu ▸ List.mem_cons_self ..)
      rw [heq]
      refine ⟨Or.inr ⟨_, rfl⟩, fun verb noun => ⟨fun h => ?_, fun h => ?_⟩⟩
      · have hverb := h.1
        rw [words_cons_of_blank (by decide), hu] at hverb
        exact not_isFiniteVerb_of_particle hparticle (Or.inl (List.cons.inj hverb).1.symm)
          h.isFiniteVerb
      · have hverb := (List.cons.inj (hv.symm.trans h.1)).1
        exact not_isFiniteVerb_of_particle hparticle hone (hverb ▸ h.isFiniteVerb)
    · refine Or.inl ?_
      simp only [inNumber, if_neg harray]

/-- Whether a phrase is heard as a verb with its object. -/
structure ReadsAsVerb (phrase : List Char) (type : ValueType) : Prop where
  /-- It is a verb with its object. -/
  verb : ∃ verb noun, IsVerbWithObject phrase verb noun
  /-- It does not lose its first word. -/
  auxiliary : ¬ BeginsWithAuxiliary phrase
  /-- It does not say how much of something there is. -/
  content : ¬ TellsContent phrase type

section

variable {phrase verb noun : List Char}

theorem isVerbWithObject_space_iff :
    IsVerbWithObject (' ' :: phrase) verb noun ↔ IsVerbWithObject phrase verb noun := by
  rw [IsVerbWithObject, words_cons_of_blank (by decide)]
  rfl

theorem not_beginsWithAuxiliary_space : ¬ BeginsWithAuxiliary (' ' :: phrase) := by
  simp [BeginsWithAuxiliary]

/-- Of a verb with its object only the two words are heard. -/
theorem ofNounPhrase_of_isVerbWithObject (h : IsVerbWithObject phrase verb noun)
    (hauxiliary : ¬ BeginsWithAuxiliary phrase) (hcontent : ¬ TellsContent phrase type) :
    ofNounPhrase phrase type =
      Reading.toPhraseSet ⟨some (.verb, verb ++ ' ' :: '#' :: noun), noun⟩ := by
  rw [ofNounPhrase_of_not hcontent, reading_of_not hauxiliary, readPhrase_of_isVerbWithObject h]

/-- What begins with a word that is dropped is not heard as a verb. -/
theorem defaultTag_of_beginsWithAuxiliary (hauxiliary : BeginsWithAuxiliary phrase)
    (hcontent : ¬ TellsContent phrase type) : (ofNounPhrase phrase type).defaultTag ≠ .verb := by
  rw [ofNounPhrase_of_not hcontent, (isPatterned_toPhraseSet phrase).default]
  rcases hauxiliary with ⟨rest, rfl⟩ | ⟨rest, rfl⟩
  · exact fun h => nomatch h
  · obtain ⟨pattern, hread, htags⟩ := exists_readPredicate rest
    rw [reading_is, hread]
    cases pattern with
    | none => exact fun h => nomatch h
    | some tag =>
      rintro (rfl : tag = .verb)
      exact absurd (htags .verb rfl) (by decide)

/-- Behind a space, a verb with its object is heard as if it stood alone. -/
theorem ReadsAsVerb.ofNounPhrase_space (h : ReadsAsVerb phrase type) :
    ofNounPhrase (' ' :: phrase) type = ofNounPhrase phrase type := by
  obtain ⟨⟨verb, noun, hverb⟩, hauxiliary, hcontent⟩ := h
  have hspace : ¬ TellsContent (' ' :: phrase) type := by
    rintro ⟨hmeasure, hsuffix⟩
    have hsuffix' : contentSuffix <:+ [] ++ ' ' :: phrase := hsuffix
    rcases (suffix_append_space_iff (by decide)).1 hsuffix' with rfl | h
    · have hone : words "content".toList = ["content".toList] := by decide
      exact absurd (hone.symm.trans hverb.1) (by simp)
    · exact hcontent ⟨hmeasure, h⟩
  rw [ofNounPhrase_of_isVerbWithObject (isVerbWithObject_space_iff.2 hverb)
      not_beginsWithAuxiliary_space hspace,
    ofNounPhrase_of_isVerbWithObject hverb hauxiliary hcontent]

/-- A verb with its object that is heard as if it stood alone loses no word. -/
theorem readsAsVerb_of_ofNounPhrase_space (hverb : IsVerbWithObject phrase verb noun)
    (hcontent : ¬ TellsContent (' ' :: phrase) type)
    (hsame : ofNounPhrase (' ' :: phrase) type = ofNounPhrase phrase type) :
    ReadsAsVerb phrase type := by
  have hcontent' : ¬ TellsContent phrase type := fun h =>
    hcontent ⟨h.1, h.2.trans (List.suffix_cons ' ' phrase)⟩
  refine ⟨⟨verb, noun, hverb⟩, fun hauxiliary => ?_, hcontent'⟩
  refine defaultTag_of_beginsWithAuxiliary hauxiliary hcontent' ?_
  rw [← hsame, ofNounPhrase_of_isVerbWithObject (isVerbWithObject_space_iff.2 hverb)
    not_beginsWithAuxiliary_space hcontent]
  rfl

/-- What is no phrase is said in phrases only if it is a verb with its object. -/
theorem exists_verb_of_templates (hauxiliary : ¬ BeginsWithAuxiliary phrase)
    (hnot : ¬ IsPhrase phrase)
    (hphrases : ∀ t ∈ templates (ofNounPhrase phrase type), IsPhrase t.toList) :
    ¬ TellsContent phrase type ∧ ∃ verb noun, IsVerbWithObject phrase verb noun := by
  have hfirst : leadingNoun phrase type ≠ phrase := fun heq => by
    have hphrase := hphrases _ (mem_templates_leadingNoun phrase type)
    rw [String.toList_ofList, heq] at hphrase
    exact hnot hphrase
  refine ⟨fun h => hfirst (leadingNoun_eq_self hauxiliary (Or.inl h)), ?_⟩
  by_contra hnone
  exact hfirst (leadingNoun_eq_self hauxiliary (Or.inr fun verb noun h => hnone ⟨verb, noun, h⟩))

end

/-- Behind a space, a phrase is heard as if it stood alone if and only if it is a verb with its
object. -/
theorem ofNounPhrase_space_iff (hs : IsPhrase s) (type : ValueType) :
    (ofNounPhrase (nounForm type (' ' :: s)) type = ofNounPhrase (nounForm type s) type ∧
      ∀ t ∈ templates (ofNounPhrase (nounForm type (' ' :: s)) type), IsPhrase t.toList) ↔
    ReadsAsVerb (nounForm type s) type := by
  have hphrase : IsPhrase (nounForm type s) := hs.nounForm
  rcases nounForm_space_cases hs type with heq | ⟨hstart, hnone⟩
  · rw [heq]
    refine ⟨fun ⟨hsame, hphrases⟩ => ?_, fun h => ⟨h.ofNounPhrase_space, fun t ht => ?_⟩⟩
    · obtain ⟨hcontent, verb, noun, hverb⟩ :=
        exists_verb_of_templates not_beginsWithAuxiliary_space (not_isPhrase_space _) hphrases
      exact readsAsVerb_of_ofNounPhrase_space (isVerbWithObject_space_iff.1 hverb) hcontent hsame
    · exact isPhrase_of_mem_templates hphrase (h.ofNounPhrase_space ▸ ht)
  · refine iff_of_false (fun ⟨_, hphrases⟩ => ?_) fun ⟨⟨verb, noun, hverb⟩, _, _⟩ =>
      (hnone verb noun).2 hverb
    have hbegins : ¬ BeginsWithAuxiliary (nounForm type (' ' :: s)) ∧
        ¬ IsPhrase (nounForm type (' ' :: s)) := by
      rcases hstart with heq | ⟨rest, heq⟩
      all_goals rw [heq]
      · exact ⟨by simp [BeginsWithAuxiliary], fun h => h.2 rfl⟩
      · exact ⟨not_beginsWithAuxiliary_space, not_isPhrase_space rest⟩
    obtain ⟨-, verb, noun, hverb⟩ := exists_verb_of_templates hbegins.1 hbegins.2 hphrases
    exact (hnone verb noun).1 hverb

/-! ## Phrase sets of dotted names -/

/-- A slot marker in the last component changes what is heard. -/
theorem ofNounPhrase_dotted_ne {c : Char} (hc : c ∈ slotLetters) (h : IsAscii (c :: '_' :: s))
    (type : ValueType)
    (hphrases : ∀ t ∈ templates
      (ofNounPhrase (nounForm type (spellRest (c :: '_' :: s))) type),
      IsPhrase t.toList) :
    ofNounPhrase (nounForm type (spellRest (c :: '_' :: s))) type ≠
      ofNounPhrase (nounForm type (spellRest s)) type := by
  have hs : IsAscii s := (isAscii_cons_iff.1 (isAscii_cons_iff.1 h).2).2
  by_cases hkept : ∃ d ∈ s, isSeparator d = false
  · rw [spellRest_slotMarker hc h hkept]
    exact ofNounPhrase_slotLetter_ne hc (isPhrase_spellRest hs hkept) type
  · -- Nothing is left behind the marker, and nothing is no phrase.
    have hseparators : ∀ d ∈ s, isSeparator d = true := by simpa using hkept
    have hempty : spellRest s = [] := by
      have happend := spellRest_append_of_isSeparator (s := []) hseparators (by simpa using hs)
      rw [List.append_nil] at happend
      exact happend.trans (by decide)
    rw [hempty, nounForm_nil]
    intro hsame
    rw [hsame] at hphrases
    obtain ⟨-, verb, noun, hverb⟩ := exists_verb_of_templates (by simp [BeginsWithAuxiliary])
      (fun h => h.2 rfl) hphrases
    exact absurd hverb.1 (by simp [words_nil])

/-- The phrases of a dotted name are those of its last component, and they are phrases indeed, if
and only if the last component has no slot marker and, where it begins with a separator or a capital
letter, is said by a verb with its object. -/
theorem synthesize_dotted_iff (q n : String) (type : ValueType) (policy : Policy) (manual : Bool)
    (hascii : IsAscii (q ++ "." ++ n).toList) (hdot : '.' ∉ n.toList)
    (halnum : ∃ c ∈ n.toList, c.isAlphanum = true)
    (hdotted : policy.canonicalOverride? (q ++ "." ++ n) manual = none)
    (hlast : policy.canonicalOverride? n manual = none) :
    (synthesize (q ++ "." ++ n) type policy manual = synthesize n type policy manual ∧
      ∀ t ∈ templates (synthesize (q ++ "." ++ n) type policy manual), IsPhrase t.toList) ↔
    dropSlotMarker n.toList = n.toList ∧
      (opensWord n.toList = true → ReadsAsVerb (nounPhrase n.toList type) type) := by
  have hname : (q ++ "." ++ n).toList = q.toList ++ '.' :: n.toList := by
    simp [String.toList_append]
  rw [synthesize_of_none hdotted, synthesize_of_none hlast]
  rw [hname] at hascii ⊢
  generalize n.toList = n at hascii hdot halnum ⊢
  have hn : IsAscii n := (isAscii_cons_iff.1 (isAscii_append_iff.1 hascii).2).2
  have hkept : ∃ c ∈ n, isSeparator c = false := by
    obtain ⟨c, hc, halnum⟩ := halnum
    exact ⟨c, hc, ascii_forall (P := fun c => c.isAlphanum = true → isSeparator c = false)
      (by decide) (hn c hc) halnum⟩
  rw [nounPhrase_of_notMem hn hdot, nounPhrase_eq, lastComponent_dotted hascii hdot hkept,
    spellOutChars_eq]
  rcases dropSlotMarker_cases n with hmarker | ⟨c, hc, hmarker⟩
  · rw [hmarker, and_iff_right rfl]
    have hphrase := isPhrase_spellRest hn hkept
    cases hopens : opensWord n with
    | true =>
      -- Both sets are made of the same phrase, but one of them behind a space.
      rw [if_pos rfl]
      exact (ofNounPhrase_space_iff hphrase type).trans ⟨fun h _ => h, fun h => h rfl⟩
    | false =>
      rw [if_neg Bool.false_ne_true, List.nil_append]
      exact iff_of_true ⟨rfl, fun t =>
        isPhrase_of_mem_templates hphrase.nounForm⟩ (fun h => nomatch h)
  · generalize dropSlotMarker n = rest at hmarker ⊢
    subst hmarker
    have hletters : ∀ c ∈ slotLetters, (isSeparator c || isCapital c) = false :=
      forall_mem_of_all (by decide)
    have hopens : opensWord (c :: '_' :: rest) = false := hletters c hc
    -- Alone, the component loses its marker, and behind the point it does not.
    rw [hopens, if_neg Bool.false_ne_true, List.nil_append]
    refine iff_of_false (fun ⟨hsame, hphrases⟩ => ?_) fun h => ?_
    · exact ofNounPhrase_dotted_ne hc hn type hphrases hsame
    · have hlength := congrArg List.length h.1
      simp only [List.length_cons] at hlength
      omega

/-- Of a dotted name whose last component begins with a small letter, that is all that is said. -/
theorem synthesize_dotted_iff_streetName :
    (IsAscii ("address" ++ "." ++ "streetName").toList ∧ '.' ∉ "streetName".toList ∧
      (∃ c ∈ "streetName".toList, c.isAlphanum = true) ∧
      Policy.standard.canonicalOverride? ("address" ++ "." ++ "streetName") false = none ∧
      Policy.standard.canonicalOverride? "streetName" false = none) ∧
    synthesize ("address" ++ "." ++ "streetName") .string .standard false =
      synthesize "streetName" .string .standard false ∧
    ∀ t ∈ templates (synthesize ("address" ++ "." ++ "streetName") .string .standard false),
      IsPhrase t.toList := by
  have hascii : IsAscii ("address" ++ "." ++ "streetName").toList := forall_mem_of_all (by decide)
  have hdotted : Policy.standard.canonicalOverride? ("address" ++ "." ++ "streetName") false =
      none := by
    decide +kernel
  have hlast : Policy.standard.canonicalOverride? "streetName" false = none := by decide +kernel
  refine ⟨⟨hascii, by decide, ⟨'s', by decide, rfl⟩, hdotted, hlast⟩, ?_⟩
  refine (synthesize_dotted_iff "address" "streetName" .string .standard false hascii (by decide)
    ⟨'s', by decide, rfl⟩ hdotted hlast).2 ⟨by decide, fun hopens => ?_⟩
  exact absurd hopens (by decide +kernel)

/-- Where the last component begins with a capital letter, a space is left in front of it. -/
theorem not_synthesize_dotted_street :
    Policy.standard.canonicalOverride? "address.Street" false = none ∧
      Policy.standard.canonicalOverride? "Street" false = none ∧
      " street" ∈ templates (synthesize "address.Street" .string .standard false) ∧
      ¬synthesize "address.Street" .string .standard false =
        synthesize "Street" .string .standard false := by
  decide +kernel

end

end VocabularyCompiler.Phrase
