import VocabularyCompiler.Phrase.Plural
import VocabularyCompiler.Proofs.Text.Ascii
import VocabularyCompiler.Proofs.Text.Words

/-!
# Plurals of plurals

A plural that the rules make should be left alone by them. That holds of nouns from the lists and of
all that ends like a plural (`pluralizeWordChars_of_endsPlural`), and the rules make such an ending
out of every noun but those in `i` and `u`: their plurals in `is` and `us` are taken for singulars.
So the plural of a phrase is its own plural if and only if its head noun is `alumni` or does not end
in these letters (`pluralize_pluralize_iff`).
-/

namespace VocabularyCompiler.Phrase

open Text

/-! ## Plurals of words -/

section Word

variable {w : List Char}

/-- Whether a word ends like a plural in `s`. -/
def endsPlural (w : List Char) : Bool :=
  ['s'].isSuffixOf w && !(['s', 's'].isSuffixOf w) && !(['u', 's'].isSuffixOf w) &&
    !(['i', 's'].isSuffixOf w)

/-- Whether a word ends in one of the letters that, with an `s` behind them, look like the ending of
a singular. -/
def endsOpen (w : List Char) : Bool := ['i'].isSuffixOf w || ['u'].isSuffixOf w

/-- Whether a word ends like a singular in `s` that is not doubled. -/
def endsSingular (w : List Char) : Bool := ['i', 's'].isSuffixOf w || ['u', 's'].isSuffixOf w

theorem endsSingular_append_s (w : List Char) : endsSingular (w ++ ['s']) = endsOpen w := by
  simp [endsSingular, endsOpen, List.isSuffixOf]

theorem endsPlural_append (stem : List Char) : endsPlural (stem ++ ['e', 's']) = true := by
  simp [endsPlural, List.isSuffixOf, List.isPrefixOf]

/-- What the endings make of a word: it is left alone, or it gets an ending in `es`, or an `s` is
put behind another letter. -/
theorem pluralByEnding_cases (w : List Char) :
    (endsPlural w = true ∧ pluralByEnding w = w) ∨
      (∃ stem, pluralByEnding w = stem ++ ['e', 's']) ∨
      (['s'].isSuffixOf w = false ∧ pluralByEnding w = w ++ ['s']) := by
  unfold pluralByEnding
  dsimp only
  split_ifs with hplural hsibilant his hy hfe
  · exact Or.inl ⟨hplural, rfl⟩
  · exact Or.inr (Or.inl ⟨w, rfl⟩)
  · exact Or.inr (Or.inl ⟨_, rfl⟩)
  · exact Or.inr (Or.inl ⟨_ ++ ['i'], by rw [List.append_assoc]; rfl⟩)
  · exact Or.inr (Or.inl ⟨_ ++ ['v'], by rw [List.append_assoc]; rfl⟩)
  · refine Or.inr (Or.inr ⟨Bool.eq_false_iff.2 fun hs => hplural ?_, rfl⟩)
    simp only [Bool.or_eq_true, not_or, Bool.not_eq_true] at hsibilant his
    simp only [hs, hsibilant, his, Bool.not_false, Bool.and_self]

/-- All words but those in `i` and `u` get the ending of a plural. -/
theorem endsPlural_pluralByEnding (h : endsOpen w = false) :
    endsPlural (pluralByEnding w) = true := by
  rcases pluralByEnding_cases w with ⟨hplural, heq⟩ | ⟨stem, heq⟩ | ⟨hs, heq⟩
  · rw [heq, hplural]
  · rw [heq, endsPlural_append]
  · rw [heq]
    unfold endsOpen at h
    simp only [List.isSuffixOf, List.reverse_cons, List.reverse_nil, List.nil_append,
      Bool.or_eq_false_iff] at h hs
    simp only [endsPlural, List.isSuffixOf, List.reverse_append, List.reverse_cons,
      List.reverse_nil, List.nil_append, List.cons_append, List.isPrefixOf, h, hs]
    rfl

/-- A word that ends like a plural is one already. -/
theorem pluralByEnding_of_endsPlural (h : endsPlural w = true) : pluralByEnding w = w := by
  unfold endsPlural at h
  unfold pluralByEnding
  exact if_pos h

theorem exists_of_endsOpen (h : endsOpen w = true) :
    ∃ stem c, (c = 'i' ∨ c = 'u') ∧ w = stem ++ [c] := by
  rcases Bool.or_eq_true_iff.1 h with h | h
  all_goals obtain ⟨stem, rfl⟩ := List.isSuffixOf_iff_suffix.1 h
  · exact ⟨stem, 'i', Or.inl rfl, rfl⟩
  · exact ⟨stem, 'u', Or.inr rfl, rfl⟩

/-- A word in `i` or `u` gets an `s`. -/
theorem pluralByEnding_of_endsOpen (h : endsOpen w = true) : pluralByEnding w = w ++ ['s'] := by
  obtain ⟨stem, c, rfl | rfl, rfl⟩ := exists_of_endsOpen h
  all_goals simp [pluralByEnding, List.isSuffixOf, List.isPrefixOf]

/-- A word in `is` or `us` is taken for a singular. -/
theorem pluralByEnding_append_s_ne (h : endsOpen w = true) :
    pluralByEnding (w ++ ['s']) ≠ w ++ ['s'] := by
  obtain ⟨stem, c, rfl | rfl, rfl⟩ := exists_of_endsOpen h
  all_goals simp [pluralByEnding, List.isSuffixOf, List.isPrefixOf]

/-- How the plural of a word is found: it has none of its own, it is listed, or it is made by its
ending. -/
theorem pluralizeWordChars_cases (w : List Char) :
    ((w.isEmpty || String.ofList w ∈ uncountable || w.all isDigit) = true ∧
        pluralizeWordChars w = w) ∨
      (∃ e ∈ irregular, (e.1 = String.ofList w ∨ e.2 = String.ofList w) ∧
        pluralizeWordChars w = e.2.toList) ∨
      ((∀ e ∈ irregular, e.1 ≠ String.ofList w ∧ e.2 ≠ String.ofList w) ∧
        pluralizeWordChars w = pluralByEnding w) := by
  unfold pluralizeWordChars
  split_ifs with hfixed
  · exact Or.inl ⟨hfixed, rfl⟩
  · cases hfind : irregular.find? fun e => e.1 = String.ofList w || e.2 = String.ofList w with
    | none => exact Or.inr (Or.inr ⟨by simpa using hfind, rfl⟩)
    | some e =>
      have hword := List.find?_some
        (p := fun e : String × String => e.1 = String.ofList w || e.2 = String.ofList w) hfind
      exact Or.inr (Or.inl ⟨e, List.mem_of_find?_eq_some hfind, by simpa using hword, rfl⟩)

/-- The irregular nouns: no singular ends like a plural or in an open letter, and of the plurals,
which are words in small letters and are left alone, only `alumni` does. -/
theorem irregular_spec : ∀ e ∈ irregular,
    (endsPlural e.1.toList = false ∧ endsOpen e.1.toList = false) ∧
      (endsOpen e.2.toList = true → e.2 = "alumni") ∧ endsSingular e.2.toList = false ∧
        pluralizeWordChars e.2.toList = e.2.toList ∧ e.2.toList ≠ [] ∧
          e.2.toList.all Char.isLower = true := by
  decide +kernel

/-- No noun without a plural of its own ends in an open letter or like a singular. -/
theorem uncountable_spec :
    ∀ u ∈ uncountable, endsOpen u.toList = false ∧ endsSingular u.toList = false := by
  decide +kernel

/-- What ends like a plural is left alone. -/
theorem pluralizeWordChars_of_endsPlural (h : endsPlural w = true) : pluralizeWordChars w = w := by
  rcases pluralizeWordChars_cases w with ⟨-, heq⟩ | ⟨e, he, hword | hword, heq⟩ | ⟨-, heq⟩
  · exact heq
  · have hnot := (irregular_spec e he).1.1
    rw [hword, String.toList_ofList, h] at hnot
    cases hnot
  · rw [heq, hword, String.toList_ofList]
  · rw [heq, pluralByEnding_of_endsPlural h]

/-- The plural of a word that does not end in `i` or `u` is left alone. -/
theorem pluralizeWordChars_pluralizeWordChars (h : endsOpen w = false) :
    pluralizeWordChars (pluralizeWordChars w) = pluralizeWordChars w := by
  rcases pluralizeWordChars_cases w with ⟨-, heq⟩ | ⟨e, he, -, heq⟩ | ⟨-, heq⟩
  · rw [heq, heq]
  · obtain ⟨-, -, -, hfixed, -⟩ := irregular_spec e he
    rw [heq, hfixed]
  · rw [heq, pluralizeWordChars_of_endsPlural (endsPlural_pluralByEnding h)]

/-- A word that ends in a letter has a plural of its own unless it is listed. -/
theorem mem_uncountable_of_letter {stem : List Char} {c : Char} (hc : isDigit c = false)
    (h : ((stem ++ [c]).isEmpty || String.ofList (stem ++ [c]) ∈ uncountable ||
      (stem ++ [c]).all isDigit) = true) : String.ofList (stem ++ [c]) ∈ uncountable := by
  simpa [hc] using h

/-- A word in `i` or `u` gets an `s`, with the one exception that is listed. -/
theorem pluralizeWordChars_of_endsOpen (h : endsOpen w = true)
    (hword : String.ofList w ≠ "alumni") : pluralizeWordChars w = w ++ ['s'] := by
  have hopen : endsOpen (String.ofList w).toList = true := by rwa [String.toList_ofList]
  rcases pluralizeWordChars_cases w with ⟨hfixed, -⟩ | ⟨e, he, hone | hmany, -⟩ | ⟨-, heq⟩
  · obtain ⟨stem, c, hc, rfl⟩ := exists_of_endsOpen h
    have hdigit : isDigit c = false := by rcases hc with rfl | rfl <;> decide
    have hnot := (uncountable_spec _ (mem_uncountable_of_letter hdigit hfixed)).1
    rw [hopen] at hnot
    cases hnot
  · have hnot := (irregular_spec e he).1.2
    rw [hone, hopen] at hnot
    cases hnot
  · exact absurd (hmany.symm.trans ((irregular_spec e he).2.1 (hmany ▸ hopen))) hword
  · rw [heq, pluralByEnding_of_endsOpen h]

/-- A word in `is` or `us` is no plural of its own. -/
theorem pluralizeWordChars_append_s_ne (h : endsOpen w = true) :
    pluralizeWordChars (w ++ ['s']) ≠ w ++ ['s'] := by
  intro heq
  have hsingular : endsSingular (w ++ ['s']) = true := (endsSingular_append_s w).trans h
  rcases pluralizeWordChars_cases (w ++ ['s']) with ⟨hfixed, -⟩ | ⟨e, he, -, hmany⟩ | ⟨-, hmade⟩
  · have hnot := (uncountable_spec _ (mem_uncountable_of_letter (by decide) hfixed)).2
    rw [String.toList_ofList, hsingular] at hnot
    cases hnot
  · obtain ⟨-, -, hnot, -⟩ := irregular_spec e he
    rw [← hmany, heq, hsingular] at hnot
    cases hnot
  · exact pluralByEnding_append_s_ne h (hmade.symm.trans heq)

/-- The plural of a word is its own plural if and only if the word is `alumni` or does not end in
`i` or `u`. -/
theorem pluralizeWordChars_pluralizeWordChars_iff (w : List Char) :
    pluralizeWordChars (pluralizeWordChars w) = pluralizeWordChars w ↔
      String.ofList w = "alumni" ∨ endsOpen w = false := by
  by_cases hword : String.ofList w = "alumni"
  · have hw : w = "alumni".toList := by rw [← hword, String.toList_ofList]
    obtain ⟨-, -, -, hfixed, -⟩ := irregular_spec ("alumnus", "alumni") (by decide)
    refine iff_of_true ?_ (Or.inl hword)
    rw [hw, hfixed, hfixed]
  · rw [or_iff_right hword]
    refine ⟨fun heq => Bool.eq_false_iff.2 fun hopen => ?_, pluralizeWordChars_pluralizeWordChars⟩
    rw [pluralizeWordChars_of_endsOpen hopen hword] at heq
    exact pluralizeWordChars_append_s_ne hopen heq

/-- A plural holds nothing new but small letters. -/
theorem mem_pluralizeWordChars {c : Char} (hc : c ∈ pluralizeWordChars w) :
    c ∈ w ∨ c.isLower = true := by
  rcases pluralizeWordChars_cases w with ⟨-, heq⟩ | ⟨e, he, -, heq⟩ | ⟨-, heq⟩
  · exact Or.inl (heq ▸ hc)
  · obtain ⟨-, -, -, -, -, hsmall⟩ := irregular_spec e he
    exact Or.inr (List.all_eq_true.1 hsmall c (heq ▸ hc))
  · rw [heq] at hc
    unfold pluralByEnding at hc
    dsimp only at hc
    have hending : ∀ ending : List Char, ending.all Char.isLower = true →
        ∀ stem, (∀ c ∈ stem, c ∈ w) → c ∈ stem ++ ending → c ∈ w ∨ c.isLower = true :=
      fun ending hsmall stem hstem hc =>
        (List.mem_append.1 hc).imp (hstem c) (List.all_eq_true.1 hsmall c)
    split_ifs at hc
    · exact Or.inl hc
    · exact hending _ (by decide) w (fun _ => id) hc
    · exact hending _ (by decide) _ (fun _ => List.mem_of_mem_take) hc
    · exact hending _ (by decide) _ (fun _ => List.mem_of_mem_take) hc
    · exact hending _ (by decide) _ (fun _ => List.mem_of_mem_take) hc
    · exact hending _ (by decide) w (fun _ => id) hc

/-- A plural is empty only if the word is. -/
theorem pluralizeWordChars_ne_nil (h : w ≠ []) : pluralizeWordChars w ≠ [] := by
  rcases pluralizeWordChars_cases w with ⟨-, heq⟩ | ⟨e, he, -, heq⟩ | ⟨-, heq⟩
  · rwa [heq]
  · obtain ⟨-, -, -, -, hne, -⟩ := irregular_spec e he
    rwa [heq]
  · rw [heq]
    rcases pluralByEnding_cases w with ⟨-, heq⟩ | ⟨stem, heq⟩ | ⟨-, heq⟩
    · rwa [heq]
    · rw [heq]
      simp
    · rw [heq]
      simp

/-- The plural of a word is a word. -/
theorem isWord_pluralizeWordChars (h : IsWord w) : IsWord (pluralizeWordChars w) where
  ne_nil := pluralizeWordChars_ne_nil h.ne_nil
  solid c hc := by
    rcases mem_pluralizeWordChars hc with hc | hc
    · exact h.solid c hc
    · exact isBlank_of_isLower hc

/-- Whether a word may be the head noun of a phrase. -/
def mayHead (w : List Char) : Bool := String.ofList w ∉ particles

/-- A plural is no particle, unless the word is one. -/
theorem mayHead_pluralizeWordChars (h : mayHead w = true) :
    mayHead (pluralizeWordChars w) = true := by
  obtain ⟨hparticle, hlisted⟩ : (∀ p ∈ particles, ['s'].isSuffixOf p.toList = false) ∧
      ∀ e ∈ irregular, mayHead e.2.toList = true := by
    decide +kernel
  have hending : ∀ stem, mayHead (stem ++ ['s']) = true := by
    intro stem
    refine decide_eq_true fun hmem => ?_
    have hnot := hparticle _ hmem
    rw [String.toList_ofList] at hnot
    simp [List.isSuffixOf] at hnot
  rcases pluralizeWordChars_cases w with ⟨-, heq⟩ | ⟨e, he, -, heq⟩ | ⟨-, heq⟩
  · rwa [heq]
  · rw [heq]
    exact hlisted e he
  · rw [heq]
    rcases pluralByEnding_cases w with ⟨-, heq⟩ | ⟨stem, heq⟩ | ⟨-, heq⟩
    · rwa [heq]
    · rw [heq]
      exact List.append_assoc stem ['e'] ['s'] ▸ hending (stem ++ ['e'])
    · rw [heq]
      exact hending w

end Word

/-! ## Plurals of phrases -/

section Head

variable {α : Type _} {p : α → Bool} {f : α → α} {before after : List α} {head : α}

/-- The head is the last element that satisfies `p`, or the very last one if none does. -/
def IsHead (p : α → Bool) (before : List α) (head : α) (after : List α) : Prop :=
  (p head = true ∧ ∀ a ∈ after, p a = false) ∨
    (after = [] ∧ p head = false ∧ ∀ a ∈ before, p a = false)

/-- Every list that is not empty has a head. -/
theorem exists_isHead (p : α → Bool) {l : List α} (hl : l ≠ []) :
    ∃ before head after, l = before ++ head :: after ∧ IsHead p before head after := by
  induction l with
  | nil => exact absurd rfl hl
  | cons a l ih =>
    by_cases hnone : l = []
    · subst hnone
      cases ha : p a
      · exact ⟨[], a, [], rfl, Or.inr ⟨rfl, ha, by simp⟩⟩
      · exact ⟨[], a, [], rfl, Or.inl ⟨ha, by simp⟩⟩
    · obtain ⟨before, head, after, rfl, hhead | ⟨rfl, hhead, hbefore⟩⟩ := ih hnone
      · exact ⟨a :: before, head, after, rfl, Or.inl hhead⟩
      · cases ha : p a
        · exact ⟨a :: before, head, [], rfl,
            Or.inr ⟨rfl, hhead, List.forall_mem_cons.2 ⟨ha, hbefore⟩⟩⟩
        · refine ⟨[], a, before ++ [head], rfl, Or.inl ⟨ha, fun b hb => ?_⟩⟩
          rcases List.mem_append.1 hb with hb | hb
          · exact hbefore b hb
          · rw [List.mem_singleton.1 hb, hhead]

/-- Only the head is changed. -/
theorem modifyLast_of_isHead (h : IsHead p before head after) (f : α → α) :
    modifyLast p f (before ++ head :: after) = before ++ f head :: after := by
  induction before with
  | nil =>
    cases after with
    | nil => rfl
    | cons b rest =>
      obtain ⟨hhead, hafter⟩ := h.resolve_right fun h => List.cons_ne_nil b rest h.1
      have hnone : (b :: rest).any p = false := by simpa using hafter
      rw [List.nil_append, modifyLast, hnone, hhead]
      rfl
  | cons a before ih =>
    have hrest : IsHead p before head after :=
      h.imp_right fun ⟨hafter, hhead, hall⟩ => ⟨hafter, hhead, (List.forall_mem_cons.1 hall).2⟩
    have hgo : ((before ++ head :: after).any p || !p a) = true := by
      rcases h with ⟨hhead, -⟩ | ⟨-, -, hall⟩
      · simp [hhead]
      · simp [hall a (List.mem_cons_self ..)]
    cases hlist : before ++ head :: after with
    | nil => simp at hlist
    | cons b rest =>
      rw [hlist] at hgo ih
      rw [List.cons_append, hlist, modifyLast, if_pos hgo, ih hrest]
      rfl

/-- The head stays the head if it satisfies `p` afterwards, as it does before. -/
theorem IsHead.map (h : IsHead p before head after) (hf : p head = true → p (f head) = true) :
    IsHead p before (f head) after := by
  rcases h with ⟨hhead, hafter⟩ | ⟨rfl, hhead, hbefore⟩
  · exact Or.inl ⟨hf hhead, hafter⟩
  · cases hnew : p (f head)
    · exact Or.inr ⟨rfl, hnew, hbefore⟩
    · exact Or.inl ⟨hnew, by simp⟩

/-- The head is found as the last element that satisfies `p`, or as the very last one. -/
theorem IsHead.getLast?_eq (h : IsHead p before head after) :
    ((before ++ head :: after).filter p).getLast?.or (before ++ head :: after).getLast? =
      some head := by
  rcases h with ⟨hhead, hafter⟩ | ⟨rfl, hhead, hbefore⟩
  · have hnone : after.filter p = [] := List.filter_eq_nil_iff.2 fun a ha => by simp [hafter a ha]
    rw [List.filter_append, List.filter_cons_of_pos hhead, hnone, List.getLast?_concat]
    rfl
  · have hnone : (before ++ [head]).filter p = [] := List.filter_eq_nil_iff.2 fun a ha => by
      rcases List.mem_append.1 ha with ha | ha
      · simp [hbefore a ha]
      · simp [List.mem_singleton.1 ha, hhead]
    rw [hnone, List.getLast?_concat]
    rfl

end Head

section Phrase

variable {phrase : List Char} {before after : List (List Char)} {head : List Char}

/-- The head noun of a phrase, which its plural is the plural of. -/
def headNoun (phrase : String) : String :=
  let ws := splitSpaces phrase.toList
  String.ofList (((ws.filter mayHead).getLast?.or ws.getLast?).getD [])

/-- A phrase is cut at its spaces into pieces without spaces, with its head noun among them. -/
theorem exists_headNoun (phrase : List Char) :
    ∃ before head after, splitSpaces phrase = before ++ head :: after ∧
      IsHead mayHead before head after ∧ (∀ w ∈ before ++ head :: after, ' ' ∉ w) ∧
      headNoun (String.ofList phrase) = String.ofList head := by
  have hne : splitSpaces phrase ≠ [] := by
    rw [splitSpaces, splitWhere_eq_splitOnP]
    exact List.splitOnP_ne_nil _ phrase
  obtain ⟨before, head, after, hsplit, hhead⟩ := exists_isHead mayHead hne
  refine ⟨before, head, after, hsplit, hhead, ?_, ?_⟩
  · intro w hw hspace
    have hnot := not_of_mem_splitWhere (hsplit ▸ hw) ' ' hspace
    simp at hnot
  · rw [headNoun, String.toList_ofList, hsplit, hhead.getLast?_eq]
    rfl

/-- The plural of a phrase is that of its head noun. -/
theorem pluralizeChars_of_isHead (hhead : IsHead mayHead before head after)
    (hsplit : splitSpaces phrase = before ++ head :: after) :
    pluralizeChars phrase = joinSpaces (before ++ pluralizeWordChars head :: after) := by
  rw [pluralizeChars, hsplit]
  exact congrArg joinSpaces (modifyLast_of_isHead hhead pluralizeWordChars)

/-- The plural of a phrase is its own plural if and only if that is so of its head noun. -/
theorem pluralizeChars_pluralizeChars_iff (hhead : IsHead mayHead before head after)
    (hsplit : splitSpaces phrase = before ++ head :: after)
    (hpieces : ∀ w ∈ before ++ head :: after, ' ' ∉ w) :
    pluralizeChars (pluralizeChars phrase) = pluralizeChars phrase ↔
      pluralizeWordChars (pluralizeWordChars head) = pluralizeWordChars head := by
  have hspaceless : ∀ w, ' ' ∉ w → ' ' ∉ pluralizeWordChars w := fun w hw hmem =>
    (mem_pluralizeWordChars hmem).elim hw (by decide)
  have hreplace : ∀ w, ' ' ∉ w → splitSpaces (joinSpaces (before ++ w :: after)) =
      before ++ w :: after := by
    intro w hw
    refine splitSpaces_joinSpaces (by simp) fun v hv => ?_
    rcases List.mem_append.1 hv with hv | hv
    · exact hpieces v (List.mem_append_left _ hv)
    · rcases List.mem_cons.1 hv with rfl | hv
      · exact hw
      · exact hpieces v (List.mem_append_right _ (List.mem_cons_of_mem _ hv))
  have hone := hspaceless head (hpieces head (by simp))
  rw [pluralizeChars_of_isHead hhead hsplit,
    pluralizeChars_of_isHead (hhead.map mayHead_pluralizeWordChars) (hreplace _ hone)]
  refine ⟨fun heq => ?_, fun heq => by rw [heq]⟩
  have hlists := congrArg splitSpaces heq
  rw [hreplace _ (hspaceless _ hone), hreplace _ hone] at hlists
  exact (List.cons.inj (List.append_cancel_left hlists)).1

/-- The plural of a phrase is its own plural if and only if its head noun is `alumni` or does not
end in `i` or `u`. -/
theorem pluralize_pluralize_iff (phrase : String) :
    pluralize (pluralize phrase) = pluralize phrase ↔
      headNoun phrase = "alumni" ∨ endsOpen (headNoun phrase).toList = false := by
  obtain ⟨before, head, after, hsplit, hhead, hpieces, hnoun⟩ := exists_headNoun phrase.toList
  rw [String.ofList_toList] at hnoun
  rw [hnoun, String.toList_ofList, ← pluralizeWordChars_pluralizeWordChars_iff,
    ← pluralizeChars_pluralizeChars_iff hhead hsplit hpieces]
  unfold pluralize
  rw [String.toList_ofList, String.ofList_inj]

/-- Of `menu` the plural is `menus`, and of that it is `menuses`. -/
theorem not_pluralize_pluralize_menu : ¬pluralize (pluralize "menu") = pluralize "menu" := by
  decide +kernel

end Phrase

end VocabularyCompiler.Phrase
