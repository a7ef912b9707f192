import VocabularyCompiler.Phrase.SpelledOut
import VocabularyCompiler.Proofs.Text.Ascii
import VocabularyCompiler.Proofs.Text.Words

/-!
# Names spelled out, character by character

A name is spelled out in four steps, and each of them may put spaces where the next one finds them.
For ASCII names they come to one law: cut between two characters that are kept, a name is spelled
out as its two parts are, with a space between them if separators stood there or if a word begins
with a capital letter (`spellRest_append`). So the phrase holds the characters of the name that are
kept, in lower case and in their order, and where a space stands between them is known from the name
alone (`spellOut_exact`). A phrase is spelled out as itself.
-/

namespace VocabularyCompiler.Phrase

open Text

/-! ## Capital letters and separators -/

/-- Characters that stand between words. -/
def isSeparator (c : Char) : Bool := c = '_' || isBlank c

section Characters

variable {c : Char}

/-- Capital letters are ASCII. -/
theorem lt_of_isCapital (hc : isCapital c = true) : c.toNat < 128 := by
  have hle : c ≤ 'Z' := of_decide_eq_true (Bool.and_eq_true_iff.1 hc).2
  have hcode : c.toNat ≤ 90 := UInt32.le_iff_toNat_le.1 hle
  omega

/-- A separator is no capital letter. -/
theorem isCapital_of_isSeparator (hc : isSeparator c = true) : isCapital c = false := by
  by_contra hcapital
  have hcapital' := Bool.not_eq_false _ ▸ hcapital
  exact absurd hc (by
    simpa using ascii_forall (P := fun c => isCapital c = true → isSeparator c = false)
      (by decide) (lt_of_isCapital hcapital') hcapital')

theorem isCapital_lowerAscii (hc : c.toNat < 128) : isCapital (lowerAscii c) = false :=
  ascii_forall (P := fun c => isCapital (lowerAscii c) = false) (by decide) hc

/-- Only capital letters have another lower case. -/
theorem lowerAscii_of_not_isCapital (hc : isCapital c = false) : lowerAscii c = c := by
  unfold lowerAscii
  exact if_neg (by simpa [isCapital] using hc)

/-- What is no letter is the lower case of itself only. -/
theorem lowerAscii_eq_iff {d : Char} (hc : c.toNat < 128) (hd : d.isAlpha = false) :
    lowerAscii c = d ↔ c = d := by
  by_cases hcapital : isCapital c = true
  · have hletter : (lowerAscii c).isAlpha = true ∧ c.isAlpha = true :=
      ascii_forall (P := fun c => isCapital c = true →
        (lowerAscii c).isAlpha = true ∧ c.isAlpha = true) (by decide) hc hcapital
    exact iff_of_false (fun h => by simp [h, hd] at hletter) fun h => by simp [h, hd] at hletter
  · rw [lowerAscii_of_not_isCapital (Bool.eq_false_iff.2 hcapital)]

end Characters

/-! ## Words in camel case -/

section Camel

variable {c : Char} {s t : List Char}

/-- Whether a capital letter begins a word after another character. -/
def beginsWord (a b : Char) : Bool := !isCapital a && a != ' ' && isCapital b

/-- What is put between two neighbours hangs on these two only. -/
theorem splitCamel_cons (c : Char) (s : List Char) :
    splitCamel (c :: s) =
      c :: ((if s.head?.any (beginsWord c) = true then [' '] else []) ++ splitCamel s) := by
  cases s with
  | nil => rfl
  | cons d s =>
    rw [splitCamel]
    unfold beginsWord
    split <;> simp_all

theorem exists_splitCamel_cons (c : Char) (s : List Char) : ∃ u, splitCamel (c :: s) = c :: u :=
  ⟨_, splitCamel_cons c s⟩

theorem exists_splitCamel_concat (s : List Char) (a : Char) :
    ∃ u, splitCamel (s ++ [a]) = u ++ [a] := by
  induction s with
  | nil => exact ⟨[], rfl⟩
  | cons c s ih =>
    obtain ⟨u, hu⟩ := ih
    rw [List.cons_append, splitCamel_cons, hu, ← List.append_assoc, ← List.cons_append]
    exact ⟨_, rfl⟩

/-- Between two neighbours a text falls into two parts, with a space between them if the second one
begins a word. -/
theorem splitCamel_append (s : List Char) (a b : Char) (t : List Char) :
    splitCamel (s ++ a :: b :: t) =
      splitCamel (s ++ [a]) ++
        ((if beginsWord a b = true then [' '] else []) ++ splitCamel (b :: t)) := by
  induction s with
  | nil => exact splitCamel_cons a (b :: t)
  | cons c s ih =>
    have hhead : (s ++ a :: b :: t).head? = (s ++ [a]).head? := by
      rw [List.head?_append, List.head?_append]
      rfl
    rw [List.cons_append, List.cons_append, splitCamel_cons, splitCamel_cons, hhead, ih]
    simp

/-- Where no capital letter stands, no word begins. -/
theorem splitCamel_of_not_isCapital (h : ∀ c ∈ s, isCapital c = false) : splitCamel s = s := by
  induction s with
  | nil => rfl
  | cons c s ih =>
    have hs := (List.forall_mem_cons.1 h).2
    have hnone : s.head?.any (beginsWord c) = false := by
      cases s with
      | nil => rfl
      | cons d s => simp [beginsWord, hs d (List.mem_cons_self ..)]
    rw [splitCamel_cons, ih hs, hnone]
    rfl

/-- Where no capital letter follows, nothing is put in. -/
theorem splitCamel_append_of_not_isCapital (h : ∀ c ∈ t, isCapital c = false) (s : List Char)
    (a : Char) : splitCamel (s ++ a :: t) = splitCamel (s ++ [a]) ++ t := by
  cases t with
  | nil => simp
  | cons b t =>
    have hb : beginsWord a b = false := by simp [beginsWord, h b (List.mem_cons_self ..)]
    rw [splitCamel_append, splitCamel_of_not_isCapital h, hb]
    rfl

/-- Only spaces are put in. -/
theorem mem_splitCamel (hc : c ∈ splitCamel s) : c ∈ s ∨ c = ' ' := by
  induction s with
  | nil => exact Or.inl hc
  | cons d s ih =>
    rw [splitCamel_cons, List.mem_cons, List.mem_append] at hc
    rcases hc with rfl | hc | hc
    · exact Or.inl (List.mem_cons_self ..)
    · split at hc
      · exact Or.inr (List.mem_singleton.1 hc)
      · cases hc
    · exact (ih hc).imp_left (List.mem_cons_of_mem d)

/-- What is not white space stays as it is. -/
theorem filter_splitCamel (s : List Char) :
    (splitCamel s).filter (fun c => !isBlank c) = s.filter fun c => !isBlank c := by
  induction s with
  | nil => rfl
  | cons c s ih =>
    have hnone : (if s.head?.any (beginsWord c) = true then [' '] else []).filter
        (fun c => !isBlank c) = [] := by
      split <;> rfl
    rw [splitCamel_cons, List.filter_cons, List.filter_append, hnone, ih, List.filter_cons]
    rfl

/-- Between two characters that are not white space there is white space afterwards if there was
some before, or if the second one begins a word. -/
theorem exists_splitCamel_gap {a b : Char} {gap : List Char} (ha : isBlank a = false)
    (hgap : ∀ c ∈ gap, isBlank c = true ∧ isCapital c = false) (s t : List Char) :
    ∃ gap', (∀ c ∈ gap', isBlank c = true) ∧
      splitCamel (s ++ a :: (gap ++ b :: t)) =
        splitCamel (s ++ [a]) ++ (gap' ++ splitCamel (b :: t)) ∧
      (gap' = [] ↔ gap = [] ∧ ¬(isCapital b = true ∧ isCapital a = false)) := by
  have hblank : ∀ d, ∀ c ∈ (if beginsWord d b = true then [' '] else []), isBlank c = true := by
    intro d c hc
    split at hc
    · rw [List.mem_singleton.1 hc]
      decide
    · cases hc
  rcases List.eq_nil_or_concat' gap with rfl | ⟨front, last, rfl⟩
  · refine ⟨_, hblank a, splitCamel_append s a b t, ?_⟩
    have hspace : a ≠ ' ' := by
      rintro rfl
      exact absurd ha (by decide)
    simp [beginsWord, hspace, and_comm]
  · -- No capital letter is in the gap, so the first part goes on through it.
    have hfirst : splitCamel (s ++ a :: (front ++ [last])) =
        splitCamel (s ++ [a]) ++ (front ++ [last]) :=
      splitCamel_append_of_not_isCapital (fun c hc => (hgap c hc).2) s a
    refine ⟨front ++ [last] ++ (if beginsWord last b = true then [' '] else []), ?_, ?_, ?_⟩
    · intro c hc
      exact (List.mem_append.1 hc).elim (fun hc => (hgap c hc).1) (hblank last c)
    · have hregroup : s ++ a :: (front ++ [last] ++ b :: t) =
          (s ++ a :: front) ++ last :: b :: t := by simp
      rw [hregroup, splitCamel_append, List.append_assoc s, List.cons_append, hfirst]
      simp
    · simp

end Camel

/-! ## The law of spelling out -/

/-- An underscore counts as a space. -/
def openUp (c : Char) : Char := if c = '_' then ' ' else c

/-- The phrase of a name whose slot marker was dropped. -/
def spellRest (s : List Char) : List Char := squeeze (lowerChars (splitCamel (s.map openUp)))

/-- The characters of a name that are kept, in lower case. -/
def keptLetters (s : List Char) : List Char :=
  (s.filter fun c => !isSeparator c).map lowerAscii

theorem spellOutChars_eq (name : List Char) :
    spellOutChars name = spellRest (dropSlotMarker name) := rfl

section Law

variable {c : Char} {s t : List Char}

theorem isBlank_openUp (c : Char) : isBlank (openUp c) = isSeparator c := by
  unfold openUp isSeparator
  split
  next h =>
    rw [h]
    decide
  next h => simp [h]

theorem openUp_of_not_isSeparator (h : isSeparator c = false) : openUp c = c := by
  have hne : c ≠ '_' := by
    rintro rfl
    exact absurd h (by decide)
  exact if_neg hne

theorem isBlank_of_not_isSeparator (h : isSeparator c = false) : isBlank c = false :=
  (Bool.or_eq_false_iff.1 h).2

theorem isAscii_map_openUp (h : IsAscii s) : IsAscii (s.map openUp) := by
  intro c hc
  obtain ⟨d, hd, rfl⟩ := List.mem_map.1 hc
  unfold openUp
  split
  · decide
  · exact h d hd

theorem isAscii_splitCamel (h : IsAscii s) : IsAscii (splitCamel s) := by
  intro c hc
  rcases mem_splitCamel hc with hc | rfl
  · exact h c hc
  · decide

/-- What an ASCII name comes to before white space is squeezed. -/
theorem spellRest_eq (h : IsAscii s) :
    spellRest s = squeeze ((splitCamel (s.map openUp)).map lowerAscii) := by
  rw [spellRest, lowerChars_of_isAscii (isAscii_splitCamel (isAscii_map_openUp h))]

/-- The phrase holds the characters that are kept, in their order. -/
theorem filter_spellRest (h : IsAscii s) : (spellRest s).filter (· ≠ ' ') = keptLetters s := by
  have hascii : ∀ c ∈ splitCamel (s.map openUp), isBlank (lowerAscii c) = isBlank c :=
    fun c hc => isBlank_lowerAscii (isAscii_splitCamel (isAscii_map_openUp h) c hc)
  have hopen : (s.map openUp).filter (fun c => !isBlank c) = s.filter fun c => !isSeparator c := by
    rw [List.filter_map, List.filter_congr fun c _ => by
      rw [Function.comp_apply, isBlank_openUp]]
    exact List.map_congr_left (fun c hc => openUp_of_not_isSeparator
      (by simpa using (List.mem_filter.1 hc).2)) |>.trans (List.map_id _)
  rw [spellRest_eq h, filter_squeeze, List.filter_map, keptLetters, ← hopen, ← filter_splitCamel]
  congr 1
  exact List.filter_congr fun c hc => by rw [Function.comp_apply, hascii c hc]

/-- Before white space is squeezed, there is some between two characters that are kept if separators
stood there or if a word begins. -/
theorem exists_splitCamel_openUp {a b : Char} {gap : List Char} (ha : isSeparator a = false)
    (hb : isSeparator b = false) (hgap : ∀ c ∈ gap, isSeparator c = true) (s t : List Char) :
    ∃ u v gap', splitCamel ((s ++ [a]).map openUp) = u ++ [a] ∧
      splitCamel ((b :: t).map openUp) = b :: v ∧
      splitCamel ((s ++ a :: (gap ++ b :: t)).map openUp) = u ++ a :: (gap' ++ b :: v) ∧
      (∀ c ∈ gap', isBlank c = true) ∧
      (gap' = [] ↔ ¬(gap ≠ [] ∨ isCapital b = true ∧ isCapital a = false)) := by
  have hopened : ∀ c ∈ gap.map openUp, isBlank c = true ∧ isCapital c = false := by
    intro c hc
    obtain ⟨d, hd, rfl⟩ := List.mem_map.1 hc
    have hblank := (isBlank_openUp d).trans (hgap d hd)
    exact ⟨hblank, isCapital_of_isSeparator (Bool.or_eq_true_iff.2 (Or.inr hblank))⟩
  obtain ⟨u, hu⟩ := exists_splitCamel_concat (s.map openUp) a
  obtain ⟨v, hv⟩ := exists_splitCamel_cons b (t.map openUp)
  obtain ⟨gap', hblank, hsplit, hnil⟩ := exists_splitCamel_gap (b := b)
    (isBlank_of_not_isSeparator ha) hopened (s.map openUp) (t.map openUp)
  have ha' := openUp_of_not_isSeparator ha
  have hb' := openUp_of_not_isSeparator hb
  refine ⟨u, v, gap', ?_, ?_, ?_, hblank, ?_⟩
  · rw [List.map_append, List.map_singleton, ha', hu]
  · rw [List.map_cons, hb', hv]
  · rw [List.map_append, List.map_cons, List.map_append, List.map_cons, ha', hb', hsplit, hu, hv,
      List.append_assoc]
    rfl
  · rw [hnil, List.map_eq_nil_iff, not_or, not_not]

/-- Cut between two characters that are kept, a name is spelled out as its two parts are, with a
space between them if separators stood there or if a word begins. -/
theorem spellRest_append {a b : Char} {gap : List Char} (ha : isSeparator a = false)
    (hb : isSeparator b = false) (hgap : ∀ c ∈ gap, isSeparator c = true)
    (h : IsAscii (s ++ a :: (gap ++ b :: t))) :
    spellRest (s ++ a :: (gap ++ b :: t)) =
      spellRest (s ++ [a]) ++
        ((if gap ≠ [] ∨ isCapital b = true ∧ isCapital a = false then [' '] else []) ++
          spellRest (b :: t)) := by
  obtain ⟨hs, hrest⟩ := isAscii_append_iff.1 h
  obtain ⟨ha₁, hgap₁⟩ := isAscii_cons_iff.1 hrest
  obtain ⟨-, hright⟩ := isAscii_append_iff.1 hgap₁
  have hleft : IsAscii (s ++ [a]) :=
    isAscii_append_iff.2 ⟨hs, isAscii_cons_iff.2 ⟨ha₁, List.forall_mem_nil _⟩⟩
  obtain ⟨u, v, gap', hu, hv, hsplit, hblank, hnil⟩ := exists_splitCamel_openUp ha hb hgap s t
  have ha' : isBlank (lowerAscii a) = false :=
    (isBlank_lowerAscii (hleft a (by simp))).trans (isBlank_of_not_isSeparator ha)
  have hb' : isBlank (lowerAscii b) = false :=
    (isBlank_lowerAscii (hright b (by simp))).trans (isBlank_of_not_isSeparator hb)
  -- White space is the lower case of itself.
  have hlower : gap'.map lowerAscii = gap' := by
    refine (List.map_congr_left fun c hc => ?_).trans (List.map_id gap')
    exact lowerAscii_of_not_isCapital
      (isCapital_of_isSeparator (Bool.or_eq_true_iff.2 (Or.inr (hblank c hc))))
  have hgap' : (if gap' = [] then [] else [' ']) =
      if gap ≠ [] ∨ isCapital b = true ∧ isCapital a = false then [' '] else [] := by
    simp only [hnil, ite_not]
  rw [spellRest_eq h, spellRest_eq hleft, spellRest_eq hright, hsplit, hu, hv, List.map_append,
    List.map_cons, List.map_append, List.map_cons, hlower, squeeze_append ha' hb' hblank, hgap',
    List.map_append, List.map_singleton]

theorem mem_keptLetters_iff :
    c ∈ keptLetters s ↔ ∃ d ∈ s, isSeparator d = false ∧ lowerAscii d = c := by
  unfold keptLetters
  rw [List.mem_map]
  simp only [List.mem_filter, Bool.not_eq_true', and_assoc]

/-- A phrase holds spaces and the characters that are kept. -/
theorem mem_keptLetters_of_mem (h : IsAscii s) (hc : c ∈ spellRest s) (hspace : c ≠ ' ') :
    c ∈ keptLetters s :=
  filter_spellRest h ▸ List.mem_filter.2 ⟨hc, decide_eq_true hspace⟩

/-- A phrase is in lower-case ASCII without underscores. -/
theorem plain_spellRest (h : IsAscii s) (hc : c ∈ spellRest s) :
    c.toNat < 128 ∧ isCapital c = false ∧ c ≠ '_' := by
  by_cases hspace : c = ' '
  · rw [hspace]
    decide
  · obtain ⟨d, hd, hkept, rfl⟩ := mem_keptLetters_iff.1 (mem_keptLetters_of_mem h hc hspace)
    refine ⟨lowerAscii_lt (h d hd), isCapital_lowerAscii (h d hd), fun hunder => ?_⟩
    rw [(lowerAscii_eq_iff (h d hd) (by decide)).1 hunder] at hkept
    exact absurd hkept (by decide)

theorem singlySpaced_spellRest (s : List Char) : SinglySpaced (spellRest s) :=
  singlySpaced_squeeze _

/-- Lower-case ASCII that is singly spaced and without underscores is spelled out as itself. -/
theorem spellOutChars_eq_self (hplain : ∀ c ∈ s, c.toNat < 128 ∧ isCapital c = false ∧ c ≠ '_')
    (hspaced : SinglySpaced s) : spellOutChars s = s := by
  have hmarker : dropSlotMarker s = s := by
    match s with
    | [] | [_] => rfl
    | c :: d :: rest =>
      have hd : d ≠ '_' := (hplain d (by simp)).2.2
      rw [dropSlotMarker]
      exact fun _ _ h => hd (List.cons.inj (List.cons.inj h).2).1
  have hopen : s.map openUp = s :=
    (List.map_congr_left fun c hc => if_neg (hplain c hc).2.2).trans (List.map_id s)
  have hlower : s.map lowerAscii = s :=
    (List.map_congr_left fun c hc => lowerAscii_of_not_isCapital (hplain c hc).2.1).trans
      (List.map_id s)
  rw [spellOutChars_eq, hmarker, spellRest_eq fun c hc => (hplain c hc).1, hopen,
    splitCamel_of_not_isCapital fun c hc => (hplain c hc).2.1, hlower, hspaced.squeeze_eq]

end Law

/-! ## What a phrase is made of -/

/-- A space stands in a phrase right behind the first `n` characters that are none. -/
def SpaceBehind (n : Nat) (phrase : List Char) : Prop :=
  ∃ before after, phrase = before ++ ' ' :: after ∧ (before.filter (· ≠ ' ')).length = n

section Phrase

variable {name s t gap : List Char}

/-- Between two parts that do not meet in a space, one stands only if it was put there. -/
theorem spaceBehind_append_iff (hs : s.getLast? ≠ some ' ') (ht : t.head? ≠ some ' ')
    (hgap : ∀ c ∈ gap, c = ' ') :
    SpaceBehind (s.filter (· ≠ ' ')).length (s ++ (gap ++ t)) ↔ gap ≠ [] := by
  cases gap with
  | cons c gap =>
    obtain rfl := hgap c (List.mem_cons_self ..)
    exact iff_of_true ⟨s, gap ++ t, rfl, rfl⟩ (List.cons_ne_nil _ _)
  | nil =>
    refine iff_of_false (fun ⟨before, after, hsplit, hcount⟩ => ?_) fun h => h rfl
    have hspaces : ∀ more : List Char, (more.filter (· ≠ ' ')).length = 0 → ∀ c ∈ more, c = ' ' :=
      fun more hmore => by simpa using List.length_eq_zero_iff.1 hmore
    -- Between the end of `s` and the space that was found there is nothing but spaces.
    rw [List.nil_append] at hsplit
    rcases List.append_eq_append_iff.1 hsplit with ⟨more, rfl, rfl⟩ | ⟨more, rfl, hmore⟩
    · rw [List.filter_append, List.length_append] at hcount
      cases more with
      | nil => exact ht rfl
      | cons c more =>
        exact ht (congrArg some (hspaces (c :: more) (by omega) c (List.mem_cons_self ..)))
    · rw [List.filter_append, List.length_append] at hcount
      rcases List.eq_nil_or_concat' more with rfl | ⟨front, last, rfl⟩
      · rw [List.nil_append] at hmore
        exact ht (hmore ▸ rfl)
      · rw [← List.append_assoc, List.getLast?_concat,
          hspaces (front ++ [last]) (by omega) last (by simp)] at hs
        exact hs rfl

/-- How a name is spelled out. -/
structure IsSpelledOut (name phrase : List Char) : Prop where
  /-- A phrase is in lower-case ASCII without underscores. -/
  plain : ∀ c ∈ phrase, c.toNat < 128 ∧ isCapital c = false ∧ c ≠ '_'
  /-- White space stands as single spaces between words. -/
  spaced : SinglySpaced phrase
  /-- Apart from its spaces, a phrase holds the lower case of what the name is made of without its
  slot marker and its separators. -/
  letters : phrase.filter (· ≠ ' ') = keptLetters (dropSlotMarker name)
  /-- A space stands between two neighbours that are kept where separators stand in the name, or
  where a capital letter follows another character. -/
  breaks : ∀ before a gap b after, dropSlotMarker name = before ++ a :: (gap ++ b :: after) →
    isSeparator a = false → isSeparator b = false → (∀ c ∈ gap, isSeparator c = true) →
      (SpaceBehind (keptLetters (before ++ [a])).length phrase ↔
        gap ≠ [] ∨ isCapital b = true ∧ isCapital a = false)

/-- A name without its slot marker is what stands behind it. -/
theorem dropSlotMarker_cases (name : List Char) :
    dropSlotMarker name = name ∨ ∃ c ∈ slotLetters, name = c :: '_' :: dropSlotMarker name := by
  unfold dropSlotMarker
  split
  · split
    next hc => exact Or.inr ⟨_, hc, rfl⟩
    next => exact Or.inl rfl
  · exact Or.inl rfl

theorem dropSlotMarker_suffix (name : List Char) : dropSlotMarker name <:+ name := by
  rcases dropSlotMarker_cases name with h | ⟨c, -, h⟩
  · exact ⟨[], h⟩
  · exact ⟨[c, '_'], h.symm⟩

theorem isAscii_dropSlotMarker (h : IsAscii name) : IsAscii (dropSlotMarker name) := fun c hc =>
  h c ((dropSlotMarker_suffix name).subset hc)

theorem isSpelledOut_spellOutChars (h : IsAscii name) : IsSpelledOut name (spellOutChars name) where
  plain _ hc := plain_spellRest (isAscii_dropSlotMarker h) hc
  spaced := singlySpaced_spellRest _
  letters := filter_spellRest (isAscii_dropSlotMarker h)
  breaks before a gap b after hname ha hb hgap := by
    have hascii := isAscii_dropSlotMarker h
    rw [hname] at hascii
    obtain ⟨hbefore, hrest⟩ := isAscii_append_iff.1 hascii
    have hleft : IsAscii (before ++ [a]) := isAscii_append_iff.2
      ⟨hbefore, isAscii_cons_iff.2 ⟨(isAscii_cons_iff.1 hrest).1, List.forall_mem_nil _⟩⟩
    rw [spellOutChars_eq, hname, spellRest_append ha hb hgap hascii, ← filter_spellRest hleft,
      spaceBehind_append_iff (singlySpaced_spellRest _).last (singlySpaced_spellRest _).head]
    · rw [ite_ne_right_iff]
      exact and_iff_left (List.cons_ne_nil ' ' [])
    · intro c hc
      split at hc
      · exact List.mem_singleton.1 hc
      · cases hc

/-- An ASCII name is spelled out by the characters that are kept, in lower case, with single spaces
where separators stand in it and where a capital letter follows another character; and its phrase is
spelled out as itself. -/
theorem spellOut_exact (name : String) (h : IsAscii name.toList) :
    IsSpelledOut name.toList (spellOut name).toList ∧ spellOut (spellOut name) = spellOut name := by
  have hphrase := isSpelledOut_spellOutChars h
  refine ⟨?_, ?_⟩
  · rw [spellOut, String.toList_ofList]
    exact hphrase
  · rw [spellOut, spellOut, String.toList_ofList,
      spellOutChars_eq_self hphrase.plain hphrase.spaced]

/-- The slot marker is dropped, words begin at capital letters and behind separators, and a row of
capital letters is one word. -/
theorem spellOut_exact_worksFor :
    IsAscii "p_worksFor__the ID".toList ∧
      IsSpelledOut "p_worksFor__the ID".toList "works for the id".toList ∧
      spellOut "works for the id" = "works for the id" := by
  have hascii : IsAscii "p_worksFor__the ID".toList := forall_mem_of_all (by decide)
  have hphrase : spellOut "p_worksFor__the ID" = "works for the id" := by decide +kernel
  have hexact := spellOut_exact "p_worksFor__the ID" hascii
  rw [hphrase] at hexact
  exact ⟨hascii, hexact⟩

end Phrase

end VocabularyCompiler.Phrase
