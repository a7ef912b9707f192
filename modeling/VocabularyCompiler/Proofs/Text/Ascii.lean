import VocabularyCompiler.Text.Lowercase

/-!
# ASCII texts

What holds of each of the first 128 characters holds of ASCII (`ascii_forall`). The lower case of an
ASCII text is that of its characters one by one (`lowerChars_of_isAscii`).
-/

namespace VocabularyCompiler.Text

/-- All characters are ASCII. -/
def IsAscii (s : List Char) : Prop := ∀ c ∈ s, c.toNat < 128

/-- What holds of the first 128 characters holds of ASCII. -/
theorem ascii_forall {P : Char → Prop} (h : ∀ n < 128, P (Char.ofNat n)) {c : Char}
    (hc : c.toNat < 128) : P c := by
  have hcode := h c.toNat hc
  rwa [Char.ofNat_toNat] at hcode

variable {c : Char} {s : List Char}

/-- What holds of each character of a list, one after the other, holds of them all. To decide it as
a statement on characters would be to go through all of Unicode. -/
theorem forall_mem_of_all {P : Char → Prop} [DecidablePred P] (h : s.all (fun c => P c) = true) :
    ∀ c ∈ s, P c := by
  simpa using h

theorem isAscii_append_iff {t : List Char} : IsAscii (s ++ t) ↔ IsAscii s ∧ IsAscii t :=
  List.forall_mem_append

theorem isAscii_cons_iff : IsAscii (c :: s) ↔ c.toNat < 128 ∧ IsAscii s := List.forall_mem_cons

theorem lt_of_isLower (hc : c.isLower = true) : c.toNat < 128 := by
  have hle : c.toNat ≤ 122 :=
    UInt32.le_iff_toNat_le.1 (of_decide_eq_true (Bool.and_eq_true_iff.1 hc).2)
  omega

/-- A small letter is no white space. -/
theorem isBlank_of_isLower (hc : c.isLower = true) : isBlank c = false :=
  ascii_forall (P := fun c => c.isLower = true → isBlank c = false) (by decide)
    (lt_of_isLower hc) hc

theorem lowerAscii_lt (hc : c.toNat < 128) : (lowerAscii c).toNat < 128 :=
  ascii_forall (P := fun c => (lowerAscii c).toNat < 128) (by decide) hc

theorem isBlank_lowerAscii (hc : c.toNat < 128) : isBlank (lowerAscii c) = isBlank c :=
  ascii_forall (P := fun c => isBlank (lowerAscii c) = isBlank c) (by decide) hc

/-- In ASCII each character has its lower case on its own. -/
theorem lowerChars_of_isAscii (hs : IsAscii s) : lowerChars s = s.map lowerAscii := by
  have hfrom : ∀ before, lowerFrom before s = s.map lowerAscii := by
    induction s with
    | nil => exact fun _ => rfl
    | cons c s ih =>
      intro before
      obtain ⟨hc, hs'⟩ := isAscii_cons_iff.1 hs
      have hsigma : c ≠ capitalSigma := by
        rintro rfl
        exact absurd hc (by decide)
      have hdotted : c ≠ 'İ' := by
        rintro rfl
        exact absurd hc (by decide)
      rw [lowerFrom, ih hs', if_neg hsigma, if_neg hdotted, lowerChar, if_pos hc]
      rfl
  exact hfrom []

end VocabularyCompiler.Text
