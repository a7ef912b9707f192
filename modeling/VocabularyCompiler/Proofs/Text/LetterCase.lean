import Mathlib.Data.List.Forall2
import VocabularyCompiler.Proofs.Text.Ascii

/-!
# Texts that differ in the case of ASCII letters

A text in lower case is the same whichever of its ASCII letters stood in upper case
(`Recased.lowerChars_eq`). That is not a matter of one character after the other: what a capital
sigma becomes is decided by the letters around it. But a letter of ASCII decides it the same way in
either case (`casedAhead_map_lowerAscii`).
-/

namespace VocabularyCompiler.Text

/-- The second text is the first one with any of its ASCII letters put in upper or in lower case. -/
def Recased : List Char → List Char → Prop :=
  List.Forall₂ fun c d => d = c ∨ d = c.toUpper ∨ d = c.toLower

variable {s t : List Char}

/-! ## Characters -/

/-- What a change of ASCII characters leaves as it is among the first 128 characters, it leaves as
it is everywhere. -/
theorem apply_of_ascii {α : Type _} {f : Char → α} {change : Char → Char}
    (hascii : ∀ c, 128 ≤ c.toNat → change c = c)
    (h : ∀ n < 128, f (change (Char.ofNat n)) = f (Char.ofNat n)) (c : Char) :
    f (change c) = f c := by
  by_cases hc : c.toNat < 128
  · exact ascii_forall (P := fun c => f (change c) = f c) h hc
  · rw [hascii c (by omega)]

theorem lowerAscii_of_le {c : Char} (hc : 128 ≤ c.toNat) : lowerAscii c = c := by
  refine if_neg fun h => ?_
  have hz : c.toNat ≤ 90 := UInt32.le_iff_toNat_le.1 h.2
  omega

theorem toLower_of_le {c : Char} (hc : 128 ≤ c.toNat) : c.toLower = c := by
  refine dif_neg fun h => ?_
  have hz : c.toNat ≤ 90 := UInt32.le_iff_toNat_le.1 h.2
  omega

theorem toUpper_of_le {c : Char} (hc : 128 ≤ c.toNat) : c.toUpper = c := by
  refine dif_neg fun h => ?_
  have hz : c.toNat ≤ 122 := UInt32.le_iff_toNat_le.1 h.2
  omega

/-- Recased texts are the same up to the case of ASCII letters. -/
theorem Recased.map_lowerAscii_eq (h : Recased s t) : t.map lowerAscii = s.map lowerAscii := by
  induction h with
  | nil => rfl
  | @cons c d _ _ hcd _ ih =>
    have hd : lowerAscii d = lowerAscii c := by
      rcases hcd with rfl | rfl | rfl
      · rfl
      · exact apply_of_ascii (fun _ => toUpper_of_le) (by decide) c
      · exact apply_of_ascii (fun _ => toLower_of_le) (by decide) c
    rw [List.map_cons, List.map_cons, hd, ih]

/-! ## Lower case -/

/-- Of a table of ranges, only those that begin in ASCII can tell ASCII characters apart. -/
theorem inRanges_of_lt {c : Char} (hc : c.toNat < 128) (table : List (Nat × Nat)) :
    inRanges table c = inRanges (table.filter fun r => r.1 < 128) c := by
  unfold inRanges
  rw [List.any_filter]
  congr 1
  funext r
  by_cases hr : r.1 ≤ c.toNat
  · have hlt : r.1 < 128 := by omega
    simp [hlt]
  · simp [hr]

/-- A class of characters does not tell the case of ASCII letters if the ranges of its table that
begin in ASCII do not. -/
theorem inRanges_lowerAscii {table : List (Nat × Nat)}
    (h : ∀ n < 128, inRanges (table.filter fun r => r.1 < 128) (lowerAscii (Char.ofNat n)) =
      inRanges (table.filter fun r => r.1 < 128) (Char.ofNat n)) (c : Char) :
    inRanges table (lowerAscii c) = inRanges table c := by
  by_cases hc : c.toNat < 128
  · rw [inRanges_of_lt (lowerAscii_lt hc), inRanges_of_lt hc]
    exact apply_of_ascii (fun _ => lowerAscii_of_le) h c
  · rw [lowerAscii_of_le (by omega)]

/-- Which characters are passed over in the search for a letter with case, and which are such
letters, does not depend on the case of ASCII letters. -/
theorem casedAhead_map_lowerAscii (s : List Char) :
    casedAhead (s.map lowerAscii) = casedAhead s := by
  have hignored : inRanges caseIgnorable ∘ lowerAscii = inRanges caseIgnorable :=
    funext (inRanges_lowerAscii (by decide +kernel))
  have hcased : ∀ c, inRanges casedOnly (lowerAscii c) = inRanges casedOnly c :=
    inRanges_lowerAscii (by decide +kernel)
  unfold casedAhead
  rw [List.dropWhile_map, hignored]
  cases s.dropWhile (inRanges caseIgnorable) with
  | nil => rfl
  | cons c _ => exact hcased c

/-- A text that already is in lower case as far as ASCII goes has the same lower case. -/
theorem lowerChars_map_lowerAscii (s : List Char) :
    lowerChars (s.map lowerAscii) = lowerChars s := by
  have hsigma : ∀ c, (lowerAscii c = capitalSigma) = (c = capitalSigma) :=
    apply_of_ascii (f := (· = capitalSigma)) (fun _ => lowerAscii_of_le) (by decide)
  have hdotted : ∀ c, (lowerAscii c = 'İ') = (c = 'İ') :=
    apply_of_ascii (f := (· = 'İ')) (fun _ => lowerAscii_of_le) (by decide)
  have hlower : ∀ c, lowerChar (lowerAscii c) = lowerChar c :=
    apply_of_ascii (f := lowerChar) (fun _ => lowerAscii_of_le) (by decide)
  -- What was passed is looked at for the case of its letters too.
  have hfrom : ∀ before, lowerFrom (before.map lowerAscii) (s.map lowerAscii) =
      lowerFrom before s := by
    induction s with
    | nil => exact fun _ => rfl
    | cons c rest ih =>
      intro before
      have hrest := ih (c :: before)
      rw [List.map_cons] at hrest
      simp only [List.map_cons, lowerFrom, hrest, casedAhead_map_lowerAscii, hlower, hsigma,
        hdotted]
  exact hfrom []

/-- Recased texts have the same lower case. -/
theorem Recased.lowerChars_eq (h : Recased s t) : lowerChars t = lowerChars s := by
  rw [← lowerChars_map_lowerAscii, h.map_lowerAscii_eq, lowerChars_map_lowerAscii]

end VocabularyCompiler.Text
