import Mathlib.Data.List.Infix
import VocabularyCompiler.Text.Quoted

/-!
# Legible texts

A text that is put together from parts can be read if each part can be told from what follows it.
`Legible` says that of one part: whatever two parts are written, and whatever comes behind them, if
the texts are the same then so are the parts, as far as they can be seen in the text, and so is what
comes behind. What comes behind may have to begin in a way that marks the end. Words end at a
delimiter, quoted texts end by themselves, and a sequence of legible parts ends where no further
part begins.
-/

namespace VocabularyCompiler

/-- The text `write a` can be told from what comes behind it, and tells `view a`, among the texts of
valid parts and if what comes behind marks the end. -/
def Legible {α β : Type} (write : α → List Char) (view : α → β) (Valid : α → Prop)
    (Ends : List Char → Prop) (a : α) : Prop :=
  Valid a → ∀ b, Valid b → ∀ s t, Ends s → Ends t → write a ++ s = write b ++ t →
    view a = view b ∧ s = t

namespace Legible

variable {α β : Type} {write : α → List Char} {view : α → β} {Valid : α → Prop}
  {Ends : List Char → Prop}

/-- A part that ends by itself can be told whatever comes behind it. -/
theorem inj {a b : α} (h : Legible write view Valid (fun _ => True) a) (ha : Valid a)
    (hb : Valid b) {s t : List Char} (heq : write a ++ s = write b ++ t) :
    view a = view b ∧ s = t := h ha b hb s t trivial trivial heq

/-- What is written in front of every part makes no difference. -/
theorem append_left {a : α} (h : Legible write view Valid Ends a) (mark : List Char) :
    Legible (fun a => mark ++ write a) view Valid Ends a := by
  intro ha b hb s t hs ht heq
  rw [List.append_assoc, List.append_assoc, List.append_cancel_left_eq] at heq
  exact h ha b hb s t hs ht heq

/-- Parts one after another are legible if what marks that there is another part also marks the end
of the part before. -/
theorem flatMap (Starts : List Char → Prop) {parts : List α}
    (h : ∀ a ∈ parts, Legible write view Valid Ends a)
    (hstarts : ∀ a, Valid a → ∀ s, Starts (write a ++ s)) (hends : ∀ s, Starts s → Ends s) :
    Legible (fun parts => parts.flatMap write) (List.map view) (fun parts => ∀ a ∈ parts, Valid a)
      (fun s => Ends s ∧ ¬Starts s) parts := by
  have hnext : ∀ parts : List α, (∀ a ∈ parts, Valid a) → ∀ s, Ends s →
      Ends (parts.flatMap write ++ s) := by
    intro parts hvalid s hs
    cases parts with
    | nil => exact hs
    | cons a rest =>
      rw [List.flatMap_cons, List.append_assoc]
      exact hends _ (hstarts a (hvalid a List.mem_cons_self) _)
  -- Where one sequence ends and the other goes on, what comes behind the first would begin a part.
  induction parts with
  | nil =>
    intro _ others hothers s t hs _ heq
    cases others with
    | nil => exact ⟨rfl, heq⟩
    | cons b rest =>
      dsimp only at heq
      rw [List.flatMap_nil, List.nil_append, List.flatMap_cons, List.append_assoc] at heq
      exact absurd (heq ▸ hstarts b (hothers b List.mem_cons_self) _) hs.2
  | cons a parts ih =>
    intro hparts others hothers s t hs ht heq
    dsimp only at heq
    cases others with
    | nil =>
      rw [List.flatMap_nil, List.nil_append, List.flatMap_cons, List.append_assoc] at heq
      exact absurd (heq ▸ hstarts a (hparts a List.mem_cons_self) _) ht.2
    | cons b rest =>
      rw [List.flatMap_cons, List.append_assoc, List.flatMap_cons, List.append_assoc] at heq
      have hparts' := fun a ha => hparts a (List.mem_cons_of_mem _ ha)
      have hothers' := fun b hb => hothers b (List.mem_cons_of_mem _ hb)
      obtain ⟨hview, heq⟩ := h a List.mem_cons_self (hparts a List.mem_cons_self) b
        (hothers b List.mem_cons_self) _ _ (hnext parts hparts' s hs.1) (hnext rest hothers' t ht.1)
        heq
      obtain ⟨hviews, heq⟩ := ih (fun a ha => h a (List.mem_cons_of_mem _ ha)) hparts' rest hothers'
        s t hs ht heq
      exact ⟨congrArg₂ List.cons hview hviews, heq⟩

end Legible

/-- Parts with a separator between neighbours. -/
def writeSeparated {α : Type} (separator : List Char) (write : α → List Char) :
    List α → List Char
  | [] => []
  | a :: rest => write a ++ rest.flatMap fun b => separator ++ write b

/-- Separated parts are legible if a separator marks the end of a part, and if what marks the end of
all neither is a separator nor begins a part. -/
theorem Legible.separated {α β : Type} {write : α → List Char} {view : α → β} {Valid : α → Prop}
    {Ends : List Char → Prop} (separator : List Char) (Starts : List Char → Prop) {parts : List α}
    (h : ∀ a ∈ parts, Legible write view Valid Ends a)
    (hstarts : ∀ a, Valid a → ∀ s, Starts (write a ++ s))
    (hends : ∀ s, separator <+: s → Ends s) :
    Legible (writeSeparated separator write) (List.map view) (fun parts => ∀ a ∈ parts, Valid a)
      (fun s => Ends s ∧ ¬separator <+: s ∧ ¬Starts s) parts := by
  intro hparts others hothers s t hs ht heq
  cases parts with
  | nil =>
    cases others with
    | nil => exact ⟨rfl, heq⟩
    | cons b rest =>
      rw [writeSeparated, writeSeparated, List.nil_append, List.append_assoc] at heq
      exact absurd (heq ▸ hstarts b (hothers b List.mem_cons_self) _) hs.2.2
  | cons a parts =>
    cases others with
    | nil =>
      rw [writeSeparated, writeSeparated, List.nil_append, List.append_assoc] at heq
      exact absurd (heq ▸ hstarts a (hparts a List.mem_cons_self) _) ht.2.2
    | cons b rest =>
      -- Behind the first part there are parts that begin with the separator.
      have hnext : ∀ (parts : List α) (s : List Char), Ends s →
          Ends ((parts.flatMap fun b => separator ++ write b) ++ s) := by
        intro parts s hs
        cases parts with
        | nil => exact hs
        | cons c rest =>
          rw [List.flatMap_cons, List.append_assoc, List.append_assoc]
          exact hends _ (List.prefix_append _ _)
      rw [writeSeparated, writeSeparated, List.append_assoc, List.append_assoc] at heq
      obtain ⟨hview, heq⟩ := h a List.mem_cons_self (hparts a List.mem_cons_self) b
        (hothers b List.mem_cons_self) _ _ (hnext parts s hs.1) (hnext rest t ht.1) heq
      have hrest := Legible.flatMap (fun s => separator <+: s)
        (fun c hc => (h c (List.mem_cons_of_mem _ hc)).append_left separator)
        (fun c _ s => (List.append_assoc separator _ s).symm ▸ List.prefix_append _ _) hends
      obtain ⟨hviews, heq⟩ := hrest (fun c hc => hparts c (List.mem_cons_of_mem _ hc)) rest
        (fun c hc => hothers c (List.mem_cons_of_mem _ hc)) s t ⟨hs.1, hs.2.1⟩ ⟨ht.1, ht.2.1⟩ heq
      exact ⟨congrArg₂ List.cons hview hviews, heq⟩

/-! ## Words and quoted texts -/

/-- Texts of characters with `p` that end where there is none are the same if they are so together
with what comes behind. -/
theorem append_inj_of_ends {p : Char → Bool} {w v s t : List Char} (hw : w.all p = true)
    (hv : v.all p = true) (hs : ∀ c ∈ s.head?, p c = false) (ht : ∀ c ∈ t.head?, p c = false)
    (heq : w ++ s = v ++ t) : w = v ∧ s = t := by
  have htake : ∀ {w s : List Char}, w.all p = true → (∀ c ∈ s.head?, p c = false) →
      (w ++ s).takeWhile p = w := by
    intro w s hw hs
    rw [List.takeWhile_append_of_pos (List.all_eq_true.1 hw)]
    cases s with
    | nil => simp
    | cons c rest => simp [hs c rfl]
  have hword : w = v := by rw [← htake hw hs, heq, htake hv ht]
  subst hword
  exact ⟨rfl, List.append_cancel_left heq⟩

/-- A character that ends a word. -/
def isDelimiter (c : Char) : Bool := c = ' ' || c = '\n' || c = '(' || c = ')' || c = ','

/-- A text that is not empty and has no delimiter in it, such as one of letters, digits,
underscores, points and colons. -/
def isWord (s : String) : Bool := !s.toList.isEmpty && s.toList.all fun c => !isDelimiter c

/-- The text begins with a delimiter, unless it is empty. -/
def EndsWord (s : List Char) : Prop := ∀ c ∈ s.head?, isDelimiter c = true

/-- The text begins with a character that is no delimiter. -/
def StartsWord (s : List Char) : Prop := ∃ c ∈ s.head?, isDelimiter c = false

/-- Words are legible before a delimiter. -/
theorem legible_word (w : String) :
    Legible String.toList id (fun w => isWord w = true) EndsWord w := by
  intro hw v hv s t hs ht heq
  unfold isWord at hw hv
  rw [Bool.and_eq_true] at hw hv
  have hends : ∀ {s : List Char}, EndsWord s → ∀ c ∈ s.head?, (!isDelimiter c) = false :=
    fun hs c hc => by rw [hs c hc]; rfl
  obtain ⟨hword, heq⟩ := append_inj_of_ends hw.2 hv.2 (hends hs) (hends ht) heq
  exact ⟨String.toList_injective hword, heq⟩

/-- A word begins with a character that is no delimiter. -/
theorem startsWord_append {w : String} (hw : isWord w = true) (s : List Char) :
    StartsWord (w.toList ++ s) := by
  unfold isWord at hw
  cases hchars : w.toList with
  | nil => simp [hchars] at hw
  | cons c rest =>
    simp only [hchars, List.isEmpty_cons, Bool.not_false, List.all_cons, Bool.true_and,
      Bool.and_eq_true, Bool.not_eq_true'] at hw
    exact ⟨c, rfl, hw.1⟩

namespace Text

/-- The characters that are escaped in a JSON literal. -/
def escaped : List Char := (List.range 32).map Char.ofNat ++ ['"', '\\']

/-- Any other character stands for itself. -/
theorem escapeJson_of_notMem {c : Char} (h : c ∉ escaped) : escapeJson c = [c] := by
  have hge : ¬c.toNat < 32 := by
    intro hlt
    refine h (List.mem_append_left _ (List.mem_map.2 ⟨c.toNat, ?_, Char.ofNat_toNat c⟩))
    exact List.mem_range.2 hlt
  have hne : ∀ d ∈ escaped, c ≠ d := fun d hd hc => h (hc ▸ hd)
  unfold escapeJson
  rw [if_neg (hne _ (by decide)), if_neg (hne _ (by decide)), if_neg (hne _ (by decide)),
    if_neg (hne _ (by decide)), if_neg (hne _ (by decide)), if_neg (hne _ (by decide)),
    if_neg (hne _ (by decide)), if_neg (by omega), if_neg hge]

/-- What a character is escaped with begins with a backslash. -/
theorem head?_escapeJson {c : Char} (hc : c ∈ escaped) : (escapeJson c).head? = some '\\' := by
  have hall : (escaped.all fun c => decide ((escapeJson c).head? = some '\\')) = true := by decide
  exact of_decide_eq_true (List.all_eq_true.1 hall c hc)

/-- No two characters are escaped alike, not even in part. -/
theorem escapeJson_prefix_inj {c d : Char} (hc : c ∈ escaped) (hd : d ∈ escaped)
    (hbegins : escapeJson c <+: escapeJson d) : c = d := by
  have hall : (escaped.all fun c => escaped.all fun d =>
      decide (escapeJson c <+: escapeJson d → c = d)) = true := by decide +kernel
  exact of_decide_eq_true (List.all_eq_true.1 (List.all_eq_true.1 hall c hc) d hd) hbegins

/-- A character of a JSON literal is legible, whatever comes behind it. -/
theorem legible_escapeJson (c : Char) :
    Legible escapeJson id (fun _ => True) (fun _ => True) c := by
  -- What is escaped begins with a backslash, and what is not does not.
  have hmixed : ∀ {c d : Char} {s t : List Char}, c ∈ escaped → d ∉ escaped →
      escapeJson c ++ s ≠ escapeJson d ++ t := by
    intro c d s t hc hd heq
    have hhead := congrArg List.head? heq
    rw [List.head?_append, head?_escapeJson hc, escapeJson_of_notMem hd] at hhead
    obtain rfl := Option.some.inj hhead
    exact hd (by decide)
  intro _ d _ s t _ _ heq
  by_cases hc : c ∈ escaped
  · by_cases hd : d ∈ escaped
    · have hcd : c = d := by
        rcases List.prefix_or_prefix_of_prefix (List.prefix_append (escapeJson c) s)
          (heq ▸ List.prefix_append (escapeJson d) t) with hprefix | hprefix
        · exact escapeJson_prefix_inj hc hd hprefix
        · exact (escapeJson_prefix_inj hd hc hprefix).symm
      subst hcd
      exact ⟨rfl, List.append_cancel_left heq⟩
    · exact absurd heq (hmixed hc hd)
  · by_cases hd : d ∈ escaped
    · exact absurd heq.symm (hmixed hd hc)
    · rw [escapeJson_of_notMem hc, escapeJson_of_notMem hd] at heq
      exact List.cons.inj heq

/-- A quote inside a JSON literal is escaped. -/
theorem head?_escapeJson_ne (c : Char) (s : List Char) :
    ∃ d ∈ (escapeJson c ++ s).head?, d ≠ '"' := by
  by_cases hc : c ∈ escaped
  · exact ⟨'\\', by rw [List.head?_append, head?_escapeJson hc]; rfl, by decide⟩
  · rw [escapeJson_of_notMem hc]
    exact ⟨c, rfl, fun h => hc (h ▸ by decide)⟩

/-- JSON literals are legible, whatever comes behind them. -/
theorem legible_jsonLiteral (s : String) :
    Legible (fun s => (jsonLiteral s).toList) id (fun _ => True) (fun _ => True) s := by
  intro _ r _ s' t' _ _ heq
  dsimp only [jsonLiteral] at heq
  rw [String.toList_ofList, String.toList_ofList, jsonLiteralChars, jsonLiteralChars,
    List.cons_append, List.cons_append, List.cons.injEq, List.append_assoc,
    List.append_assoc] at heq
  have hquote : ∀ t : List Char, ¬∃ d ∈ (['"'] ++ t).head?, d ≠ '"' := by
    rintro t ⟨d, hd, hne⟩
    cases hd
    exact hne rfl
  obtain ⟨hchars, hrest⟩ := Legible.flatMap (fun s => ∃ d ∈ s.head?, d ≠ '"')
    (fun c (_ : c ∈ s.toList) => legible_escapeJson c) (fun c _ s => head?_escapeJson_ne c s)
    (fun _ _ => trivial) (fun _ _ => trivial) r.toList (fun _ _ => trivial) _ _
    ⟨trivial, hquote s'⟩ ⟨trivial, hquote t'⟩ heq.2
  rw [List.map_id, List.map_id] at hchars
  exact ⟨String.toList_injective hchars, List.append_cancel_left hrest⟩

/-- A JSON literal can be told from what comes behind it. -/
theorem jsonLiteral_inj {s r : String} {t t' : List Char}
    (heq : (jsonLiteral s).toList ++ t = (jsonLiteral r).toList ++ t') : s = r ∧ t = t' :=
  (legible_jsonLiteral s).inj trivial trivial heq

end Text

end VocabularyCompiler
