import VocabularyCompiler.ClassDefinition.Json
import VocabularyCompiler.Proofs.Json.Texts

/-!
# Types and phrases in texts

What is made of a written type or phrase set in memory is made of it in a text too. The readers are
put together from those that carry their results along, but for the members of a phrase set, which
are read in two rounds. A type is read in as many steps as there are types around the innermost one,
so its proof is by induction on the steps.
-/

namespace VocabularyCompiler

open Json

/-! ## Phrases -/

/-- The tag of phrases is the same in a text. -/
theorem PhraseTag.carries_read : PhraseTag.read.Carries .memory .text :=
  Reader.carries_variant (List.forall_mem_map.2 fun _ _ => trivial)

namespace PhraseSet

/-- The fields that stand beside the tags are the same in a text. -/
theorem carries_flags : ∀ f ∈ flags, ∀ d, (f.read d).Carries .memory .text := by
  unfold flags
  simp only [List.forall_mem_cons]
  exact ⟨fun _ => PhraseTag.carries_read.map _, fun _ => Reader.carries_bool.map _,
    fun _ => Reader.carries_bool.map _, List.forall_mem_nil _⟩

/-- The members of a set are the same in a text. -/
theorem readMembers_carries {n : Nat} (ms : List (String × Value)) (d : Draft)
    (seen : List String) {result : Draft}
    (h : readMembers ⟨.memory, n⟩ d seen (Source.ofMembers ms) = .ok result) :
    readMembers ⟨.text, n⟩ d seen (Source.ofMembers ms) = .ok result := by
  induction ms generalizing d seen with
  | nil => exact h
  | cons m rest ih =>
    obtain ⟨key, v⟩ := m
    rw [Source.ofMembers, readMembers] at h ⊢
    cases hfind : flags.find? fun f => f.isNamed key with
    | none =>
      simp only [hfind] at h ⊢
      obtain ⟨w, hany, hrest⟩ := bind_eq_ok_iff.1 h
      exact bind_eq_ok_iff.2 ⟨w, hany, ih _ seen hrest⟩
    | some f =>
      simp only [hfind] at h ⊢
      split at h
      next => cases h
      next hnew =>
        rw [if_neg hnew]
        obtain ⟨d', hread, hrest⟩ := bind_eq_ok_iff.1 h
        rw [Reader.atMember_eq_ok_iff] at hread
        exact bind_eq_ok_iff.2 ⟨d', Reader.atMember_eq_ok_iff.2 ⟨hread.1,
          carries_flags f (List.mem_of_find?_eq_some hfind) d v n d' hread.2⟩, ih d' _ hrest⟩

/-- Phrase sets are the same in a text: the phrases are read where the members were put aside, which
is in memory. -/
theorem carries_read : PhraseSet.read.Carries .memory .text := by
  intro v b s hs
  cases v with
  | object ms =>
    obtain ⟨n, rfl, hinner⟩ := Reader.exists_of_enter_bind_eq_ok hs
    obtain ⟨d, hmembers, hend⟩ := bind_eq_ok_iff.1 hinner
    exact bind_eq_ok_iff.2 ⟨_, Reader.enter_succ .text n,
      bind_eq_ok_iff.2 ⟨d, readMembers_carries ms {} [] hmembers, hend⟩⟩
  | null | bool _ | number _ | string _ | array _ => cases hs

end PhraseSet

/-! ## Types and fields -/

/-- Annotations are the same in a text. -/
theorem Annotations.carries_read : Annotations.read.Carries .memory .text := by
  refine Reader.carries_record ?_ _ _
  simp only [List.forall_mem_cons]
  exact ⟨fun _ => Reader.carries_string.option.map _, fun _ => Reader.carries_bool.option.map _,
    fun _ => Reader.carries_bool.option.map _, fun _ => Reader.carries_bool.option.map _,
    fun _ => Reader.carries_string.option.map _, List.forall_mem_nil _⟩

/-- A field is the same in a text if its type is. -/
theorem Field.carries_readWith {readType : Reader ValueType}
    (h : readType.Carries .memory .text) : (Field.readWith readType).Carries .memory .text := by
  refine Reader.carries_record ?_ _ _
  simp only [List.forall_mem_cons]
  exact ⟨fun _ => Reader.carries_string.map _, fun _ => h.map _,
    fun _ => PhraseSet.carries_read.option.map _, fun _ => Annotations.carries_read.map _,
    List.forall_mem_nil _⟩

namespace ValueType

/-- Types are the same in a text, however many steps are taken. -/
theorem carries_readWithin (steps : Nat) : (readWithin steps).Carries .memory .text := by
  induction steps with
  | zero =>
    intro v b t ht
    cases ht
  | succ n ih =>
    have hcompound : (Reader.record "struct variant Ty::Compound"
        [.mandatory "name" .string fun p v => (v, p.2),
          .mandatory "fields" (.list (Field.readWith (readWithin n))) fun p v => (p.1, v)]
        (("", []) : String × List Field)).Carries .memory .text := by
      refine Reader.carries_record ?_ _ _
      simp only [List.forall_mem_cons]
      exact ⟨fun _ => Reader.carries_string.map _,
        fun _ => (Field.carries_readWith ih).list.map _, List.forall_mem_nil _⟩
    refine Reader.carries_variant ?_
    unfold variants
    simp only [List.forall_mem_cons]
    exact ⟨trivial, trivial, trivial, trivial, trivial, trivial, trivial, trivial,
      Reader.carries_string.map _, Reader.carries_string.map _, Reader.carries_string.list.map _,
      ih.map _, hcompound.map _, List.forall_mem_nil _⟩

/-- Types are the same in a text. -/
theorem carries_read : ValueType.read.Carries .memory .text :=
  fun v b t ht => carries_readWithin (b + 1) v b t ht

end ValueType

end VocabularyCompiler
