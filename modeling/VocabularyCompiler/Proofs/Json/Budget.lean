import VocabularyCompiler.Proofs.Json.Reading

/-!
# Values of any depth

The budget of a reader bounds how deep it goes into a text. A value in memory is read with a budget
that it cannot use up, and then it does not matter how large the budget is: a part of a value is
read the same, error or not, wherever it stands (`Reader.Steady`).
-/

namespace VocabularyCompiler.Json.Reader

variable {α β σ : Type}

/-- What a reader makes of a value does not depend on the budget, if as many containers may be
opened as there are in the value, one inside the other. -/
def Steady (read : Reader α) : Prop :=
  ∀ (v : Value) {b b' : Nat}, (Source.ofValue v).height ≤ b → (Source.ofValue v).height ≤ b' →
    read ⟨.memory, b⟩ (.ofValue v) = read ⟨.memory, b'⟩ (.ofValue v)

/-- Anywhere in memory, a value is read as it is alone. -/
theorem Steady.eq_readValue {read : Reader α} (h : read.Steady) {v : Value} {b : Nat}
    (hb : (Source.ofValue v).height ≤ b) :
    read ⟨.memory, b⟩ (.ofValue v) = readValue read v := h v hb (Nat.le_refl _)

/-- What is read of a value alone is read of it anywhere. -/
theorem Steady.reads {read : Reader α} (h : read.Steady) {v : Value} {a : α}
    (ha : readValue read v = .ok a) : read.Reads v a := fun _ hb => (h.eq_readValue hb).trans ha

/-- A string does not depend on the budget. -/
theorem steady_string : Reader.string.Steady := fun v _ _ _ _ => by cases v <;> rfl

/-- What is made of the result does not depend on the budget either. -/
theorem Steady.map {read : Reader α} (h : read.Steady) (f : α → β) :
    Steady fun scope source => (read scope source).map f :=
  fun v _ _ hb hb' => congrArg (Except.map f) (h v hb hb')

/-- Leaving a value out does not depend on the budget. -/
theorem Steady.option {read : Reader α} (h : read.Steady) : (option read).Steady := by
  intro v b b' hb hb'
  have hread := h v hb hb'
  cases v with
  | null => rfl
  | bool _ | number _ | string _ | array _ | object _ =>
    unfold Reader.option
    exact congrArg (Except.map some) hread

/-- An array does not depend on the budget if its items do not. -/
theorem Steady.sequence {read : Reader α} (h : read.Steady) (expected : String) :
    (sequence expected read).Steady := by
  have hitems : ∀ (items : List Value) (i : Nat) {b b' : Nat},
      Source.heightOfItems (Source.ofItems items) ≤ b →
        Source.heightOfItems (Source.ofItems items) ≤ b' →
          Reader.items (read ⟨.memory, b⟩) i (Source.ofItems items) =
            Reader.items (read ⟨.memory, b'⟩) i (Source.ofItems items) := by
    intro items
    induction items with
    | nil => exact fun _ _ _ _ _ => rfl
    | cons v rest ih =>
      intro i b b' hb hb'
      obtain ⟨hv, hrest⟩ := Nat.max_le.1 hb
      obtain ⟨hv', hrest'⟩ := Nat.max_le.1 hb'
      rw [Source.ofItems, Reader.items, Reader.items, h v hv hv', ih (i + 1) hrest hrest']
  intro v b b' hb hb'
  cases v with
  | null | bool _ | number _ | string _ | object _ => rfl
  | array items =>
    rw [Source.ofValue, Source.height] at hb hb'
    obtain ⟨n, rfl⟩ : ∃ n, b = n + 1 := ⟨b - 1, by omega⟩
    obtain ⟨n', rfl⟩ : ∃ n, b' = n + 1 := ⟨b' - 1, by omega⟩
    have heq := hitems items 0 (Nat.le_of_succ_le_succ hb) (Nat.le_of_succ_le_succ hb')
    simp only [Source.ofValue, Reader.sequence, enter_succ, bind, Except.bind, heq]

mutual

/-- Any value is read with any budget that is large enough. -/
theorem any_ofValue_eq : ∀ (v : Value) {b b' : Nat}, (Source.ofValue v).height ≤ b →
    (Source.ofValue v).height ≤ b' → any b (.ofValue v) = any b' (.ofValue v)
  | .null, _, _, _, _ | .bool _, _, _, _, _ | .number _, _, _, _, _ | .string _, _, _, _, _ => rfl
  | .array _, 0, _, h, _ | .object _, 0, _, h, _ => absurd h (Nat.not_succ_le_zero _)
  | .array _, _ + 1, 0, _, h | .object _, _ + 1, 0, _, h => absurd h (Nat.not_succ_le_zero _)
  | .array items, n + 1, n' + 1, h, h' => by
    have hitems := anyItems_ofItems_eq items 0 (Nat.le_of_succ_le_succ h)
      (Nat.le_of_succ_le_succ h')
    change (anyItems n 0 (Source.ofItems items) >>= fun vs => pure (Value.array vs)) =
      (anyItems n' 0 (Source.ofItems items) >>= fun vs => pure (Value.array vs))
    rw [hitems]
  | .object members, n + 1, n' + 1, h, h' => by
    have hmembers := anyMembers_ofMembers_eq members (Nat.le_of_succ_le_succ h)
      (Nat.le_of_succ_le_succ h')
    change (anyMembers n (Source.ofMembers members) >>= fun ms =>
        pure (Value.object (OrderedMap.ofList ms).entries)) =
      (anyMembers n' (Source.ofMembers members) >>= fun ms =>
        pure (Value.object (OrderedMap.ofList ms).entries))
    rw [hmembers]
termination_by structural v => v

/-- Any items are read with any budget that is large enough. -/
theorem anyItems_ofItems_eq : ∀ (items : List Value) (i : Nat) {b b' : Nat},
    Source.heightOfItems (Source.ofItems items) ≤ b →
      Source.heightOfItems (Source.ofItems items) ≤ b' →
        anyItems b i (Source.ofItems items) = anyItems b' i (Source.ofItems items)
  | [], _, _, _, _, _ => rfl
  | v :: rest, i, b, b', h, h' => by
    obtain ⟨hv, hrest⟩ := Nat.max_le.1 h
    obtain ⟨hv', hrest'⟩ := Nat.max_le.1 h'
    rw [Source.ofItems, anyItems, anyItems, any_ofValue_eq v hv hv',
      anyItems_ofItems_eq rest (i + 1) hrest hrest']
termination_by structural items => items

/-- Any members are read with any budget that is large enough. -/
theorem anyMembers_ofMembers_eq : ∀ (members : List (String × Value)) {b b' : Nat},
    Source.heightOfMembers (Source.ofMembers members) ≤ b →
      Source.heightOfMembers (Source.ofMembers members) ≤ b' →
        anyMembers b (Source.ofMembers members) = anyMembers b' (Source.ofMembers members)
  | [], _, _, _, _ => rfl
  | (key, v) :: rest, b, b', h, h' => by
    obtain ⟨hv, hrest⟩ := Nat.max_le.1 h
    obtain ⟨hv', hrest'⟩ := Nat.max_le.1 h'
    rw [Source.ofMembers, anyMembers, anyMembers, any_ofValue_eq v hv hv',
      anyMembers_ofMembers_eq rest hrest hrest']
    all_goals exact Source.ofValue_ne_unset v
termination_by structural members => members

end

/-- Any value is read, whatever the budget beyond its height. -/
theorem steady_value : Reader.value.Steady := fun v _ _ hb hb' => any_ofValue_eq v hb hb'

/-- The form of a value does not depend on the budget. -/
theorem steady_oneOf (type : String) (fit : Source → Option α) : (oneOf type fit).Steady := by
  intro v b b' hb hb'
  have hany := any_ofValue_eq v hb hb'
  rw [oneOf, oneOf, hany]

/-- The members of a record do not depend on the budget if its fields do not. -/
theorem recordMembers_ofMembers_eq {fields : List (FieldReader σ)}
    (hfields : ∀ f ∈ fields, ∀ st, (f.read st).Steady) {ms : List (String × Value)} {b b' : Nat}
    (h : Source.heightOfMembers (Source.ofMembers ms) ≤ b)
    (h' : Source.heightOfMembers (Source.ofMembers ms) ≤ b') (st : σ) (seen : List String) :
    recordMembers fields ⟨.memory, b⟩ st seen (Source.ofMembers ms) =
      recordMembers fields ⟨.memory, b'⟩ st seen (Source.ofMembers ms) := by
  induction ms generalizing st seen with
  | nil => rfl
  | cons m rest ih =>
    obtain ⟨key, v⟩ := m
    obtain ⟨hv, hrest⟩ := Nat.max_le.1 h
    obtain ⟨hv', hrest'⟩ := Nat.max_le.1 h'
    rw [Source.ofMembers, recordMembers, recordMembers]
    cases hfind : fields.find? fun f => f.isNamed key with
    | none => simp only [ih hrest hrest']
    | some f =>
      have hread := hfields f (List.mem_of_find?_eq_some hfind) st v hv hv'
      simp only [atMember_ofValue, hread, ih hrest hrest']

/-- The items of a record do not depend on the budget if its fields do not. -/
theorem recordItems_ofItems_eq (expected : String) {fields : List (FieldReader σ)}
    (hfields : ∀ f ∈ fields, ∀ st, (f.read st).Steady) (vs : List Value) {b b' : Nat}
    (h : Source.heightOfItems (Source.ofItems vs) ≤ b)
    (h' : Source.heightOfItems (Source.ofItems vs) ≤ b') (i : Nat) (st : σ) :
    recordItems expected ⟨.memory, b⟩ none i st fields (Source.ofItems vs) =
      recordItems expected ⟨.memory, b'⟩ none i st fields (Source.ofItems vs) := by
  induction fields generalizing vs i st with
  | nil => rfl
  | cons f fields ih =>
    obtain ⟨hf, hrest⟩ := List.forall_mem_cons.1 hfields
    cases vs with
    | nil =>
      have hnext := ih hrest [] (Nat.zero_le b) (Nat.zero_le b') (i + 1) st
      rw [Source.ofItems] at hnext ⊢
      simp only [recordItems, hnext]
    | cons v vs =>
      obtain ⟨hv, hvs⟩ := Nat.max_le.1 h
      obtain ⟨hv', hvs'⟩ := Nat.max_le.1 h'
      have hread := hf st v hv hv'
      have hnext := ih hrest vs hvs hvs' (i + 1)
      rw [Source.ofItems]
      simp only [recordItems, hread, hnext]

/-- A record does not depend on the budget if its fields do not. -/
theorem steady_record {expected : String} {fields : List (FieldReader σ)} {start : σ}
    (hfields : ∀ f ∈ fields, ∀ st, (f.read st).Steady) :
    (record expected fields start).Steady := by
  intro v b b' hb hb'
  cases v with
  | null | bool _ | number _ | string _ => rfl
  | array vs =>
    rw [Source.ofValue, Source.height] at hb hb'
    obtain ⟨n, rfl⟩ : ∃ n, b = n + 1 := ⟨b - 1, by omega⟩
    obtain ⟨n', rfl⟩ : ∃ n, b' = n + 1 := ⟨b' - 1, by omega⟩
    have hitems (label : String) := recordItems_ofItems_eq label hfields vs
      (Nat.le_of_succ_le_succ hb) (Nat.le_of_succ_le_succ hb') 0 start
    simp only [Source.ofValue, record, enter_succ, bind, Except.bind, hitems]
  | object ms =>
    rw [Source.ofValue, Source.height] at hb hb'
    obtain ⟨n, rfl⟩ : ∃ n, b = n + 1 := ⟨b - 1, by omega⟩
    obtain ⟨n', rfl⟩ : ∃ n, b' = n + 1 := ⟨b' - 1, by omega⟩
    have hmembers := recordMembers_ofMembers_eq hfields
      (Nat.le_of_succ_le_succ hb) (Nat.le_of_succ_le_succ hb') start []
    simp only [Source.ofValue, record, recordObject, enter_succ, bind, Except.bind, hmembers]

end VocabularyCompiler.Json.Reader
