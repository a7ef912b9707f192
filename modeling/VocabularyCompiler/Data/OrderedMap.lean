/-!
# Maps that remember the order of insertion

A map is the list of its entries. Writing a key that is already there replaces its value and
leaves its position; a new key goes to the end. No key occurs twice, and that is part of the type,
so a map and the list of its entries determine each other.
-/

namespace VocabularyCompiler

variable {κ α β : Type _}

/-- Entries with `k` set to `v`: in place if `k` occurs, at the end if not. -/
def insertEntry [DecidableEq κ] (k : κ) (v : α) : List (κ × α) → List (κ × α)
  | [] => [(k, v)]
  | (k', v') :: rest => if k' = k then (k', v) :: rest else (k', v') :: insertEntry k v rest

theorem map_fst_insertEntry [DecidableEq κ] (k : κ) (v : α) (l : List (κ × α)) :
    (insertEntry k v l).map Prod.fst =
      if k ∈ l.map Prod.fst then l.map Prod.fst else l.map Prod.fst ++ [k] := by
  induction l with
  | nil => simp [insertEntry]
  | cons e rest ih =>
    obtain ⟨k', v'⟩ := e
    by_cases h : k' = k
    · simp [insertEntry, h]
    · have h' : ¬ k = k' := fun e => h e.symm
      simp only [insertEntry, h, if_false, List.map_cons, ih, List.mem_cons, h', false_or]
      split <;> rfl

/-- A new key goes to the end. -/
theorem insertEntry_of_notMem [DecidableEq κ] {k : κ} {v : α} {l : List (κ × α)}
    (h : k ∉ l.map Prod.fst) : insertEntry k v l = l ++ [(k, v)] := by
  induction l with
  | nil => rfl
  | cons e rest ih =>
    rw [List.map_cons, List.mem_cons, not_or] at h
    rw [insertEntry, if_neg (Ne.symm h.1), ih h.2]
    rfl

/-- A finite map whose entries stand in the order in which their keys were first inserted. -/
structure OrderedMap (κ : Type _) (α : Type _) where
  /-- The entries, oldest key first. -/
  entries : List (κ × α)
  /-- No key occurs twice. -/
  nodup : (entries.map Prod.fst).Nodup

namespace OrderedMap

@[ext]
theorem ext {m n : OrderedMap κ α} (h : m.entries = n.entries) : m = n := by
  cases m; cases n; cases h; rfl

instance [DecidableEq κ] [DecidableEq α] : DecidableEq (OrderedMap κ α) := fun m n =>
  if h : m.entries = n.entries then isTrue (ext h) else isFalse fun e => h (e ▸ rfl)

/-- The map without entries. -/
def empty : OrderedMap κ α := ⟨[], List.nodup_nil⟩

instance : EmptyCollection (OrderedMap κ α) := ⟨empty⟩

instance : Inhabited (OrderedMap κ α) := ⟨empty⟩

/-- The keys, oldest first. -/
def keys (m : OrderedMap κ α) : List κ := m.entries.map Prod.fst

/-- The values, oldest key first. -/
def values (m : OrderedMap κ α) : List α := m.entries.map Prod.snd

/-- The number of keys. -/
def size (m : OrderedMap κ α) : Nat := m.entries.length

/-- Sets a key: in place if it is there already, at the end if not. -/
def insert [DecidableEq κ] (m : OrderedMap κ α) (k : κ) (v : α) : OrderedMap κ α where
  entries := insertEntry k v m.entries
  nodup := by
    rw [map_fst_insertEntry]
    split
    · exact m.nodup
    · rename_i h
      exact List.nodup_append.2 ⟨m.nodup, by simp, fun a ha b hb e =>
        h (by rw [List.mem_singleton] at hb; exact hb ▸ e ▸ ha)⟩

/-- The value of a key. -/
def get? [DecidableEq κ] (m : OrderedMap κ α) (k : κ) : Option α :=
  (m.entries.find? fun e => e.1 = k).map Prod.snd

/-- Whether a key is there. -/
def contains [DecidableEq κ] (m : OrderedMap κ α) (k : κ) : Bool :=
  m.entries.any fun e => e.1 = k

/-- The map that results from inserting pairs one after another: the last value of a key wins, at
the position of the key's first pair. -/
def ofList [DecidableEq κ] (l : List (κ × α)) : OrderedMap κ α :=
  l.foldl (fun m e => m.insert e.1 e.2) ∅

/-- Changes every value, seeing its key. -/
def mapWithKey (f : κ → α → β) (m : OrderedMap κ α) : OrderedMap κ β where
  entries := m.entries.map fun e => (e.1, f e.1 e.2)
  nodup := by simpa [Function.comp_def] using m.nodup

/-- Changes the value of one key, if the key is there. -/
def modify [DecidableEq κ] (m : OrderedMap κ α) (k : κ) (f : α → α) : OrderedMap κ α :=
  m.mapWithKey fun k' v => if k' = k then f v else v

@[simp]
theorem keys_empty : (∅ : OrderedMap κ α).keys = [] := rfl

theorem keys_insert [DecidableEq κ] (m : OrderedMap κ α) (k : κ) (v : α) :
    (m.insert k v).keys = if k ∈ m.keys then m.keys else m.keys ++ [k] :=
  map_fst_insertEntry k v m.entries

@[simp]
theorem keys_mapWithKey (f : κ → α → β) (m : OrderedMap κ α) : (m.mapWithKey f).keys = m.keys := by
  simp [keys, mapWithKey, Function.comp_def]

theorem contains_iff_mem_keys [DecidableEq κ] (m : OrderedMap κ α) (k : κ) :
    m.contains k = true ↔ k ∈ m.keys := by
  simp [contains, keys]

/-- The value of a key is the one that it has an entry with. -/
theorem get?_eq_some_iff [DecidableEq κ] {m : OrderedMap κ α} {k : κ} {v : α} :
    m.get? k = some v ↔ (k, v) ∈ m.entries := by
  obtain ⟨l, hl⟩ := m
  unfold get?
  dsimp only
  induction l with
  | nil => simp
  | cons e rest ih =>
    obtain ⟨k', v'⟩ := e
    rw [List.map_cons, List.nodup_cons] at hl
    by_cases hk : k' = k
    · subst hk
      have hnot : (k', v) ∉ rest := fun h => hl.1 (List.mem_map.2 ⟨_, h, rfl⟩)
      simp [hnot, eq_comm]
    · have hk' : ¬k = k' := fun h => hk h.symm
      simp only [List.find?_cons, hk, decide_false, ih hl.2, List.mem_cons, Prod.mk.injEq, hk',
        false_and, false_or]

/-- A key has a value if and only if it is there. -/
theorem contains_eq_isSome_get? [DecidableEq κ] (m : OrderedMap κ α) (k : κ) :
    m.contains k = (m.get? k).isSome := by
  rw [get?, Option.isSome_map, List.isSome_find?]
  rfl

/-- Setting a key changes the value of that key only. -/
theorem get?_insert [DecidableEq κ] (m : OrderedMap κ α) (k k' : κ) (v : α) :
    (m.insert k v).get? k' = if k = k' then some v else m.get? k' := by
  obtain ⟨l, hl⟩ := m
  unfold get? insert
  dsimp only
  clear hl
  induction l with
  | nil => by_cases h : k = k' <;> simp [insertEntry, h]
  | cons e rest ih =>
    obtain ⟨k₁, v₁⟩ := e
    unfold insertEntry
    by_cases h₁ : k₁ = k
    · subst h₁
      by_cases h : k₁ = k' <;> simp [h]
    · rw [if_neg h₁]
      by_cases h : k₁ = k'
      · subst h
        have hne : ¬k = k₁ := fun h => h₁ h.symm
        simp [hne]
      · simp only [List.find?_cons, h, decide_false]
        exact ih

theorem get?_mapWithKey [DecidableEq κ] (f : κ → α → β) (m : OrderedMap κ α) (k : κ) :
    (m.mapWithKey f).get? k = (m.get? k).map (f k) := by
  obtain ⟨l, hl⟩ := m
  unfold get? mapWithKey
  dsimp only
  clear hl
  induction l with
  | nil => rfl
  | cons e rest ih =>
    obtain ⟨k', v⟩ := e
    by_cases h : k' = k
    · subst h; simp
    · simp only [List.map_cons, List.find?_cons, h, decide_false]
      exact ih

/-- One change of all values after another is one change. -/
theorem mapWithKey_mapWithKey {γ : Type _} (f : κ → α → β) (g : κ → β → γ) (m : OrderedMap κ α) :
    (m.mapWithKey f).mapWithKey g = m.mapWithKey fun k v => g k (f k v) := ext List.map_map

/-- The values are those that are found under a key. -/
theorem mem_values_iff [DecidableEq κ] {m : OrderedMap κ α} {v : α} :
    v ∈ m.values ↔ ∃ k, m.get? k = some v := by
  unfold values
  simp only [get?_eq_some_iff, List.mem_map, Prod.exists, exists_eq_right]

/-- A map is left as it is if and only if every value in it is. -/
theorem mapWithKey_eq_self_iff [DecidableEq κ] {f : κ → α → α} {m : OrderedMap κ α} :
    m.mapWithKey f = m ↔ ∀ k v, m.get? k = some v → f k v = v := by
  constructor
  · intro h k v hk
    have hget := get?_mapWithKey f m k
    rw [h, hk] at hget
    exact (Option.some_inj.1 hget).symm
  · intro h
    refine ext ((List.map_congr_left fun e he => ?_).trans (List.map_id _))
    rw [h e.1 e.2 (get?_eq_some_iff.2 he)]
    rfl

/-- A map is its keys, in order, and what is found under them. -/
theorem ext_get? [DecidableEq κ] {m n : OrderedMap κ α} (hkeys : m.keys = n.keys)
    (hget : ∀ k, m.get? k = n.get? k) : m = n := by
  have hentries : ∀ m : OrderedMap κ α,
      m.entries.map some = m.keys.map fun k => (m.get? k).map (Prod.mk k) := by
    intro m
    unfold keys
    rw [List.map_map]
    refine List.map_congr_left fun e he => ?_
    rw [Function.comp_apply, get?_eq_some_iff.2 he]
    rfl
  refine ext ((List.map_inj_right fun _ _ => Option.some.inj).1 ?_)
  rw [hentries m, hentries n, hkeys, funext hget]

/-- A key that is set to a value twice is set to it once. -/
theorem insert_insert_self [DecidableEq κ] (m : OrderedMap κ α) (k : κ) (v : α) :
    (m.insert k v).insert k v = m.insert k v := by
  refine ext_get? ?_ fun k' => ?_
  · rw [keys_insert, if_pos]
    rw [keys_insert]
    split
    next h => exact h
    next => exact List.mem_append_right _ (List.mem_singleton_self k)
  · rw [get?_insert, get?_insert]
    split <;> rfl

/-- A change of all values does not change which keys are there. -/
theorem contains_mapWithKey [DecidableEq κ] (f : κ → α → β) (m : OrderedMap κ α) (k : κ) :
    (m.mapWithKey f).contains k = m.contains k := by
  rw [contains_eq_isSome_get?, contains_eq_isSome_get?, get?_mapWithKey, Option.isSome_map]

/-- All values can be changed before another one is set. -/
theorem mapWithKey_insert [DecidableEq κ] (f : κ → α → β) (m : OrderedMap κ α) (k : κ) (v : α) :
    (m.insert k v).mapWithKey f = (m.mapWithKey f).insert k (f k v) := by
  refine ext_get? ?_ fun k' => ?_
  · simp only [keys_insert, keys_mapWithKey]
  · rw [get?_mapWithKey, get?_insert, get?_insert, get?_mapWithKey]
    by_cases h : k = k'
    · rw [if_pos h, if_pos h, h]
      rfl
    · rw [if_neg h, if_neg h]

/-- Pairs are the entries of the map that they make if and only if no key occurs twice. -/
theorem entries_ofList_eq_iff [DecidableEq κ] {l : List (κ × α)} :
    (ofList l).entries = l ↔ (l.map Prod.fst).Nodup := by
  have hfold : ∀ (l : List (κ × α)) (m : OrderedMap κ α),
      ((m.entries ++ l).map Prod.fst).Nodup →
        (l.foldl (fun m e => m.insert e.1 e.2) m).entries = m.entries ++ l := by
    intro l
    induction l with
    | nil => simp
    | cons e rest ih =>
      intro m hnodup
      have hnew : e.1 ∉ m.entries.map Prod.fst := by
        rw [List.map_append, List.nodup_append] at hnodup
        exact fun h => hnodup.2.2 e.1 h e.1 (by simp) rfl
      have hinsert : (m.insert e.1 e.2).entries = m.entries ++ [e] := insertEntry_of_notMem hnew
      rw [List.foldl_cons, ih, hinsert, List.append_assoc]
      · rfl
      · rw [hinsert, List.append_assoc]
        exact hnodup
  refine ⟨fun h => ?_, fun h => hfold l ∅ h⟩
  rw [← h]
  exact (ofList l).nodup

/-- Every entry is one of the pairs that the map is made from. -/
theorem entries_ofList_subset [DecidableEq κ] {l : List (κ × α)} : (ofList l).entries ⊆ l := by
  refine List.foldlRecOn l _ (motive := fun m : OrderedMap κ α => m.entries ⊆ l)
    (List.nil_subset l) fun m hm e he => ?_
  rintro ⟨k, v⟩ hkv
  rw [← get?_eq_some_iff, get?_insert] at hkv
  split at hkv
  next hk =>
    obtain rfl : e = (k, v) := Prod.ext hk (Option.some_inj.1 hkv)
    exact he
  next => exact hm (get?_eq_some_iff.1 hkv)

end OrderedMap

end VocabularyCompiler
