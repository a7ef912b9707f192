/-!
# Sets that remember the order of insertion

A set is the list of its members, each once. A member that is inserted again stays where it is.
-/

namespace VocabularyCompiler

/-- A finite set whose members stand in the order in which they were first inserted. -/
structure OrderedSet (α : Type _) where
  /-- The members, oldest first. -/
  items : List α
  /-- No member occurs twice. -/
  nodup : items.Nodup

namespace OrderedSet

variable {α : Type _}

@[ext]
theorem ext {s t : OrderedSet α} (h : s.items = t.items) : s = t := by
  cases s; cases t; cases h; rfl

instance [DecidableEq α] : DecidableEq (OrderedSet α) := fun s t =>
  if h : s.items = t.items then isTrue (ext h) else isFalse fun e => h (e ▸ rfl)

/-- The set without members. -/
def empty : OrderedSet α := ⟨[], List.nodup_nil⟩

instance : EmptyCollection (OrderedSet α) := ⟨empty⟩

instance : Inhabited (OrderedSet α) := ⟨empty⟩

/-- Whether `a` is a member. -/
def contains [DecidableEq α] (s : OrderedSet α) (a : α) : Bool := decide (a ∈ s.items)

/-- Adds a member at the end, unless it is there already. -/
def insert [DecidableEq α] (s : OrderedSet α) (a : α) : OrderedSet α :=
  if h : a ∈ s.items then s else
    { items := s.items ++ [a]
      nodup := List.nodup_append.2 ⟨s.nodup, by simp, fun x hx y hy e =>
        h (by rw [List.mem_singleton] at hy; exact hy ▸ e ▸ hx)⟩ }

/-- The members of a list, each at its first occurrence. -/
def ofList [DecidableEq α] (l : List α) : OrderedSet α := l.foldl insert ∅

theorem items_insert [DecidableEq α] (s : OrderedSet α) (a : α) :
    (s.insert a).items = if a ∈ s.items then s.items else s.items ++ [a] := by
  unfold insert
  split <;> rfl

theorem contains_iff_mem [DecidableEq α] (s : OrderedSet α) (a : α) :
    s.contains a = true ↔ a ∈ s.items := by
  simp [contains]

end OrderedSet

end VocabularyCompiler
