import Mathlib.Data.List.Induction
import VocabularyCompiler.Data.OrderedMap
import VocabularyCompiler.Data.OrderedSet

/-!
# Things at their first occurrence

Sets and maps that remember the order of insertion, the types of a graph under construction, and
what a walk has met have one thing in common: what is added goes to the end if it is new, and is
passed over if not. So what was added one after another stands where it occurred first
(`view_foldl_addNew`).
-/

namespace VocabularyCompiler

variable {α σ : Type _} [DecidableEq α]

/-- Where there is nothing old, all is new. -/
theorem filter_notMem_nil (l : List α) : l.filter (· ∉ ([] : List α)) = l :=
  List.filter_eq_self.2 fun a _ => by simp

/-- What is left without repetitions has none. -/
theorem nodup_eraseDups (l : List α) : l.eraseDups.Nodup := by
  match l with
  | [] => exact List.nodup_nil
  | a :: rest =>
    have hnew : a ∉ (rest.filter fun b => !b == a).eraseDups := fun h => by
      simpa using List.mem_eraseDups.1 h
    rw [List.eraseDups_cons]
    exact List.nodup_cons.2 ⟨hnew, nodup_eraseDups (rest.filter fun b => !b == a)⟩
termination_by l.length
decreasing_by exact Nat.lt_succ_of_le (List.length_filter_le _ _)

/-- Where nothing is repeated, nothing is left out. -/
theorem eraseDups_of_nodup {l : List α} (h : l.Nodup) : l.eraseDups = l := by
  induction l with
  | nil => rfl
  | cons a rest ih =>
    obtain ⟨hnew, hrest⟩ := List.nodup_cons.1 h
    have hother : rest.filter (fun b => !b == a) = rest := by
      refine List.filter_eq_self.2 fun b hb => ?_
      have hne : b ≠ a := fun hba => hnew (hba ▸ hb)
      simpa using hne
    rw [List.eraseDups_cons, hother, ih hrest]

/-- Where a step adds a thing to those in view if it is new, steps add the new ones among all
things, each at its first occurrence. -/
theorem view_foldl_addNew {step : σ → α → σ} {view : σ → List α}
    (hstep : ∀ s a, view (step s a) = if a ∈ view s then view s else view s ++ [a])
    (l : List α) (s : σ) :
    view (l.foldl step s) = view s ++ (l.filter (· ∉ view s)).eraseDups := by
  induction l generalizing s with
  | nil => simp
  | cons a rest ih =>
    rw [List.foldl_cons, ih, hstep]
    by_cases hmem : a ∈ view s
    · simp [hmem]
    · -- What is added is old for all that follows.
      have hfilter : rest.filter (· ∉ view s ++ [a]) =
          (rest.filter (· ∉ view s)).filter fun b => !b == a := by
        rw [List.filter_filter]
        refine List.filter_congr fun b _ => ?_
        rw [Bool.eq_iff_iff]
        simp [and_comm]
      rw [if_neg hmem, List.filter_cons_of_pos (by simpa using hmem), List.eraseDups_cons, hfilter,
        List.append_assoc]
      rfl

/-- The new ones among all things go to the end of a list, each at its first occurrence. -/
theorem foldl_addNew (l s : List α) :
    l.foldl (fun s a => if a ∈ s then s else s ++ [a]) s = s ++ (l.filter (· ∉ s)).eraseDups :=
  @view_foldl_addNew α (List α) _ _ id (fun _ _ => rfl) l s

/-- The new ones among the things of two lists are those of the first one and then, once these are
old, those of the second. -/
theorem eraseDups_filter_append (seen l m : List α) :
    ((l ++ m).filter (· ∉ seen)).eraseDups =
      (l.filter (· ∉ seen)).eraseDups ++
        (m.filter (· ∉ seen ++ (l.filter (· ∉ seen)).eraseDups)).eraseDups := by
  have happend := foldl_addNew (l ++ m) seen
  rw [List.foldl_append, foldl_addNew, foldl_addNew, List.append_assoc] at happend
  exact (List.append_cancel_left happend).symm

/-- The members of the set that a list is made into stand where they occur first. -/
theorem OrderedSet.items_ofList (l : List α) : (ofList l).items = l.eraseDups := by
  have hempty : (∅ : OrderedSet α).items = [] := rfl
  rw [ofList, view_foldl_addNew items_insert, hempty, filter_notMem_nil, List.nil_append]

/-- The members of a set make the set. -/
theorem OrderedSet.ofList_items (s : OrderedSet α) : ofList s.items = s :=
  ext ((items_ofList s.items).trans (eraseDups_of_nodup s.nodup))

namespace OrderedMap

variable {β : Type _}

/-- The keys of the map that a list of pairs is made into stand where they occur first. -/
theorem keys_ofList (l : List (α × β)) : (ofList l).keys = (l.map Prod.fst).eraseDups := by
  have hkeys : ∀ m : OrderedMap α β, (l.foldl (fun m e => m.insert e.1 e.2) m).keys =
      (l.map Prod.fst).foldl (fun ks k => if k ∈ ks then ks else ks ++ [k]) m.keys := by
    induction l with
    | nil => exact fun m => rfl
    | cons e rest ih => exact fun m => by rw [List.foldl_cons, ih, keys_insert]; rfl
  rw [ofList, hkeys, foldl_addNew, keys_empty, filter_notMem_nil, List.nil_append]

/-- The value of a key in the map that a list of pairs is made into is the last one in the list. -/
theorem get?_ofList (l : List (α × β)) (k : α) :
    (ofList l).get? k = ((l.filter fun e => e.1 = k).getLast?).map Prod.snd := by
  unfold ofList
  induction l using List.reverseRecOn with
  | nil => rfl
  | append_singleton l e ih =>
    rw [List.foldl_append, List.foldl_cons, List.foldl_nil, get?_insert, ih, List.filter_append]
    by_cases hk : e.1 = k <;> simp [hk]

end OrderedMap

end VocabularyCompiler
