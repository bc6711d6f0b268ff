import FormalLang.Ordered.Map
import FormalLang.Ordered.Set
import Mathlib.Data.List.Induction

/-!
# The order of first appearance

A set or a map that is filled value by value keeps each value where it came up first.  For a
set that is filled from a list, this is the list with its repeats left out.

Main results:

- Theorem `OrderedSet.toList_ofList`: the values of a list, in their order.
- Theorem `eraseDups_map`: values may be replaced by others, if different ones stay different.
-/

namespace FormalLang

section Repeats

variable {α β : Type} [BEq α] [LawfulBEq α] [BEq β] [LawfulBEq β] {l : List α} {a : α}

/-- A repeat at the end of a list is left out. -/
theorem eraseDups_concat_of_mem (h : a ∈ l) : (l ++ [a]).eraseDups = l.eraseDups := by
  rw [List.eraseDups_append]
  simp [List.removeAll, h]

/-- A new value at the end of a list stays there. -/
theorem eraseDups_concat_of_not_mem (h : a ∉ l) :
    (l ++ [a]).eraseDups = l.eraseDups ++ [a] := by
  rw [List.eraseDups_append]
  simp [List.removeAll, h, List.eraseDups_cons]

/-- A map that tells the values of a list apart finds the same repeats. -/
theorem eraseDups_map {f : α → β} (h : ∀ a ∈ l, ∀ b ∈ l, f a = f b → a = b) :
    (l.map f).eraseDups = l.eraseDups.map f := by
  induction l using List.reverseRecOn with
  | nil => rfl
  | append_singleton l a ih =>
      have hrest := ih fun b hb c hc =>
        h b (List.mem_append_left [a] hb) c (List.mem_append_left [a] hc)
      rw [List.map_append, List.map_singleton]
      by_cases ha : a ∈ l
      · rw [eraseDups_concat_of_mem (List.mem_map_of_mem ha), eraseDups_concat_of_mem ha, hrest]
      · have hnot : f a ∉ l.map f := by
          intro hmem
          rcases List.mem_map.mp hmem with ⟨b, hb, hba⟩
          have heq := h b (List.mem_append_left [a] hb) a (by simp) hba
          exact ha (heq ▸ hb)
        rw [eraseDups_concat_of_not_mem hnot, eraseDups_concat_of_not_mem ha, hrest,
          List.map_append, List.map_singleton]

end Repeats

theorem OrderedSet.ofList_append {α : Type} [DecidableEq α] (l l' : List α) :
    ofList (l ++ l') = (ofList l).insertAll l' := by
  rw [ofList, insertAll, List.foldl_append]
  rfl

/-- The values of a list are kept where they first stand. -/
theorem OrderedSet.toList_ofList {α : Type} [DecidableEq α] [BEq α] [LawfulBEq α] (l : List α) :
    (ofList l).toList = l.eraseDups := by
  induction l using List.reverseRecOn with
  | nil => rfl
  | append_singleton l a ih =>
      have hinsert : ofList (l ++ [a]) = (ofList l).insert a := ofList_append l [a]
      by_cases h : a ∈ l
      · rw [hinsert, insert_of_mem (mem_ofList.mpr h), eraseDups_concat_of_mem h, ih]
      · have hnot : a ∉ ofList l := fun hmem => h (mem_ofList.mp hmem)
        rw [hinsert, toList_insert_of_not_mem hnot, eraseDups_concat_of_not_mem h, ih]

theorem OrderedMap.mem_keys_upsert_iff {κ ν : Type} [DecidableEq κ] {m : OrderedMap κ ν} {k k' : κ}
    {f : Option ν → ν} : k' ∈ (m.upsert k f).keys ↔ k' ∈ m.keys ∨ k' = k := by
  rw [keys_upsert]
  split
  · rename_i hk
    constructor
    · exact Or.inl
    · intro h
      rcases h with h | h
      · exact h
      · exact h ▸ hk
  · rw [List.mem_append, List.mem_singleton]

end FormalLang
