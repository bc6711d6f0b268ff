/-!
# Ordered maps

A finite map that keeps its keys in the order in which they first came in.
The rules of a grammar are a map from left-hand sides to alternatives, and the
moves of an automaton a map from states to rows, so both are written out in
the order in which they were given.

Main results:

- Theorem `OrderedMap.get?_upsert_self` and Theorem `OrderedMap.get?_upsert_of_ne`:
  looking up after an update.
- Theorem `OrderedMap.keys_upsert`: an update keeps the keys in place, a new
  key goes to the end.
-/

namespace FormalLang

/-- A finite map in order of first insertion: entries with distinct keys. -/
@[ext]
structure OrderedMap (κ ν : Type) where
  entries : List (κ × ν)
  nodup_keys : (entries.map Prod.fst).Nodup
deriving DecidableEq

namespace OrderedMap

variable {κ ν : Type}

/-- The map without entries. -/
def empty : OrderedMap κ ν :=
  ⟨[], List.nodup_nil⟩

@[simp]
theorem entries_empty : (empty : OrderedMap κ ν).entries = [] :=
  rfl

/-- The keys in order. -/
def keys (m : OrderedMap κ ν) : List κ :=
  m.entries.map Prod.fst

variable [DecidableEq κ]

/-- The value at a key. -/
def get? (m : OrderedMap κ ν) (k : κ) : Option ν :=
  m.entries.lookup k

@[simp]
theorem get?_empty (k : κ) : (empty : OrderedMap κ ν).get? k = none :=
  rfl

/-! ## Updates -/

/-- Update the value at a key in a list of entries; without such an entry, a
new one goes to the end. -/
def upsertEntry (k : κ) (f : Option ν → ν) : List (κ × ν) → List (κ × ν)
  | [] => [(k, f none)]
  | (k', v) :: rest =>
      if k = k' then (k', f (some v)) :: rest else (k', v) :: upsertEntry k f rest

theorem keys_upsertEntry (k : κ) (f : Option ν → ν) (l : List (κ × ν)) :
    (upsertEntry k f l).map Prod.fst =
      if k ∈ l.map Prod.fst then l.map Prod.fst else l.map Prod.fst ++ [k] := by
  induction l with
  | nil => simp [upsertEntry]
  | cons e l ih =>
      obtain ⟨k', v⟩ := e
      by_cases h : k = k'
      · simp [upsertEntry, h]
      · simp only [upsertEntry, h, if_false, List.map_cons, ih, List.mem_cons, false_or]
        split <;> simp

theorem nodup_keys_upsertEntry {k : κ} {f : Option ν → ν} {l : List (κ × ν)}
    (h : (l.map Prod.fst).Nodup) : ((upsertEntry k f l).map Prod.fst).Nodup := by
  rw [keys_upsertEntry]
  split
  · exact h
  · rename_i hk
    rw [List.nodup_append]
    refine ⟨h, by simp, ?_⟩
    intro a ha b hb hab
    rw [List.mem_singleton] at hb
    exact hk (hb ▸ hab ▸ ha)

/-- Every entry of an updated list is an old one or the updated one. -/
theorem mem_upsertEntry {k : κ} {f : Option ν → ν} {l : List (κ × ν)} {e : κ × ν}
    (h : e ∈ upsertEntry k f l) :
    e ∈ l ∨ e = (k, f none) ∨ ∃ v, (k, v) ∈ l ∧ e = (k, f (some v)) := by
  induction l with
  | nil => exact Or.inr (Or.inl (by simpa [upsertEntry] using h))
  | cons e' l ih =>
      obtain ⟨k', v⟩ := e'
      by_cases hk : k = k'
      · subst hk
        simp only [upsertEntry, if_true, List.mem_cons] at h
        rcases h with rfl | h
        · exact Or.inr (Or.inr ⟨v, by simp, rfl⟩)
        · exact Or.inl (by simp [h])
      · simp only [upsertEntry, hk, if_false, List.mem_cons] at h
        rcases h with rfl | h
        · exact Or.inl (by simp)
        · rcases ih h with h | h | ⟨v', hv', rfl⟩
          · exact Or.inl (by simp [h])
          · exact Or.inr (Or.inl h)
          · exact Or.inr (Or.inr ⟨v', by simp [hv'], rfl⟩)

theorem lookup_upsertEntry (k k' : κ) (f : Option ν → ν) (l : List (κ × ν)) :
    (upsertEntry k f l).lookup k' =
      if k' = k then some (f (l.lookup k)) else l.lookup k' := by
  induction l with
  | nil =>
      by_cases h : k' = k
      · simp [upsertEntry, h]
      · simp [upsertEntry, h]
  | cons e l ih =>
      obtain ⟨k₁, v⟩ := e
      by_cases h₁ : k = k₁
      · subst h₁
        by_cases h : k' = k
        · simp [upsertEntry, h]
        · have hbeq : (k' == k) = false := by simpa using h
          simp [upsertEntry, List.lookup_cons, h, hbeq]
      · have hbeq₁ : (k == k₁) = false := by simpa using h₁
        by_cases h : k' = k₁
        · subst h
          have hne : ¬k' = k := fun hk => h₁ hk.symm
          simp [upsertEntry, h₁, hne]
        · have hbeq : (k' == k₁) = false := by simpa using h
          simp [upsertEntry, List.lookup_cons, h₁, hbeq, hbeq₁, ih]

/-- Update the value at a key, or give the key a first value. -/
def upsert (m : OrderedMap κ ν) (k : κ) (f : Option ν → ν) : OrderedMap κ ν :=
  ⟨upsertEntry k f m.entries, nodup_keys_upsertEntry m.nodup_keys⟩

theorem keys_upsert (m : OrderedMap κ ν) (k : κ) (f : Option ν → ν) :
    (m.upsert k f).keys = if k ∈ m.keys then m.keys else m.keys ++ [k] :=
  keys_upsertEntry k f m.entries

@[simp]
theorem get?_upsert_self (m : OrderedMap κ ν) (k : κ) (f : Option ν → ν) :
    (m.upsert k f).get? k = some (f (m.get? k)) := by
  simp [get?, upsert, lookup_upsertEntry]

theorem get?_upsert_of_ne (m : OrderedMap κ ν) {k k' : κ} (f : Option ν → ν) (h : k' ≠ k) :
    (m.upsert k f).get? k' = m.get? k' := by
  simp [get?, upsert, lookup_upsertEntry, h]

/-- A key has a value exactly when an entry says so. -/
theorem get?_eq_some_iff {m : OrderedMap κ ν} {k : κ} {v : ν} :
    m.get? k = some v ↔ (k, v) ∈ m.entries := by
  obtain ⟨l, hl⟩ := m
  simp only [get?]
  induction l with
  | nil => simp
  | cons e l ih =>
      obtain ⟨k', v'⟩ := e
      have hnot := List.nodup_cons.mp hl
      by_cases h : k = k'
      · subst h
        simp only [List.lookup_cons_self, List.mem_cons, Prod.mk.injEq, true_and,
          Option.some.injEq]
        constructor
        · exact fun hv => Or.inl hv.symm
        · rintro (hv | hmem)
          · exact hv.symm
          · exact (hnot.1 (List.mem_map.mpr ⟨(k, v), hmem, rfl⟩)).elim
      · have hbeq : (k == k') = false := by simpa using h
        simp [List.lookup_cons, hbeq, h, ih hnot.2]

end OrderedMap
end FormalLang
