/-!
# Ordered sets

A finite set that remembers the order in which its members first came in.  The
alphabets of a grammar, the alternatives of a rule and the states reached by a
symbol are all of this kind: whether a member is there decides what the object
means, and where it stands decides how the object is written out.

Main results:

- Theorem `OrderedSet.mem_insert` and Theorem `OrderedSet.mem_ofList`:
  membership after insertion.
- Theorem `OrderedSet.ofList_toList`: a set is rebuilt from its own list.
-/

namespace FormalLang

/-- A finite set in order of first insertion: a list without repeats. -/
@[ext]
structure OrderedSet (α : Type) where
  toList : List α
  nodup : toList.Nodup
deriving DecidableEq

namespace OrderedSet

variable {α : Type}

/-- A value is a member when it stands in the list. -/
instance : Membership α (OrderedSet α) where
  mem s a := a ∈ s.toList

@[simp]
theorem mem_toList {s : OrderedSet α} {a : α} : a ∈ s.toList ↔ a ∈ s :=
  Iff.rfl

@[simp]
theorem mem_mk {l : List α} {h : l.Nodup} {a : α} :
    a ∈ (OrderedSet.mk l h) ↔ a ∈ l :=
  Iff.rfl

instance [DecidableEq α] (a : α) (s : OrderedSet α) : Decidable (a ∈ s) :=
  inferInstanceAs (Decidable (a ∈ s.toList))

/-- The set without members. -/
def empty : OrderedSet α :=
  ⟨[], List.nodup_nil⟩

@[simp]
theorem toList_empty : (empty : OrderedSet α).toList = [] :=
  rfl

@[simp]
theorem not_mem_empty (a : α) : a ∉ (empty : OrderedSet α) :=
  List.not_mem_nil

/-- The number of members. -/
def size (s : OrderedSet α) : Nat :=
  s.toList.length

/-! ## Insertion -/

variable [DecidableEq α]

/-- Put a value at the end, unless it is already a member. -/
def insert (s : OrderedSet α) (a : α) : OrderedSet α :=
  if h : a ∈ s.toList then s
  else
    ⟨s.toList ++ [a], by
      rw [List.nodup_append]
      refine ⟨s.nodup, by simp, ?_⟩
      intro b hb c hc hbc
      rw [List.mem_singleton] at hc
      exact h (hc ▸ hbc ▸ hb)⟩

theorem insert_of_mem {s : OrderedSet α} {a : α} (h : a ∈ s) : s.insert a = s :=
  dif_pos h

theorem toList_insert_of_not_mem {s : OrderedSet α} {a : α} (h : a ∉ s) :
    (s.insert a).toList = s.toList ++ [a] := by
  have h' : a ∉ s.toList := h
  simp [insert, h']

@[simp]
theorem mem_insert {s : OrderedSet α} {a b : α} : b ∈ s.insert a ↔ b ∈ s ∨ b = a := by
  by_cases h : a ∈ s
  · rw [insert_of_mem h]
    constructor
    · exact Or.inl
    · rintro (hb | rfl)
      · exact hb
      · exact h
  · rw [← mem_toList, toList_insert_of_not_mem h]
    simp

/-- Insert the values of a list one after the other. -/
def insertAll (s : OrderedSet α) (l : List α) : OrderedSet α :=
  l.foldl insert s

@[simp]
theorem mem_insertAll {s : OrderedSet α} {l : List α} {b : α} :
    b ∈ s.insertAll l ↔ b ∈ s ∨ b ∈ l := by
  induction l generalizing s with
  | nil => simp [insertAll]
  | cons a l ih =>
      have hstep : s.insertAll (a :: l) = (s.insert a).insertAll l := rfl
      rw [hstep, ih, mem_insert, List.mem_cons, or_assoc]

theorem toList_insertAll_of_nodup {s : OrderedSet α} {l : List α}
    (h : (s.toList ++ l).Nodup) : (s.insertAll l).toList = s.toList ++ l := by
  induction l generalizing s with
  | nil => simp [insertAll]
  | cons a l ih =>
      have hstep : s.insertAll (a :: l) = (s.insert a).insertAll l := rfl
      have ha : a ∉ s := fun hmem =>
        (List.nodup_append.mp h).2.2 a hmem a List.mem_cons_self rfl
      rw [hstep, ih] <;> rw [toList_insert_of_not_mem ha]
      · simp
      · simpa using h

/-- The distinct values of a list, each at the place where it first stands. -/
def ofList (l : List α) : OrderedSet α :=
  empty.insertAll l

@[simp]
theorem mem_ofList {l : List α} {a : α} : a ∈ ofList l ↔ a ∈ l := by
  simp [ofList]

theorem toList_ofList_of_nodup {l : List α} (h : l.Nodup) : (ofList l).toList = l := by
  have hall := toList_insertAll_of_nodup (s := (empty : OrderedSet α)) (l := l) (by simpa using h)
  simpa [ofList] using hall

@[simp]
theorem ofList_toList (s : OrderedSet α) : ofList s.toList = s :=
  OrderedSet.ext (toList_ofList_of_nodup s.nodup)

end OrderedSet
end FormalLang
