import Mathlib.Data.List.Forall2
import Mathlib.Tactic.ByContra

/-!
# The first fault

A computation that can fail stops at the first fault.  Its specification is the
list of its checks, in the order in which they are made, and a check is given by
the faults that it finds.  Computations that are made one after the other make
their checks one after the other.

Main results:

- Theorem `Enforces.exists_ok_iff`: a computation succeeds exactly when all its
  checks pass.
- Theorem `Enforces.bind` and Theorem `Enforces.mapM`: the checks of computations
  one after the other.
- Theorem `SameFaults.map_eraseDups`: checking a value again finds nothing new.
-/

namespace FormalLang

variable {ε α β : Type}

/-! ## Computations that can fail -/

section Computation

variable {x : Except ε α} {f : α → Except ε β} {e : ε}

theorem bind_eq_ok_iff {b : β} : (x >>= f) = .ok b ↔ ∃ a, x = .ok a ∧ f a = .ok b := by
  cases x with
  | error e => simp [bind, Except.bind]
  | ok a => simp [bind, Except.bind]

theorem bind_eq_error_iff :
    (x >>= f) = .error e ↔ x = .error e ∨ ∃ a, x = .ok a ∧ f a = .error e := by
  cases x with
  | error e => simp [bind, Except.bind]
  | ok a => simp [bind, Except.bind]

/-- A list is gone through to its end when every member has a result. -/
theorem mapM_eq_ok_iff {l : List α} {results : List β} :
    l.mapM f = .ok results ↔ List.Forall₂ (fun a b => f a = .ok b) l results := by
  induction l generalizing results with
  | nil => simp [pure, Except.pure, eq_comm]
  | cons a l ih =>
      simp only [List.mapM_cons, bind_eq_ok_iff, List.forall₂_cons_left_iff, ih]
      constructor
      · intro h
        rcases h with ⟨b, hb, rest, hrest, heq⟩
        cases heq
        exact ⟨b, rest, hb, hrest, rfl⟩
      · intro h
        rcases h with ⟨b, rest, hb, hrest, rfl⟩
        exact ⟨b, hb, rest, hrest, rfl⟩

/-- A computation with an inverse is undone for a whole list at once. -/
theorem mapM_eq_ok_iff_map_eq {g : β → α} (h : ∀ a b, f a = .ok b ↔ g b = a) {l : List α}
    {results : List β} : l.mapM f = .ok results ↔ results.map g = l := by
  have hinverse : (fun a b => f a = .ok b) = fun a b => a = g b := by
    funext a b
    exact propext ((h a b).trans eq_comm)
  rw [mapM_eq_ok_iff, eq_comm, ← List.forall₂_eq_eq_eq, List.forall₂_map_right_iff, hinverse]

/-- Two computations that succeed together fail together. -/
theorem errors_or_oks {y : Except ε β} (h : (∃ a, x = .ok a) ↔ ∃ b, y = .ok b) :
    ((∃ e, x = .error e) ∧ ∃ e, y = .error e) ∨ ∃ a b, x = .ok a ∧ y = .ok b := by
  cases x with
  | ok a =>
      rcases h.mp ⟨a, rfl⟩ with ⟨b, hb⟩
      exact Or.inr ⟨a, b, rfl, hb⟩
  | error e =>
      cases y with
      | ok b => simpa using h.mpr ⟨b, rfl⟩
      | error e' => exact Or.inl ⟨⟨e, rfl⟩, e', rfl⟩

end Computation

/-- Every member of the second list belongs to one of the first. -/
theorem exists_mem_of_forall₂ {R : α → β → Prop} {l : List α} {l' : List β} {b : β}
    (h : List.Forall₂ R l l') (hb : b ∈ l') : ∃ a ∈ l, R a b := by
  induction h with
  | nil => exact (List.not_mem_nil hb).elim
  | cons hab _ ih =>
      rcases List.mem_cons.mp hb with rfl | hb
      · exact ⟨_, List.mem_cons_self, hab⟩
      · rcases ih hb with ⟨a, ha, hR⟩
        exact ⟨a, List.mem_cons_of_mem _ ha, hR⟩

/-! ## Checks -/

/-- A check, given by the faults that it finds. -/
abbrev Check (ε : Type) : Type :=
  ε → Prop

/-- A check that finds no fault. -/
def Check.Passes (c : Check ε) : Prop :=
  ∀ e, ¬c e

/-- A check for one fault passes when its condition is not met. -/
theorem Check.passes_and_eq_iff {p : Prop} {e₀ : ε} :
    Check.Passes (fun e => p ∧ e = e₀) ↔ ¬p := by
  constructor
  · exact fun h hp => h e₀ ⟨hp, rfl⟩
  · exact fun h e he => h he.1

/-- The fault that is found by the first check that does not pass. -/
inductive FirstFault : List (Check ε) → ε → Prop
  | here {c : Check ε} {checks : List (Check ε)} {e : ε} : c e → FirstFault (c :: checks) e
  | later {c : Check ε} {checks : List (Check ε)} {e : ε} :
      c.Passes → FirstFault checks e → FirstFault (c :: checks) e

variable {c : Check ε} {checks checks' : List (Check ε)} {e : ε}

@[simp]
theorem not_firstFault_nil : ¬FirstFault [] e := by
  intro h
  cases h

theorem firstFault_cons_iff :
    FirstFault (c :: checks) e ↔ c e ∨ c.Passes ∧ FirstFault checks e := by
  constructor
  · intro h
    cases h with
    | here hc => exact Or.inl hc
    | later hpasses hrest => exact Or.inr ⟨hpasses, hrest⟩
  · intro h
    rcases h with hc | ⟨hpasses, hrest⟩
    · exact .here hc
    · exact .later hpasses hrest

/-- A check that passes may be left out. -/
theorem firstFault_cons_of_passes (h : c.Passes) :
    FirstFault (c :: checks) e ↔ FirstFault checks e := by
  rw [firstFault_cons_iff]
  constructor
  · intro hfault
    rcases hfault with hc | hrest
    · exact (h e hc).elim
    · exact hrest.2
  · intro hfault
    exact Or.inr ⟨h, hfault⟩

/-- The first check does not pass, since it finds a fault; so there is no other first
fault than its own. -/
theorem firstFault_cons_of_fault {e₀ : ε} (h : c e₀) (honly : ∀ e, c e → e = e₀) :
    FirstFault (c :: checks) e ↔ e = e₀ := by
  rw [firstFault_cons_iff]
  constructor
  · intro hfault
    rcases hfault with hc | hrest
    · exact honly e hc
    · exact (hrest.1 e₀ h).elim
  · intro heq
    exact Or.inl (heq ▸ h)

theorem firstFault_append_iff :
    FirstFault (checks ++ checks') e ↔
      FirstFault checks e ∨ (∀ c ∈ checks, c.Passes) ∧ FirstFault checks' e := by
  induction checks with
  | nil => simp
  | cons c checks ih =>
      rw [List.cons_append, firstFault_cons_iff, firstFault_cons_iff, ih, List.forall_mem_cons]
      tauto

/-- The first fault is found by one of the checks. -/
theorem FirstFault.exists_mem (h : FirstFault checks e) : ∃ c ∈ checks, c e := by
  induction h with
  | here hc => exact ⟨_, List.mem_cons_self, hc⟩
  | later _ _ ih =>
      rcases ih with ⟨c, hmem, hc⟩
      exact ⟨c, List.mem_cons_of_mem _ hmem, hc⟩

/-- All checks pass exactly when there is no first fault. -/
theorem forall_passes_iff : (∀ c ∈ checks, c.Passes) ↔ ∀ e, ¬FirstFault checks e := by
  constructor
  · intro h e hfault
    rcases hfault.exists_mem with ⟨c, hmem, hc⟩
    exact h c hmem e hc
  · intro h
    induction checks with
    | nil => simp
    | cons c checks ih =>
        have hc : c.Passes := fun e he => h e (.here he)
        have hrest := ih fun e he => h e (.later hc he)
        exact List.forall_mem_cons.mpr ⟨hc, hrest⟩

/-- The first fault is found by a search for it. -/
theorem find?_map_eq_some_iff {l : List α} {p : α → Bool} {f : α → ε} :
    (l.find? p).map f = some e ↔ FirstFault (l.map fun a e => p a = true ∧ e = f a) e := by
  induction l with
  | nil => simp
  | cons a l ih =>
      rw [List.map_cons, firstFault_cons_iff, ← ih, List.find?_cons]
      cases hp : p a with
      | true => simp [Check.Passes, eq_comm]
      | false => simp [Check.Passes]

theorem findSome?_eq_some_iff {l : List α} {f : α → Option ε} {checksOf : α → List (Check ε)}
    (h : ∀ a ∈ l, ∀ e, f a = some e ↔ FirstFault (checksOf a) e) :
    l.findSome? f = some e ↔ FirstFault (l.flatMap checksOf) e := by
  induction l with
  | nil => simp
  | cons a l ih =>
      have ha := h a List.mem_cons_self
      have hrest := ih fun b hb => h b (List.mem_cons_of_mem a hb)
      rw [List.flatMap_cons, firstFault_append_iff, ← hrest, ← ha e, forall_passes_iff,
        List.findSome?_cons]
      simp only [← ha]
      cases f a with
      | none => simp
      | some e' => simp

/-! ## Checks that find the same -/

/-- Two lists of checks with the same first faults. -/
def SameFaults (checks checks' : List (Check ε)) : Prop :=
  ∀ e, FirstFault checks e ↔ FirstFault checks' e

namespace SameFaults

/-- Checks that pass may be left out. -/
theorem nil_of_passes (h : ∀ c ∈ checks, c.Passes) : SameFaults checks [] := by
  intro e
  have hnot := forall_passes_iff.mp h e
  exact iff_of_false hnot not_firstFault_nil

theorem refl (checks : List (Check ε)) : SameFaults checks checks :=
  fun _ => Iff.rfl

theorem symm (h : SameFaults checks checks') : SameFaults checks' checks :=
  fun e => (h e).symm

theorem trans {checks'' : List (Check ε)} (h : SameFaults checks checks')
    (h' : SameFaults checks' checks'') : SameFaults checks checks'' :=
  fun e => (h e).trans (h' e)

/-- What comes after a check counts only if the check passes. -/
theorem cons (h : c.Passes → SameFaults checks checks') :
    SameFaults (c :: checks) (c :: checks') := by
  intro e
  rw [firstFault_cons_iff, firstFault_cons_iff]
  exact or_congr_right (and_congr_right fun hpasses => h hpasses e)

theorem append {checks₁ checks₁' checks₂ checks₂' : List (Check ε)}
    (h₁ : SameFaults checks₁ checks₁') (h₂ : SameFaults checks₂ checks₂') :
    SameFaults (checks₁ ++ checks₂) (checks₁' ++ checks₂') := by
  intro e
  simp only [firstFault_append_iff, forall_passes_iff, h₁ _, h₂ _]

theorem flatMap {l : List α} {checksOf checksOf' : α → List (Check ε)}
    (h : ∀ a ∈ l, SameFaults (checksOf a) (checksOf' a)) :
    SameFaults (l.flatMap checksOf) (l.flatMap checksOf') := by
  induction l with
  | nil => exact refl []
  | cons a l ih =>
      have hrest := ih fun b hb => h b (List.mem_cons_of_mem a hb)
      exact (h a List.mem_cons_self).append hrest

theorem map_map {l : List α} {l' : List β} {check : α → Check ε} {check' : β → Check ε}
    (h : List.Forall₂ (fun a b => ∀ e, check a e ↔ check' b e) l l') :
    SameFaults (l.map check) (l'.map check') := by
  induction h with
  | nil => exact refl []
  | cons hab _ ih =>
      intro e
      simp only [List.map_cons, firstFault_cons_iff, Check.Passes, hab, ih e]

/-- Checks that can find one fault only are a single check. -/
theorem singleton_of_eq {e₀ : ε} (h : ∀ c ∈ checks, ∀ e, c e → e = e₀) :
    SameFaults checks [fun e => ∃ c ∈ checks, c e] := by
  intro e
  rw [firstFault_cons_iff]
  simp only [not_firstFault_nil, and_false, or_false]
  constructor
  · exact FirstFault.exists_mem
  · intro hexists
    rcases hexists with ⟨c, hmem, hc⟩
    by_contra hnot
    -- Some check does not pass, so there is a first fault, and it can only be this one.
    have hfault : ∃ e', FirstFault checks e' := by
      by_contra hnone
      exact forall_passes_iff.mpr (not_exists.mp hnone) c hmem e hc
    rcases hfault with ⟨e', hfirst⟩
    rcases hfirst.exists_mem with ⟨c', hmem', hc'⟩
    have heq : e' = e := (h c' hmem' e' hc').trans (h c hmem e hc).symm
    exact hnot (heq ▸ hfirst)

/-- Checks of the members of a list for one and the same fault are a single check. -/
theorem map_and_eq (l : List α) (p : α → Prop) (e₀ : ε) :
    SameFaults (l.map fun a e => p a ∧ e = e₀) [fun e => (∃ a ∈ l, p a) ∧ e = e₀] := by
  have hone : ∀ c ∈ l.map (fun a e => p a ∧ e = e₀), ∀ e, c e → e = e₀ := by
    intro c hc e he
    rcases List.mem_map.mp hc with ⟨a, -, rfl⟩
    exact he.2
  have hcheck : (fun e => ∃ c ∈ l.map (fun a e => p a ∧ e = e₀), c e) =
      fun e => (∃ a ∈ l, p a) ∧ e = e₀ := by
    funext e
    simp only [List.mem_map, exists_exists_and_eq_and]
    simp only [← and_assoc, exists_and_right]
  exact hcheck ▸ singleton_of_eq hone

theorem map_filter {l : List α} {p : α → Bool} {check : α → Check ε}
    (h : ∀ a ∈ l, p a = false → (check a).Passes) :
    SameFaults ((l.filter p).map check) (l.map check) := by
  induction l with
  | nil => exact refl []
  | cons a l ih =>
      have hrest := ih fun b hb => h b (List.mem_cons_of_mem a hb)
      by_cases hp : p a = true
      · rw [List.filter_cons_of_pos hp, List.map_cons, List.map_cons]
        exact cons fun _ => hrest
      · have hpasses := h a List.mem_cons_self (Bool.eq_false_iff.mpr hp)
        intro e
        rw [List.filter_cons_of_neg hp, List.map_cons, firstFault_cons_of_passes hpasses]
        exact hrest e

/-- Checking a value again finds nothing new. -/
theorem map_eraseDups [BEq α] [LawfulBEq α] (check : α → Check ε) (l : List α) :
    SameFaults (l.eraseDups.map check) (l.map check) := by
  induction hlen : l.length using Nat.strongRecOn generalizing l with
  | ind n ih =>
      cases l with
      | nil => exact refl []
      | cons a l =>
          have hlt : (l.filter fun b => !b == a).length < n := by
            have hle := List.length_filter_le (fun b => !b == a) l
            rw [List.length_cons] at hlen
            omega
          rw [List.eraseDups_cons, List.map_cons, List.map_cons]
          apply cons
          intro hpasses
          apply (ih _ hlt _ rfl).trans
          -- Behind a check of `a` that passes, all other ones of `a` pass as well.
          apply map_filter
          intro b _ hb
          have hba : b = a := by simpa using hb
          exact hba ▸ hpasses

end SameFaults

/-! ## Computations that make checks -/

/-- A computation makes checks in order: it fails with the first fault that they
find, and with nothing else. -/
def Enforces (checks : List (Check ε)) (x : Except ε α) : Prop :=
  ∀ e, x = .error e ↔ FirstFault checks e

namespace Enforces

variable {x : Except ε α} {f : α → Except ε β}

/-- A computation succeeds exactly when all its checks pass. -/
theorem exists_ok_iff (h : Enforces checks x) :
    (∃ a, x = .ok a) ↔ ∀ c ∈ checks, c.Passes := by
  simp only [forall_passes_iff, ← h _]
  cases x with
  | error e => simp
  | ok a => simp

/-- All checks of a computation that succeeds pass. -/
theorem forall_passes_of_isOk (h : Enforces checks x) (hok : x.isOk = true) :
    ∀ c ∈ checks, c.Passes := by
  cases x with
  | error e => contradiction
  | ok a => exact h.exists_ok_iff.mp ⟨a, rfl⟩

theorem congr (h : SameFaults checks checks') (hx : Enforces checks x) : Enforces checks' x :=
  fun e => (hx e).trans (h e)

theorem ok (a : α) : Enforces [] (Except.ok a : Except ε α) := by
  intro e
  simp

/-- The checks of a computation and of another one after it. -/
theorem bind (hx : Enforces checks x) (hf : ∀ a, x = .ok a → Enforces checks' (f a)) :
    Enforces (checks ++ checks') (x >>= f) := by
  intro e
  rw [bind_eq_error_iff, firstFault_append_iff, hx e, ← hx.exists_ok_iff]
  apply or_congr Iff.rfl
  constructor
  · intro h
    rcases h with ⟨a, ha, he⟩
    exact ⟨⟨a, ha⟩, (hf a ha e).mp he⟩
  · intro h
    rcases h with ⟨⟨a, ha⟩, hfault⟩
    exact ⟨a, ha, (hf a ha e).mpr hfault⟩

/-- The checks of a computation for every member of a list. -/
theorem mapM {l : List α} {checksOf : α → List (Check ε)}
    (h : ∀ a ∈ l, Enforces (checksOf a) (f a)) :
    Enforces (l.flatMap checksOf) (l.mapM f) := by
  induction l with
  | nil => exact ok []
  | cons a l ih =>
      rw [List.mapM_cons, List.flatMap_cons]
      apply (h a List.mem_cons_self).bind
      intro b _
      have hrest := ih fun c hc => h c (List.mem_cons_of_mem a hc)
      rw [← List.append_nil (l.flatMap checksOf)]
      exact hrest.bind fun results _ => ok (b :: results)

end Enforces
end FormalLang
