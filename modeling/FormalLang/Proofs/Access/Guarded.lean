import FormalLang.Automaton.Basic
import FormalLang.Proofs.Checks.FirstFault

/-!
# Computations with accesses

An operation looks things up by keys and indices and makes symbols of names.  Each of these
accesses fails on some inputs: a key may be missing, an index may be beyond the end, a name
may be empty.  Beside that, an operation may refuse what it is given, with an error.  An
operation in which no access fails is said by an equation: it is a computation that can
only be refused.

Main results:

- Theorem `Guarded.of_bind` and Theorem `Guarded.mapM_eq_of`: computations without failing
  accesses, one after the other.
- Theorem `Alike.bind` and Theorem `Alike.mapM_forM`: computations that are refused alike,
  one after the other.
- Theorem `Alike.of_bind_access`: what is checked first and then looked up.
- Theorem `Diagram.checked?_eq_some`: a diagram that turns out to be well formed.
-/

namespace FormalLang

variable {ε α β γ δ : Type}

/-! ## Accesses -/

/-- A computation with accesses, which may also be refused. -/
abbrev Guarded (ε : Type) :=
  ExceptT ε Option

namespace Guarded

/-- A computation without accesses. -/
def of (x : Except ε α) : Guarded ε α :=
  ExceptT.mk (some x)

/-- An access: it fails where there is nothing. -/
def access (x : Option α) : Guarded ε α :=
  ExceptT.lift x

@[simp]
theorem of_ok (a : α) : (of (.ok a) : Guarded ε α) = pure a :=
  rfl

@[simp]
theorem access_some (a : α) : (access (some a) : Guarded ε α) = pure a :=
  rfl

theorem of_bind (x : Except ε α) (f : α → Except ε β) :
    of (x >>= f) = of x >>= fun a => of (f a) := by
  cases x with
  | error e => rfl
  | ok a => rfl

/-- If no access fails for any member of a list, none fails for the list. -/
theorem mapM_eq_of {f : α → Guarded ε β} {g : α → Except ε β} {l : List α}
    (h : ∀ a ∈ l, f a = of (g a)) : l.mapM f = of (l.mapM g) := by
  induction l with
  | nil => rfl
  | cons a l ih =>
      have hrest := ih fun b hb => h b (List.mem_cons_of_mem a hb)
      rw [List.mapM_cons, List.mapM_cons, of_bind, h a List.mem_cons_self, hrest]
      refine bind_congr fun b => ?_
      rw [of_bind]
      rfl

end Guarded

/-! ## Lists -/

section Lists

variable {m : Type → Type} [Monad m] [LawfulMonad m]

/-- Steps that all succeed are the steps of a plain fold. -/
theorem foldlM_eq_pure {f : β → α → m β} {g : β → α → β} {l : List α}
    (h : ∀ b, ∀ a ∈ l, f b a = pure (g b a)) (b : β) : l.foldlM f b = pure (l.foldl g b) := by
  induction l generalizing b with
  | nil => rfl
  | cons a l ih =>
      rw [List.foldlM_cons, h b a List.mem_cons_self, pure_bind, List.foldl_cons]
      exact ih (fun c d hd => h c d (List.mem_cons_of_mem a hd)) (g b a)

theorem mapM_eq_pure {f : α → m β} {g : α → β} {l : List α} (h : ∀ a ∈ l, f a = pure (g a)) :
    l.mapM f = pure (l.map g) := by
  induction l with
  | nil => rfl
  | cons a l ih =>
      rw [List.mapM_cons, h a List.mem_cons_self, pure_bind,
        ih fun b hb => h b (List.mem_cons_of_mem a hb), pure_bind, List.map_cons]

end Lists

/-- A member of a list is found at the first of its places. -/
theorem idxOf?_of_mem [BEq α] [LawfulBEq α] {l : List α} {a : α} (h : a ∈ l) :
    l.idxOf? a = some (l.idxOf a) :=
  List.findIdx?_eq_some_of_exists ⟨a, h, beq_self_eq_true a⟩

/-- Names that are not empty are those of symbols. -/
theorem Symbol.exists_mapM_ofString? {names : List String} (h : ∀ name ∈ names, name ≠ "") :
    ∃ symbols, names.mapM ofString? = some symbols ∧ symbols.map text = names := by
  induction names with
  | nil => exact ⟨[], rfl, rfl⟩
  | cons name names ih =>
      rcases ih fun other hother => h other (List.mem_cons_of_mem name hother) with
        ⟨symbols, hsymbols, htexts⟩
      have hname : name ≠ "" := h name List.mem_cons_self
      have ha : ofString? name = some ⟨name, hname⟩ := ofString?_eq_some_iff.mpr rfl
      refine ⟨⟨name, hname⟩ :: symbols, ?_, congrArg (name :: ·) htexts⟩
      rw [List.mapM_cons, ha, hsymbols]
      rfl

theorem Symbol.mapM_ofString?_of_empty_mem {names : List String} (h : "" ∈ names) :
    names.mapM ofString? = none := by
  induction names with
  | nil => contradiction
  | cons name names ih =>
      rw [List.mapM_cons]
      cases hname : ofString? name with
      | none => rfl
      | some a =>
          rcases List.mem_cons.mp h with rfl | hmem
          · contradiction
          · rw [ih hmem]
            rfl

/-! ## Computations that are refused alike -/

/-- Two computations are refused for the same reason, or both have results, and these are
related. -/
inductive Alike (R : α → β → Prop) : Except ε α → Except ε β → Prop
  | error (e : ε) : Alike R (.error e) (.error e)
  | ok {a : α} {b : β} : R a b → Alike R (.ok a) (.ok b)

namespace Alike

variable {R : α → β → Prop} {S : γ → δ → Prop}

theorem bind {x : Except ε α} {y : Except ε β} {f : α → Except ε γ} {g : β → Except ε δ}
    (hxy : Alike R x y) (hfg : ∀ a b, R a b → Alike S (f a) (g b)) :
    Alike S (x >>= f) (y >>= g) := by
  cases hxy with
  | error e => exact .error e
  | ok hab => exact hfg _ _ hab

/-- Members of a list are first checked and then looked up, or else found when they are
checked. -/
theorem mapM_forM {check : α → Except ε Unit} {find : α → Except ε β} {look : α → Option γ}
    {value : β → γ} {l : List α}
    (h : ∀ a ∈ l, Alike (fun _ b => look a = some (value b)) (check a) (find a)) :
    Alike (fun _ bs => l.mapM look = some (bs.map value)) (l.forM check) (l.mapM find) := by
  induction l with
  | nil => exact .ok rfl
  | cons a l ih =>
      simp only [List.mapM_cons]
      change Alike _ (check a >>= fun _ => l.forM check) _
      refine (h a List.mem_cons_self).bind fun _ b hb => ?_
      have hrest := ih fun c hc => h c (List.mem_cons_of_mem a hc)
      rw [← bind_pure (l.forM check)]
      refine hrest.bind fun _ bs hbs => .ok ?_
      rw [hb, hbs]
      rfl

/-- A check whose result can be looked up is the computation that is checked. -/
theorem of_bind_access {x : Except ε α} {y : Except ε β} {look : α → Option β}
    (h : Alike (fun a b => look a = some b) x y) :
    (Guarded.of x >>= fun a => Guarded.access (look a)) = Guarded.of y := by
  cases h with
  | error e => rfl
  | ok hab =>
      rw [Guarded.of_ok, pure_bind, hab]
      rfl

end Alike

/-! ## Diagrams that are checked -/

namespace Diagram

variable {D : Diagram}

instance (D : Diagram) (a : Symbol) (qs : OrderedSet Nat) : Decidable (D.CellWellFormed a qs) :=
  decidable_of_iff (a ∈ D.alphabet ∧ qs.toList ≠ [] ∧ ∀ q ∈ qs.toList, q < D.states.length)
    ⟨fun h => ⟨h.1, h.2.1, h.2.2⟩, fun h => ⟨h.symbol_mem, h.targets_ne_nil, h.target_lt⟩⟩

instance (D : Diagram) (p : Nat) (row : Row) : Decidable (D.RowWellFormed p row) :=
  decidable_of_iff (p < D.states.length ∧ row.entries ≠ [] ∧
      ∀ cell ∈ row.entries, D.CellWellFormed cell.1 cell.2)
    ⟨fun h => ⟨h.1, h.2.1, h.2.2⟩, fun h => ⟨h.source_lt, h.cells_ne_nil, h.cell_wellFormed⟩⟩

instance (D : Diagram) : Decidable D.WellFormed :=
  decidable_of_iff (D.start < D.states.length ∧
      (∀ q ∈ D.accepting.toList, q < D.states.length) ∧
        ∀ row ∈ D.transitions.entries, D.RowWellFormed row.1 row.2)
    ⟨fun h => ⟨h.1, h.2.1, h.2.2⟩, fun h => ⟨h.start_lt, h.accepting_lt, h.row_wellFormed⟩⟩

/-- The automaton of a diagram, which fails if the diagram is not well formed. -/
def checked? (D : Diagram) : Option Automaton :=
  if h : D.WellFormed then some ⟨D, h⟩ else none

theorem checked?_eq_some {A : Automaton} (h : D = A.toDiagram) : D.checked? = some A := by
  subst h
  exact dif_pos A.wellFormed

end Diagram
end FormalLang
