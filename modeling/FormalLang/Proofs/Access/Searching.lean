import FormalLang.Proofs.Access.Splitting
import FormalLang.Proofs.Recognizer.Configurations

/-!
# Searches that look things up

The configurations in a text are searched with the symbols that follow at bytes.  A search
whose edges are looked up visits the same vertices as one whose edges are given: a vertex
waits in the queue only if it can be reached, and there is nothing to fail on at such a
vertex.  The queue is empty before the steps run out.

Main results:

- Theorem `Search.unseen_map`: the vertices not seen are those not marked.
- Theorem `Search.visit?_eq`: a search that looks its edges up.
- Theorem `Recognizer.recognizesText?_eq`: no access fails on the way to the answer to a
  text.
-/

namespace FormalLang

/-! ## Searches -/

namespace Search

section Unseen

variable {τ : Type} [DecidableEq τ]

/-- The vertices of a list that were not seen, each once. -/
def unseen (seen : List τ) : List τ → List τ
  | [] => []
  | v :: vertices =>
      if v ∈ seen then unseen seen vertices else v :: unseen (seen ++ [v]) vertices

/-- Visit the vertices of a queue and those that are found from them, whose edges are
looked up; nothing if an access fails, or if vertices are left when the steps run out. -/
def visit? (targets? : τ → Option (List τ)) (goal : τ → Bool) :
    (steps : Nat) → (queue seen : List τ) → Option Bool
  | 0, queue, _ => if queue.isEmpty then some false else none
  | _ + 1, [], _ => some false
  | steps + 1, v :: queue, seen =>
      if goal v then some true
      else do
        let targets ← targets? v
        let new := unseen seen targets
        visit? targets? goal steps (queue ++ new) (seen ++ new)

end Unseen

variable {σ ℓ τ : Type} [Ord σ] [Std.TransOrd σ] [Std.LawfulEqOrd σ] [DecidableEq τ]
  {edges : σ → List (ℓ × σ)} {goal : σ → Bool} {start : σ} {code : σ → τ}

/-- Vertices that can be reached have different codes. -/
def CodesReachable (edges : σ → List (ℓ × σ)) (start : σ) (code : σ → τ) : Prop :=
  ∀ u v, Reachable edges start u → Reachable edges start v → code u = code v → u = v

/-- What was not seen is what is not marked. -/
theorem unseen_map (hcode : CodesReachable edges start code) {seen : List τ}
    {marked : Std.TreeSet σ} {list : List (ℓ × σ)}
    (hlist : ∀ e ∈ list, Reachable edges start e.2)
    (hseen : ∀ v, Reachable edges start v → (code v ∈ seen ↔ v ∈ marked)) :
    unseen seen (list.map fun e => code e.2) = (unmarked marked list).map fun e => code e.2 := by
  induction list generalizing seen marked with
  | nil => rfl
  | cons e list ih =>
      rcases e with ⟨a, v⟩
      have hv : Reachable edges start v := hlist _ List.mem_cons_self
      have hrest : ∀ e ∈ list, Reachable edges start e.2 :=
        fun e he => hlist e (List.mem_cons_of_mem _ he)
      rw [List.map_cons, unseen, unmarked]
      by_cases hmarked : v ∈ marked
      · rw [if_pos ((hseen v hv).mpr hmarked), if_pos hmarked, ih hrest hseen]
      · rw [if_neg ((hseen v hv).not.mpr hmarked), if_neg hmarked, List.map_cons, ih hrest]
        intro u hu
        rw [List.mem_append, List.mem_singleton, hseen u hu, Std.TreeSet.mem_insert,
          Std.LawfulEqOrd.compare_eq_iff_eq, or_comm]
        refine or_congr_left ?_
        constructor
        · exact fun heq => hcode v u hv hu heq.symm
        · exact fun heq => congrArg code heq.symm

/-- A search that looks its edges up comes to the same answer, if all lookups at vertices
that can be reached succeed.  By induction on the steps, as for the search itself. -/
theorem visit?_eq (hcode : CodesReachable edges start code)
    {targets? : τ → Option (List τ)} {goal? : τ → Bool}
    (htargets : ∀ v, Reachable edges start v →
      targets? (code v) = some ((edges v).map fun e => code e.2))
    (hgoal : ∀ v, Reachable edges start v → goal? (code v) = goal v) {steps : Nat}
    {done queue : List σ} {marked : Std.TreeSet σ} {seen : List τ}
    (h : Frontier edges start done queue marked)
    (hseen : ∀ v, Reachable edges start v → (code v ∈ seen ↔ v ∈ marked))
    (hsteps : ReachesAtMost edges start (done.length + steps)) :
    visit? targets? goal? steps (queue.map code) seen =
      some (visit edges goal steps queue marked).reached := by
  induction steps generalizing done queue marked seen with
  | zero =>
      cases queue with
      | nil => rfl
      | cons v queue =>
          rcases h.exists_fuel hsteps with ⟨rest, hrest, -⟩
          contradiction
  | succ steps ih =>
      cases queue with
      | nil => rfl
      | cons v queue =>
          have hv : Reachable edges start v := h.reachable v (by simp)
          rw [List.map_cons, visit?, visit, hgoal v hv]
          cases goal v with
          | true => rfl
          | false =>
              have hlist : ∀ e ∈ edges v, Reachable edges start e.2 :=
                fun e he => hv.tail ⟨e.1, he⟩
              have hnew := unseen_map hcode hlist hseen
              have hqueue : queue.map code ++ (unmarked marked (edges v)).map (fun e => code e.2) =
                  (queue ++ (unmarked marked (edges v)).map Prod.snd).map code := by
                rw [List.map_append, List.map_map]
                rfl
              simp only [Bool.false_eq_true, if_false, htargets v hv, Option.bind_eq_bind,
                Option.bind_some, hnew, hqueue]
              rcases h.exists_fuel hsteps with ⟨rest, hrest, henough⟩
              cases hrest
              refine ih h.step (fun u hu => ?_) henough
              rw [mem_markAll, List.mem_append, hseen u hu]
              refine or_congr_right ?_
              rw [List.mem_map, List.mem_map]
              constructor
              · intro hmem
                rcases hmem with ⟨e, he, heq⟩
                have hfound := mem_targets_unmarked.mp (List.mem_map_of_mem (f := Prod.snd) he)
                exact ⟨e, he, hcode _ _ (hv.tail hfound.2) hu heq⟩
              · intro hmem
                rcases hmem with ⟨e, he, rfl⟩
                exact ⟨e, he, rfl⟩

end Search

/-! ## Texts -/

namespace Recognizer

variable {σ : Type}

/-- The configurations after one more symbol of the text; their positions are bytes. -/
def targets? (M : Recognizer σ) (t : List Char) (c : Config σ) : Option (List (Config σ)) := do
  let next ← nextSymbols? M.alphabet t c.position
  return next.flatMap fun step => (M.next c.state step.1).map fun q => ⟨step.2, q⟩

/-- Whether a text is recognized, found with positions that are bytes. -/
def recognizesText? [DecidableEq σ] (M : Recognizer σ) (t : List Char) : Option Bool :=
  Search.visit? (M.targets? t)
    (fun c => c.position == String.utf8Len (Text.trimEnd t) && M.final c.state)
    ((t.length + 1) * M.states.length) [⟨0, M.start⟩] [⟨0, M.start⟩]

/-- A configuration at the byte of its place. -/
def atByte (t : List Char) (c : Config σ) : Config σ :=
  ⟨Text.place t c.position, c.state⟩

theorem targets?_atByte (M : Recognizer σ) (t : List Char) (c : Config σ) :
    M.targets? t (atByte t c) = some ((M.configEdges t c).map fun e => atByte t e.2) := by
  rw [targets?, atByte, nextSymbols?_place, configEdges, List.map_flatMap]
  simp only [Option.bind_eq_bind, Option.bind_some, List.flatMap_map, List.map_map,
    Function.comp_def, Option.pure_def, atByte]

variable [Ord σ] [Std.TransOrd σ] [Std.LawfulEqOrd σ] [DecidableEq σ]

/-- No access fails on the way to the answer to a text. -/
theorem recognizesText?_eq (M : Recognizer σ) (t : List Char) :
    M.recognizesText? t = some (M.recognizesText t) := by
  have hplace : ∀ c, Search.Reachable (M.configEdges t) ⟨0, M.start⟩ c → c.position ≤ t.length :=
    fun c hc => ((reachable_iff (Nat.zero_le t.length)).mp hc).1
  have hcode : Search.CodesReachable (M.configEdges t) ⟨0, M.start⟩ (atByte t) := by
    intro c d hc hd heq
    rcases Config.ext_iff.mp heq with ⟨hbyte, hstate⟩
    exact Config.ext ((Text.place_inj (hplace c hc) (hplace d hd)).mp hbyte) hstate
  have hgoal : ∀ c, Search.Reachable (M.configEdges t) ⟨0, M.start⟩ c →
      ((atByte t c).position == String.utf8Len (Text.trimEnd t) && M.final (atByte t c).state) =
        (c.position == (Text.trimEnd t).length && M.final c.state) := by
    intro c hc
    refine congrArg (· && M.final c.state) ?_
    rw [Bool.eq_iff_iff, beq_iff_eq, beq_iff_eq, ← Splits.place_length_trimEnd]
    exact Text.place_inj (hplace c hc) (Text.length_trimEnd_le t)
  refine Search.visit?_eq hcode (fun c _ => M.targets?_atByte t c) hgoal
    (Search.Frontier.initial _ _) (fun c hc => ?_) ?_
  · rw [Search.mem_markAll, List.mem_singleton, List.mem_singleton]
    have hstart := hcode c ⟨0, M.start⟩ hc Relation.ReflTransGen.refl
    constructor
    · exact fun heq => Or.inr (hstart heq)
    · rintro (hmem | rfl)
      · simp at hmem
      · rfl
  · rw [List.length_nil, Nat.zero_add]
    exact M.reachesAtMost_configEdges t

end Recognizer
end FormalLang
