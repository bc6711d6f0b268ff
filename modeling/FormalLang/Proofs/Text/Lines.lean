/-!
# Marks in texts

A text that is put together from pieces with a mark between them, or with a line break
behind each of them, is taken apart again at the marks, as long as the mark stands in no
piece.

Main results:

- Theorem `Text.append_cons_inj`: two parts, of which the first one has no mark.
- Theorem `Text.append_cons_inj_of_last`: two parts, of which the second one has no mark.
- Theorem `Text.intercalate_inj`: any number of pieces with marks between them.
- Theorem `Text.intercalate_cons_inj`: the same if something follows each mark.
- Theorem `Text.join_lines_inj`: any number of lines.
-/

namespace FormalLang.Text

variable {α : Type} {a : α} {l l' r r' : List α}

/-! ## One mark -/

/-- Two parts are told apart by the first mark. -/
theorem append_cons_inj (hl : a ∉ l) (hl' : a ∉ l') :
    l ++ a :: r = l' ++ a :: r' ↔ l = l' ∧ r = r' := by
  constructor
  · intro h
    induction l generalizing l' with
    | nil =>
        cases l' with
        | nil => exact ⟨rfl, List.tail_eq_of_cons_eq h⟩
        | cons b l' => exact (hl' (List.head_eq_of_cons_eq h ▸ List.mem_cons_self)).elim
    | cons b l ih =>
        cases l' with
        | nil => exact (hl (List.head_eq_of_cons_eq h ▸ List.mem_cons_self)).elim
        | cons c l' =>
            have hhead : b = c := List.head_eq_of_cons_eq h
            have hrest := ih (fun ha => hl (List.mem_cons_of_mem b ha))
              (fun ha => hl' (List.mem_cons_of_mem c ha)) (List.tail_eq_of_cons_eq h)
            exact ⟨by rw [hhead, hrest.1], hrest.2⟩
  · rintro ⟨rfl, rfl⟩
    rfl

/-- Two parts are told apart by the last mark. -/
theorem append_cons_inj_of_last (hr : a ∉ r) (hr' : a ∉ r') :
    l ++ a :: r = l' ++ a :: r' ↔ l = l' ∧ r = r' := by
  have hreverse : l ++ a :: r = l' ++ a :: r' ↔
      r.reverse ++ a :: l.reverse = r'.reverse ++ a :: l'.reverse := by
    rw [← List.reverse_inj]
    simp
  rw [hreverse, append_cons_inj (by simpa using hr) (by simpa using hr'), List.reverse_inj,
    List.reverse_inj, and_comm]

/-! ## Marks between pieces -/

/-- What stands in a list of pieces stands in the separator or in a piece. -/
theorem mem_intercalate {between : List α} {pieces : List (List α)}
    (h : a ∈ between.intercalate pieces) : a ∈ between ∨ ∃ p ∈ pieces, a ∈ p := by
  induction pieces with
  | nil => simp at h
  | cons p pieces ih =>
      cases pieces with
      | nil =>
          rw [List.intercalate_singleton] at h
          exact Or.inr ⟨p, List.mem_cons_self, h⟩
      | cons q pieces =>
          rw [List.intercalate_cons_cons, List.append_assoc, List.mem_append, List.mem_append] at h
          rcases h with h | h | h
          · exact Or.inr ⟨p, List.mem_cons_self, h⟩
          · exact Or.inl h
          · rcases ih h with h | ⟨r, hr, h⟩
            · exact Or.inl h
            · exact Or.inr ⟨r, List.mem_cons_of_mem p hr, h⟩

/-- Pieces are told apart by the marks between them. -/
theorem intercalate_inj {c : Char} {ps qs : List (List Char)} (hps : ∀ p ∈ ps, c ∉ p)
    (hqs : ∀ q ∈ qs, c ∉ q) (hne : ps ≠ []) (hne' : qs ≠ [])
    (h : [c].intercalate ps = [c].intercalate qs) : ps = qs := by
  rw [← List.splitOn_intercalate c hps hne, h, List.splitOn_intercalate c hqs hne']

/-- What stands in front of a list of pieces stands in front of the first one. -/
theorem intercalate_append_cons (between start p : List α) (pieces : List (List α)) :
    between.intercalate ((start ++ p) :: pieces) = start ++ between.intercalate (p :: pieces) := by
  cases pieces with
  | nil => rw [List.intercalate_singleton, List.intercalate_singleton]
  | cons q pieces =>
      rw [List.intercalate_cons_cons, List.intercalate_cons_cons, List.append_assoc,
        List.append_assoc, List.append_assoc]

/-- What follows a mark between pieces can be taken for the beginning of the next piece. -/
theorem intercalate_cons_eq (a : α) (between p : List α) (pieces : List (List α)) :
    (a :: between).intercalate (p :: pieces) =
      [a].intercalate (p :: pieces.map (between ++ ·)) := by
  induction pieces generalizing p with
  | nil => rfl
  | cons q pieces ih =>
      rw [List.map_cons, List.intercalate_cons_cons, List.intercalate_cons_cons, ih,
        intercalate_append_cons]
      simp

/-- Pieces are told apart by the marks between them, whatever follows each mark. -/
theorem intercalate_cons_inj {c : Char} {between : List Char} {ps qs : List (List Char)}
    (hbetween : c ∉ between) (hps : ∀ p ∈ ps, c ∉ p) (hqs : ∀ q ∈ qs, c ∉ q) (hne : ps ≠ [])
    (hne' : qs ≠ []) (h : (c :: between).intercalate ps = (c :: between).intercalate qs) :
    ps = qs := by
  have hmarks : ∀ (p : List Char) (pieces : List (List Char)), (∀ q ∈ p :: pieces, c ∉ q) →
      ∀ q ∈ p :: pieces.map (between ++ ·), c ∉ q := by
    intro p pieces hpieces
    rw [List.forall_mem_cons] at hpieces ⊢
    refine ⟨hpieces.1, List.forall_mem_map.mpr fun q hq hmem => ?_⟩
    exact (List.mem_append.mp hmem).elim hbetween (hpieces.2 q hq)
  cases ps with
  | nil => exact absurd rfl hne
  | cons p ps =>
      cases qs with
      | nil => exact absurd rfl hne'
      | cons q qs =>
          rw [intercalate_cons_eq c between p ps, intercalate_cons_eq c between q qs] at h
          have hpieces := intercalate_inj (hmarks p ps hps) (hmarks q qs hqs)
            (List.cons_ne_nil _ _) (List.cons_ne_nil _ _) h
          rw [List.cons_eq_cons, List.map_inj_right fun _ _ => List.append_cancel_left] at hpieces
          rw [hpieces.1, hpieces.2]

/-! ## Lines -/

/-- Lines that end with a newline are set off from what follows. -/
theorem flatMap_newline_append {ls rest : List (List Char)} (h : rest ≠ []) :
    (ls.flatMap fun l => l ++ ['\n']) ++ ['\n'].intercalate rest =
      ['\n'].intercalate (ls ++ rest) := by
  induction ls with
  | nil => rfl
  | cons l ls ih =>
      rw [List.flatMap_cons, List.append_assoc, ih, List.cons_append,
        List.intercalate_cons_of_ne_nil (List.append_ne_nil_of_right_ne_nil ls h)]

/-- The characters of lines with their ends: line breaks stand between them, and one more
behind the last of them. -/
theorem toList_join_lines (lines : List String) :
    (String.join (lines.map fun line => line ++ "\n")).toList =
      ['\n'].intercalate (lines.map String.toList ++ [[]]) := by
  rw [← flatMap_newline_append (List.cons_ne_nil _ _), String.toList_join, List.flatMap_map,
    List.flatMap_map]
  simp

/-- Lines are told apart by their ends. -/
theorem join_lines_inj {lines lines' : List String} (h : ∀ line ∈ lines, '\n' ∉ line.toList)
    (h' : ∀ line ∈ lines', '\n' ∉ line.toList)
    (heq : String.join (lines.map fun line => line ++ "\n") =
      String.join (lines'.map fun line => line ++ "\n")) : lines = lines' := by
  have hends : ∀ ls : List String, (∀ line ∈ ls, '\n' ∉ line.toList) →
      ∀ p ∈ ls.map String.toList ++ [[]], '\n' ∉ p := by
    intro ls hls p hp
    rcases List.mem_append.mp hp with hp | hp
    · rcases List.mem_map.mp hp with ⟨line, hline, rfl⟩
      exact hls line hline
    · exact List.mem_singleton.mp hp ▸ List.not_mem_nil
  have hlists := congrArg String.toList heq
  rw [toList_join_lines, toList_join_lines] at hlists
  have hpieces := intercalate_inj (hends lines h) (hends lines' h') (by simp) (by simp) hlists
  rw [List.append_left_inj] at hpieces
  exact (List.map_inj_right fun _ _ => String.toList_inj.mp).mp hpieces

end FormalLang.Text
