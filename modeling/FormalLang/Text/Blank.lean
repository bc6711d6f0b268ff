/-!
# White space

The characters with the property White_Space of Unicode, and what it means to
leave them out at the ends of a text.  Texts are lists of characters here, so
that a place in a text is what is left of it from there on.

Main results:

- Theorem `Text.skipBlanks_append_of_blank`: blanks in front are skipped.
- Theorem `Text.trimEnd_append_trailingBlanks`: a text is its content and the
  blanks after it.
-/

namespace FormalLang.Text

/-- The characters with the property White_Space. -/
def isBlank (c : Char) : Bool :=
  let n := c.toNat
  (0x09 ≤ n && n ≤ 0x0D) || n == 0x20 || n == 0x85 || n == 0xA0 || n == 0x1680 ||
    (0x2000 ≤ n && n ≤ 0x200A) || n == 0x2028 || n == 0x2029 || n == 0x202F ||
    n == 0x205F || n == 0x3000

/-- A text made of white space only. -/
def AllBlank (t : List Char) : Prop :=
  ∀ c ∈ t, isBlank c = true

/-! ## Blanks in front -/

/-- A text from its first character on that is not blank. -/
def skipBlanks (t : List Char) : List Char :=
  t.dropWhile isBlank

theorem skipBlanks_append_of_blank {b : List Char} (h : AllBlank b) (t : List Char) :
    skipBlanks (b ++ t) = skipBlanks t := by
  induction b with
  | nil => rfl
  | cons c b ih =>
      have hc : isBlank c = true := h c List.mem_cons_self
      have hb : AllBlank b := fun d hd => h d (List.mem_cons_of_mem c hd)
      rw [List.cons_append, ← ih hb]
      simp [skipBlanks, hc]

/-! ## Blanks at the end -/

/-- A text up to its last character that is not blank. -/
def trimEnd : List Char → List Char
  | [] => []
  | c :: t =>
      let rest := trimEnd t
      if isBlank c && rest.isEmpty then [] else c :: rest

/-- The blanks after the last character that is not blank. -/
def trailingBlanks (t : List Char) : List Char :=
  t.drop (trimEnd t).length

theorem trimEnd_append_trailingBlanks (t : List Char) :
    trimEnd t ++ trailingBlanks t = t := by
  induction t with
  | nil => rfl
  | cons c t ih =>
      simp only [trailingBlanks, trimEnd]
      split
      · rfl
      · simpa [trailingBlanks] using ih

theorem length_trimEnd_le (t : List Char) : (trimEnd t).length ≤ t.length := by
  have hlen := congrArg List.length (trimEnd_append_trailingBlanks t)
  rw [List.length_append] at hlen
  omega

/-- A text without the blanks at its two ends. -/
def trim (t : List Char) : List Char :=
  trimEnd (skipBlanks t)

end FormalLang.Text
