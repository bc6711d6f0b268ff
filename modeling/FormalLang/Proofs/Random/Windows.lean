import FormalLang.Random.Index
import Mathlib.Algebra.Order.Floor.Div
import Mathlib.Data.Set.Card
import Mathlib.Order.Interval.Finset.Nat

/-!
# Windows of words

The products of the words with `n` are the multiples of `n`.  A word gives an index if its product
lies in the window of the index, whose length is `n` times a power of two.  So as many words as
the power of two tells give the index, wherever the window begins.

Main results:

- Theorem `Random.windowSize_eq`: windows are as long as the leading zeros of `n` tell.
- Theorem `Random.index?_eq_some_iff`: a word gives the index in whose window its product lies.
- Theorem `Random.ncard_index?_eq_some`: equally many words give each index.
-/

namespace FormalLang

namespace Random

/-! ## Windows -/

/-- The number of leading zeros of a number as a 64-bit number. -/
def leadingZeros (n : Nat) : Nat :=
  (BitVec.ofNat 64 n).clz.toNat

variable {n i : Nat} {v : UInt64}

/-- The highest digit of a number stands behind its leading zeros. -/
theorem log2_add_leadingZeros (hn : 0 < n) (hlt : n < UInt64.size) :
    Nat.log2 n + leadingZeros n = 63 := by
  have htoNat : (BitVec.ofNat 64 n).toNat = n := Nat.mod_eq_of_lt hlt
  have hne : BitVec.ofNat 64 n ≠ 0#64 := by
    intro hzero
    rw [hzero] at htoNat
    exact Nat.ne_of_lt hn htoNat
  have hlower := BitVec.two_pow_sub_clz_le_toNat_of_ne_zero (by decide) hne
  have hupper := BitVec.toNat_lt_two_pow_sub_clz (x := BitVec.ofNat 64 n)
  rw [htoNat] at hlower hupper
  have hle : leadingZeros n ≤ 63 := by
    by_contra hgt
    have hnone : 64 - leadingZeros n = 0 := by omega
    rw [leadingZeros] at hnone
    rw [hnone] at hupper
    omega
  have hlog : Nat.log2 n = 63 - leadingZeros n := by
    rw [Nat.log2_eq_iff (Nat.ne_of_gt hn)]
    have hnext : 63 - leadingZeros n + 1 = 64 - leadingZeros n := by omega
    rw [hnext]
    exact ⟨hlower, hupper⟩
  omega

theorem windowSize_eq (hn : 0 < n) (hlt : n < UInt64.size) :
    windowSize n = 2 ^ leadingZeros n := by
  have hsum := log2_add_leadingZeros hn hlt
  have hexponent : 63 - Nat.log2 n = leadingZeros n := by omega
  rw [windowSize, hexponent]
  rfl

/-- The windows of different indices do not overlap. -/
theorem mul_windowSize_le (hle : n ≤ UInt64.size) : n * windowSize n ≤ UInt64.size := by
  have hupper : n ≤ 2 ^ (Nat.log2 n + 1) := Nat.le_of_lt Nat.lt_log2_self
  rcases Nat.lt_or_ge (Nat.log2 n) 64 with hlog | hlog
  · have hexponent : Nat.log2 n + 1 + (63 - Nat.log2 n) = 64 := by omega
    calc
      n * windowSize n ≤ 2 ^ (Nat.log2 n + 1) * 2 ^ (63 - Nat.log2 n) :=
        Nat.mul_le_mul_right _ hupper
      _ = UInt64.size := by rw [← Nat.pow_add, hexponent]
  · have hexponent : 63 - Nat.log2 n = 0 := by omega
    have hone : windowSize n = 1 := by rw [windowSize, hexponent, Nat.pow_eq, Nat.pow_zero]
    rwa [hone, Nat.mul_one]

/-- A word gives the index in whose window its product lies. -/
theorem index?_eq_some_iff (hn : 0 < n) (hle : n ≤ UInt64.size) :
    index? n v = some i ↔ UInt64.size * i ≤ v.toNat * n ∧
      v.toNat * n < UInt64.size * i + n * windowSize n := by
  have hwindow : 0 < n * windowSize n := Nat.mul_pos hn (Nat.pow_pos Nat.zero_lt_two)
  have hfits := mul_windowSize_le hle
  simp only [index?, Option.ite_none_right_eq_some, Option.some.injEq]
  constructor
  · intro h
    rcases h with ⟨hmod, rfl⟩
    have hproduct := Nat.div_add_mod (v.toNat * n) UInt64.size
    omega
  · intro h
    rcases h with ⟨hlower, hupper⟩
    obtain ⟨r, hr⟩ := Nat.exists_eq_add_of_le hlower
    have hsize : r < UInt64.size := by omega
    rw [hr, Nat.mul_add_mod, Nat.mod_eq_of_lt hsize, Nat.mul_add_div (by decide),
      Nat.div_eq_of_lt hsize]
    omega

/-! ## Words in a window -/

/-- The number of the first word whose product lies in the window of an index. -/
def windowStart (n i : Nat) : Nat :=
  (UInt64.size * i) ⌈/⌉ n

/-- The numbers of the words whose products lie in the window of an index. -/
def wordNumbers (n i : Nat) : Finset Nat :=
  Finset.Ico (windowStart n i) (windowStart n i + windowSize n)

theorem card_wordNumbers (n i : Nat) : (wordNumbers n i).card = windowSize n := by
  rw [wordNumbers, Nat.card_Ico, Nat.add_sub_cancel_left]

theorem windowStart_le_iff {k : Nat} (hn : 0 < n) :
    windowStart n i ≤ k ↔ UInt64.size * i ≤ k * n := by
  rw [windowStart, ceilDiv_le_iff_le_mul hn, Nat.mul_comm n k]

/-- A product is behind a window when the one `windowSize n` words before is not before it. -/
theorem windowEnd_le_iff {k : Nat} (hn : 0 < n) :
    windowStart n i + windowSize n ≤ k ↔ UInt64.size * i + n * windowSize n ≤ k * n := by
  constructor
  · intro h
    obtain ⟨j, rfl⟩ := Nat.exists_eq_add_of_le' (Nat.le_of_add_left_le h)
    have hstart := (windowStart_le_iff hn).mp (Nat.add_le_add_iff_right.mp h)
    rw [Nat.add_mul, Nat.mul_comm (windowSize n) n]
    exact Nat.add_le_add_right hstart _
  · intro h
    have hbehind : windowSize n ≤ k := by
      refine Nat.le_of_mul_le_mul_left (c := n) ?_ hn
      rw [Nat.mul_comm n k]
      exact Nat.le_of_add_left_le h
    obtain ⟨j, rfl⟩ := Nat.exists_eq_add_of_le' hbehind
    rw [Nat.add_mul, Nat.mul_comm (windowSize n) n] at h
    exact Nat.add_le_add_right ((windowStart_le_iff hn).mpr (Nat.add_le_add_iff_right.mp h)) _

theorem mem_wordNumbers_iff {k : Nat} (hn : 0 < n) :
    k ∈ wordNumbers n i ↔
      UInt64.size * i ≤ k * n ∧ k * n < UInt64.size * i + n * windowSize n := by
  rw [wordNumbers, Finset.mem_Ico, windowStart_le_iff hn, ← not_le, ← not_le, windowEnd_le_iff hn]

/-- The window of an index below `n` ends before the words do, or with them. -/
theorem lt_size_of_mem_wordNumbers {k : Nat} (hle : n ≤ UInt64.size) (hi : i < n)
    (hk : k ∈ wordNumbers n i) : k < UInt64.size := by
  have hn := Nat.zero_lt_of_lt hi
  have hproduct := ((mem_wordNumbers_iff hn).mp hk).2
  refine Nat.lt_of_mul_lt_mul_right (a := n) ?_
  calc
    k * n < UInt64.size * i + n * windowSize n := hproduct
    _ ≤ UInt64.size * (i + 1) := Nat.add_le_add_left (mul_windowSize_le hle) _
    _ ≤ UInt64.size * n := Nat.mul_le_mul_left _ hi

/-- Each index is given by as many words as the size of a window tells. -/
theorem ncard_index?_eq_some (hle : n ≤ UInt64.size) (hi : i < n) :
    {v | index? n v = some i}.ncard = windowSize n := by
  have hn := Nat.zero_lt_of_lt hi
  have himage : UInt64.toNat '' {v | index? n v = some i} = wordNumbers n i := by
    ext k
    rw [Set.mem_image, Finset.mem_coe, mem_wordNumbers_iff hn]
    constructor
    · intro h
      rcases h with ⟨v, hv, rfl⟩
      exact (index?_eq_some_iff hn hle).mp hv
    · intro hk
      have hword := lt_size_of_mem_wordNumbers hle hi ((mem_wordNumbers_iff hn).mpr hk)
      have htoNat := UInt64.toNat_ofNat_of_lt' hword
      rw [← htoNat] at hk
      exact ⟨_, (index?_eq_some_iff hn hle).mpr hk, htoNat⟩
  calc
    {v | index? n v = some i}.ncard = (UInt64.toNat '' {v | index? n v = some i}).ncard :=
      (Set.ncard_image_of_injective _ fun v w => UInt64.toNat_inj.mp).symm
    _ = (wordNumbers n i).card := by rw [himage, Set.ncard_coe_finset]
    _ = windowSize n := card_wordNumbers n i

/-- Every index is given by some word. -/
theorem exists_index?_eq_some (hle : n ≤ UInt64.size) (hi : i < n) :
    ∃ v, index? n v = some i := by
  have hpos : 0 < windowSize n := Nat.pow_pos Nat.zero_lt_two
  rw [← ncard_index?_eq_some hle hi] at hpos
  exact Set.nonempty_of_ncard_ne_zero (Nat.ne_of_gt hpos)

end Random
end FormalLang
