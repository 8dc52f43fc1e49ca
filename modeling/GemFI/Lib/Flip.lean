import Mathlib.Algebra.Order.Ring.Nat
import Mathlib.Data.List.Infix

/-!
# Flipping one bit of an operand

A machine word with one bit flipped differs from the word by a power of two (`flip_add_or_eq`).  Adding a fixed word
shows every flip (`flip_add_ne`).  Multiplying by a fixed word `y` hides the flip of bit `i` exactly if the trailing
zeros of `y` move the bit out of the word (`flip_mul_eq_iff`), so it lets `w - trailingZeros y` flips through
(`length_filter_flip_mul`).
-/

namespace GemFI.Flip

variable {w : Nat}

/-! ### Trailing zeros -/

/-- The number of trailing zero bits, which is the number of the lowest bit that is set; `w` for zero. -/
def trailingZeros (x : BitVec w) : Nat := (List.range w).findIdx x.getLsbD

variable (x : BitVec w) {i : Nat}

theorem trailingZeros_le : trailingZeros x ≤ w := by
  have h : (List.range w).findIdx x.getLsbD ≤ (List.range w).length := List.findIdx_le_length
  simpa [trailingZeros] using h

theorem le_trailingZeros_iff {j : Nat} (hj : j ≤ w) : j ≤ trailingZeros x ↔ ∀ i < j, x.getLsbD i = false := by
  constructor
  · intro h i hi
    have hlt : i < (List.range w).findIdx x.getLsbD := Nat.lt_of_lt_of_le hi h
    simpa using List.not_of_lt_findIdx hlt
  · intro h
    cases j with
    | zero => exact Nat.zero_le _
    | succ j =>
      have hlen : j < (List.range w).length := by rw [List.length_range]; omega
      refine List.lt_findIdx_of_not hlen fun i hi => ?_
      simpa using h i (by omega)

/-! ### A flipped bit -/

def flip (x : BitVec w) (i : Nat) : BitVec w := x ^^^ (1#w <<< i)

private theorem flip_of_clear {x : BitVec w} (h : x.getLsbD i = false) : flip x i = x + BitVec.twoPow w i := by
  have hand : x &&& BitVec.twoPow w i = 0#w := by rw [BitVec.and_twoPow, h]; rfl
  rw [BitVec.add_eq_or_of_and_eq_zero _ _ hand, flip, ← BitVec.twoPow_eq]
  apply BitVec.eq_of_getLsbD_eq
  intro j hj
  have hbit := congrArg (fun y => BitVec.getLsbD y j) hand
  simp only [BitVec.getLsbD_and, BitVec.getLsbD_zero] at hbit
  rw [BitVec.getLsbD_xor, BitVec.getLsbD_or]
  cases hx : x.getLsbD j with
  | false => rw [Bool.false_xor, Bool.false_or]
  | true =>
    rw [hx, Bool.true_and] at hbit
    rw [hbit]
    rfl

theorem flip_add_or_eq (i : Nat) : flip x i = x + BitVec.twoPow w i ∨ x = flip x i + BitVec.twoPow w i := by
  cases h : x.getLsbD i with
  | false => exact .inl (flip_of_clear h)
  | true =>
    have hi : i < w := by
      by_contra hi
      rw [BitVec.getLsbD_of_ge x i (by omega)] at h
      cases h
    have hclear : (flip x i).getLsbD i = false := by
      rw [flip, ← BitVec.twoPow_eq, BitVec.getLsbD_xor, h, BitVec.getLsbD_twoPow]
      simp [hi]
    -- flipping the bit back gives the word
    have hback : flip (flip x i) i = x := by
      rw [flip, flip, BitVec.xor_assoc, BitVec.xor_self, BitVec.xor_zero]
    exact .inr (hback.symm.trans (flip_of_clear hclear))

theorem twoPow_ne_zero (hi : i < w) : BitVec.twoPow w i ≠ 0#w := by
  intro h
  have := congrArg (fun x => BitVec.getLsbD x i) h
  simp [hi] at this

theorem flip_ne (hi : i < w) : flip x i ≠ x := by
  intro h
  have hx : x + BitVec.twoPow w i = x := by
    rcases flip_add_or_eq x i with h' | h'
    · rw [← h', h]
    · rw [h] at h'
      exact h'.symm
  exact twoPow_ne_zero hi (BitVec.add_right_eq_self.1 hx)

theorem flip_add_ne (x y : BitVec w) (hi : i < w) : flip x i + y ≠ x + y := fun h =>
  flip_ne x hi ((BitVec.add_left_inj y).1 h)

theorem add_flip_ne (x y : BitVec w) (hi : i < w) : x + flip y i ≠ x + y := fun h =>
  flip_ne y hi ((BitVec.add_right_inj x).1 h)

/-! ### A flipped factor -/

private theorem twoPow_mul_eq_zero_iff (y : BitVec w) (hi : i < w) :
    BitVec.twoPow w i * y = 0#w ↔ w ≤ i + trailingZeros y := by
  have hle : w ≤ i + trailingZeros y ↔ w - i ≤ trailingZeros y := by omega
  rw [BitVec.mul_comm, BitVec.mul_twoPow_eq_shiftLeft, hle, le_trailingZeros_iff y (Nat.sub_le w i)]
  constructor
  · intro h j hj
    have hbit := congrArg (fun x => BitVec.getLsbD x (i + j)) h
    simp only [BitVec.getLsbD_shiftLeft, BitVec.getLsbD_zero, Nat.add_sub_cancel_left] at hbit
    simpa [show i + j < w by omega] using hbit
  · intro h
    apply BitVec.eq_of_getLsbD_eq
    intro j hj
    rw [BitVec.getLsbD_shiftLeft]
    by_cases hji : j < i
    · simp [hji]
    · simp [h (j - i) (by omega)]

theorem flip_mul_eq_iff (x y : BitVec w) (hi : i < w) : flip x i * y = x * y ↔ w ≤ i + trailingZeros y := by
  rw [← twoPow_mul_eq_zero_iff y hi]
  rcases flip_add_or_eq x i with h | h
  · rw [h, BitVec.add_mul, BitVec.add_right_eq_self]
  · have hmul : x * y = flip x i * y + BitVec.twoPow w i * y := by
      conv => lhs; rw [h, BitVec.add_mul]
    rw [hmul]
    exact eq_comm.trans BitVec.add_right_eq_self

private theorem length_filter_range_lt (n m : Nat) :
    ((List.range n).filter fun i => decide (i < m)).length = min n m := by
  induction n with
  | zero => simp
  | succ n ih =>
    rw [List.range_succ, List.filter_append, List.length_append, ih]
    by_cases hn : n < m
    · simp only [List.filter_cons, hn, decide_true, ↓reduceIte, List.filter_nil, List.length_singleton]
      omega
    · simp only [List.filter_cons, hn, decide_false, Bool.false_eq_true, ↓reduceIte, List.filter_nil,
        List.length_nil]
      omega

theorem length_filter_flip_mul (x y : BitVec w) :
    ((List.range w).filter fun i => flip x i * y != x * y).length = w - trailingZeros y := by
  have hfilter : (List.range w).filter (fun i => flip x i * y != x * y) =
      (List.range w).filter fun i => decide (i < w - trailingZeros y) := by
    refine List.filter_congr fun i hi => ?_
    have hiff := flip_mul_eq_iff x y (List.mem_range.1 hi)
    rw [Bool.eq_iff_iff, bne_iff_ne, decide_eq_true_iff, Ne, hiff]
    omega
  rw [hfilter, length_filter_range_lt]
  omega

end GemFI.Flip
