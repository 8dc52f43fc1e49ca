import Mathlib.Algebra.Order.Ring.Nat
import Mathlib.Data.List.Basic

/-!
# Words as bytes

`littleEndian w buf n` is the word of width `w` made of the first `n` bytes of a buffer, the lowest first, and `byteOf`
takes a byte out of a word.  Both are described bit by bit, and so is the mask of the lowest bits.
-/

namespace GemFI.Bytes

def littleEndian (w : Nat) (buf : Nat → BitVec 8) (n : Nat) : BitVec w :=
  (List.range n).foldl (fun val b => val ||| (buf b).setWidth w <<< (8 * b)) 0#w

def byteOf {w : Nat} (val : BitVec w) (b : Nat) : BitVec 8 := (val >>> (8 * b)).setWidth 8

theorem littleEndian_succ (w : Nat) (buf : Nat → BitVec 8) (n : Nat) :
    littleEndian w buf (n + 1) = littleEndian w buf n ||| (buf n).setWidth w <<< (8 * n) := by
  simp only [littleEndian, List.range_succ, List.foldl_append, List.foldl_cons, List.foldl_nil]

theorem getLsbD_littleEndian (w : Nat) (buf : Nat → BitVec 8) (n i : Nat) :
    (littleEndian w buf n).getLsbD i = (decide (i < w ∧ i < 8 * n) && (buf (i / 8)).getLsbD (i % 8)) := by
  induction n with
  | zero => simp [littleEndian]
  | succ n ih =>
    rw [littleEndian_succ, BitVec.getLsbD_or, ih, BitVec.getLsbD_shiftLeft, BitVec.getLsbD_setWidth]
    by_cases hw : i < w
    · by_cases hlow : i < 8 * n
      · have hsucc : i < 8 * (n + 1) := by omega
        simp [hw, hlow, hsucc]
      · by_cases hbyte : i < 8 * (n + 1)
        · -- the bit is in the new byte
          have hdiv : i / 8 = n := by omega
          have hmod : i % 8 = i - 8 * n := by omega
          have hsub : i - 8 * n < w := by omega
          simp [hw, hlow, hbyte, hdiv, hmod, hsub]
        · have hout : 8 ≤ i - 8 * n := by omega
          simp [hlow, hbyte, BitVec.getLsbD_of_ge _ _ hout]
    · simp [hw]

theorem getLsbD_byteOf {w : Nat} (val : BitVec w) (b j : Nat) :
    (byteOf val b).getLsbD j = (decide (j < 8) && val.getLsbD (8 * b + j)) := by
  simp [byteOf, BitVec.getLsbD_setWidth, BitVec.getLsbD_ushiftRight]

theorem littleEndian_congr {w : Nat} {buf buf' : Nat → BitVec 8} {n : Nat} (h : ∀ b < n, buf b = buf' b) :
    littleEndian w buf n = littleEndian w buf' n := by
  induction n with
  | zero => rfl
  | succ n ih => rw [littleEndian_succ, littleEndian_succ, ih fun b hb => h b (by omega), h n (by omega)]

theorem getLsbD_littleEndian_byteOf {w : Nat} (val : BitVec w) (n i : Nat) :
    (littleEndian w (byteOf val) n).getLsbD i = (decide (i < 8 * n) && val.getLsbD i) := by
  have hbyte : i % 8 < 8 := Nat.mod_lt _ (by decide)
  rw [getLsbD_littleEndian, getLsbD_byteOf, decide_eq_true hbyte, Bool.true_and, Nat.div_add_mod]
  by_cases hi : i < w
  · simp [hi]
  · simp [BitVec.getLsbD_of_ge val i (by omega)]

theorem getLsbD_shiftOne_sub_one {w n : Nat} (hn : n < w) (i : Nat) :
    ((1#w <<< n) - 1#w).getLsbD i = decide (i < n) := by
  have hpow : 2 ^ n < 2 ^ w := Nat.pow_lt_pow_right (by decide) hn
  have hpos : 0 < 2 ^ n := Nat.two_pow_pos n
  have hshift : (1#w <<< n).toNat = 2 ^ n := by
    rw [← BitVec.twoPow_eq, BitVec.toNat_twoPow, Nat.mod_eq_of_lt hpow]
  have hone : (1#w).toNat = 1 := by
    rw [BitVec.toNat_ofNat, Nat.mod_eq_of_lt (by omega)]
  have hsub : ((1#w <<< n) - 1#w).toNat = 2 ^ n - 1 := by
    rw [BitVec.toNat_sub_of_le (by rw [BitVec.le_def, hshift, hone]; omega), hshift, hone]
  rw [← BitVec.testBit_toNat, hsub, Nat.testBit_two_pow_sub_one]

end GemFI.Bytes
