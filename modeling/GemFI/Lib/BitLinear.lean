import Mathlib.Algebra.BigOperators.Group.Finset.Basic
import Mathlib.Algebra.Field.ZMod
import Mathlib.Data.Nat.Bitwise
import Mathlib.Logic.Function.Iterate

/-!
# Linear maps on bits

A word with its own shift added determines the word (`xor_shiftLeft_injective`, `xor_shiftRight_injective`).

`dot u x` is the parity of the bits that the mask `u` selects in the word `x`.  A shift of the word is a shift of the
mask in the other direction (`dot_shiftLeft`, `dot_shiftRight`), so a map made of shifts and exclusive ors has an
adjoint on masks: what a mask sees along an orbit of the map, the images of the mask under the adjoint see at its
beginning (`Silent.adjoint`).

`eliminate` brings a square matrix, given as one number, into reduced form.  Its rows are sums of the given ones, so a
property that sums keep goes over to them (`eliminate_forall`).
-/

namespace GemFI.BitLinear

variable {w : Nat}

/-! ### Words with their shifts added -/

theorem xor_shiftLeft_injective {k : Nat} (hk : 0 < k) : Function.Injective fun x : BitVec w => x ^^^ (x <<< k) := by
  intro x y h
  refine BitVec.eq_of_getLsbD_eq fun i hi => ?_
  induction i using Nat.strong_induction_on with
  | _ i ih =>
    have hbit := congrArg (fun z : BitVec w => z.getLsbD i) h
    simp only [BitVec.getLsbD_xor, BitVec.getLsbD_shiftLeft] at hbit
    by_cases hik : i < k
    · simpa [hik] using hbit
    · rw [ih (i - k) (by omega) (by omega)] at hbit
      simpa using hbit

theorem xor_shiftRight_injective {k : Nat} (hk : 0 < k) : Function.Injective fun x : BitVec w => x ^^^ (x >>> k) := by
  intro x y h
  refine BitVec.eq_of_getLsbD_eq fun i hi => ?_
  induction hn : w - i using Nat.strong_induction_on generalizing i with
  | _ n ih =>
    have hbit := congrArg (fun z : BitVec w => z.getLsbD i) h
    simp only [BitVec.getLsbD_xor, BitVec.getLsbD_ushiftRight] at hbit
    by_cases hik : k + i < w
    · rw [ih (w - (k + i)) (by omega) (k + i) hik rfl] at hbit
      simpa using hbit
    · rw [BitVec.getLsbD_of_ge x (k + i) (by omega), BitVec.getLsbD_of_ge y (k + i) (by omega)] at hbit
      simpa using hbit

/-! ### Parities -/

def bit (b : Bool) : ZMod 2 := if b then 1 else 0

theorem bit_xor (a b : Bool) : bit (a ^^ b) = bit a + bit b := by
  cases a <;> cases b <;> decide

theorem bit_eq_zero {b : Bool} : bit b = 0 ↔ b = false := by
  cases b <;> decide

def dot (u x : BitVec w) : ZMod 2 := ∑ i ∈ Finset.range w, bit (u.getLsbD i && x.getLsbD i)

theorem dot_xor_right (u x y : BitVec w) : dot u (x ^^^ y) = dot u x + dot u y := by
  unfold dot
  rw [← Finset.sum_add_distrib]
  refine Finset.sum_congr rfl fun i _ => ?_
  rw [BitVec.getLsbD_xor, Bool.and_xor_distrib_left, bit_xor]

theorem dot_comm (u x : BitVec w) : dot u x = dot x u := by
  unfold dot
  refine Finset.sum_congr rfl fun i _ => ?_
  rw [Bool.and_comm]

theorem dot_xor_left (u v x : BitVec w) : dot (u ^^^ v) x = dot u x + dot v x := by
  rw [dot_comm, dot_xor_right, dot_comm x, dot_comm x]

theorem dot_zero_left (x : BitVec w) : dot 0#w x = 0 := by
  unfold dot
  refine Finset.sum_eq_zero fun i _ => ?_
  rw [BitVec.getLsbD_zero, Bool.false_and]
  rfl

private theorem dot_eq_sum (u x : BitVec w) (k : Nat) :
    dot u x = ∑ i ∈ Finset.range (w + k), bit (u.getLsbD i && x.getLsbD i) := by
  rw [Finset.sum_range_add]
  have hbehind : ∑ i ∈ Finset.range k, bit (u.getLsbD (w + i) && x.getLsbD (w + i)) = 0 := by
    refine Finset.sum_eq_zero fun i _ => ?_
    rw [BitVec.getLsbD_of_ge u _ (by omega), Bool.false_and]
    rfl
  rw [hbehind, add_zero, dot]

theorem dot_shiftLeft (u x : BitVec w) (k : Nat) : dot u (x <<< k) = dot (u >>> k) x := by
  rw [dot_eq_sum u _ k, Nat.add_comm, Finset.sum_range_add, dot]
  have hlow : ∑ i ∈ Finset.range k, bit (u.getLsbD i && (x <<< k).getLsbD i) = 0 := by
    refine Finset.sum_eq_zero fun i hi => ?_
    have hik := Finset.mem_range.1 hi
    simp [hik, bit]
  rw [hlow, zero_add]
  refine Finset.sum_congr rfl fun i hi => congrArg bit ?_
  rw [BitVec.getLsbD_shiftLeft, BitVec.getLsbD_ushiftRight, Nat.add_sub_cancel_left]
  have hge : ¬k + i < k := by omega
  by_cases hlt : k + i < w
  · simp [hlt, hge]
  · rw [BitVec.getLsbD_of_ge u _ (by omega)]
    rfl

theorem dot_shiftRight (u x : BitVec w) (k : Nat) : dot u (x >>> k) = dot (u <<< k) x := by
  rw [dot_comm, ← dot_shiftLeft, dot_comm]

theorem dot_twoPow {i : Nat} (hi : i < w) (x : BitVec w) : dot (BitVec.twoPow w i) x = bit (x.getLsbD i) := by
  unfold dot
  rw [Finset.sum_eq_single i]
  · simp [hi]
  · intro j _ hj
    rw [BitVec.getLsbD_twoPow]
    simp [Ne.symm hj, bit]
  · exact fun h => absurd (Finset.mem_range.2 hi) h

/-! ### Orbits -/

section

variable {S M : Type} {pair : M → S → ZMod 2} {T : S → S} {s : S}

def Silent (pair : M → S → ZMod 2) (T : S → S) (s : S) (m : M) : Prop := ∀ n, pair m (T^[n] s) = 0

theorem Silent.adjoint {adj : M → M} (hadj : ∀ m s, pair (adj m) s = pair m (T s)) {m : M} (h : Silent pair T s m) :
    Silent pair T s (adj m) := by
  intro n
  rw [hadj, ← Function.iterate_succ_apply' T]
  exact h (n + 1)

end

/-! ### Matrices -/

/-- A matrix with rows of `n` bits as one number, the first row lowest. -/
def matrix (n : Nat) (rows : List Nat) : Nat := rows.foldr (fun r M => 2 ^ n * M + r) 0

def row (n M k : Nat) : Nat := (M >>> (n * k)) % 2 ^ n

section

variable {n : Nat}

private theorem row_zero (a : Nat) {b : Nat} (hb : b < 2 ^ n) : row n (2 ^ n * a + b) 0 = b := by
  rw [row, Nat.mul_zero, Nat.shiftRight_zero, Nat.mul_add_mod, Nat.mod_eq_of_lt hb]

private theorem row_succ (a : Nat) {b : Nat} (hb : b < 2 ^ n) (k : Nat) :
    row n (2 ^ n * a + b) (k + 1) = row n a k := by
  have hdiv : (2 ^ n * a + b) / 2 ^ n = a := by
    rw [Nat.mul_add_div (Nat.two_pow_pos n), Nat.div_eq_of_lt hb, Nat.add_zero]
  rw [row, row, Nat.mul_succ, Nat.add_comm (n * k), Nat.shiftRight_add, Nat.shiftRight_eq_div_pow _ n, hdiv]

theorem row_matrix {rows : List Nat} (h : ∀ r ∈ rows, r < 2 ^ n) (k : Nat) :
    row n (matrix n rows) k = rows.getD k 0 := by
  induction rows generalizing k with
  | nil => simp [matrix, row]
  | cons r rows ih =>
    obtain ⟨hr, hrows⟩ := List.forall_mem_cons.1 h
    have hcons : matrix n (r :: rows) = 2 ^ n * matrix n rows + r := rfl
    rw [hcons]
    cases k with
    | zero => rw [row_zero _ hr, List.getD_cons_zero]
    | succ k => rw [row_succ _ hr, ih hrows, List.getD_cons_succ]

theorem row_xor (a b k : Nat) : row n (a ^^^ b) k = row n a k ^^^ row n b k := by
  rw [row, row, row, Nat.shiftRight_xor_distrib, Nat.xor_mod_two_pow]

def Column (n M : Nat) : Prop := ∀ j, M.testBit j = true → n ∣ j

private theorem Column.div {M : Nat} (h : Column n M) : Column n (M / 2 ^ n) := by
  intro j hj
  rw [Nat.testBit_div_two_pow] at hj
  exact (Nat.dvd_add_left (Nat.dvd_refl n)).1 (h _ hj)

private theorem Column.mod {M : Nat} (h : Column n M) (hn : 0 < n) : M % 2 ^ n = if M.testBit 0 then 1 else 0 := by
  refine Nat.eq_of_testBit_eq fun j => ?_
  rw [Nat.testBit_mod_two_pow]
  by_cases hj : j = 0
  · subst hj
    cases M.testBit 0 <;> simp [hn]
  · have hout : ¬(j < n ∧ M.testBit j = true) := by
      rintro ⟨hlt, hbit⟩
      have hle := Nat.le_of_dvd (by omega) (h j hbit)
      omega
    have hone : (if M.testBit 0 then 1 else 0 : Nat).testBit j = false := by
      split
      · exact Bool.eq_false_iff.2 fun h => hj (Nat.testBit_one_eq_true_iff_self_eq_zero.1 h)
      · exact Nat.zero_testBit j
    rw [hone]
    simpa using hout

private theorem Column.mul_split {c r : Nat} (hc : Column n c) (hn : 0 < n) (hr : r < 2 ^ n) :
    c * r = 2 ^ n * (c / 2 ^ n * r) + c % 2 ^ n * r ∧ c % 2 ^ n * r = (if c.testBit 0 then r else 0) ∧
    c % 2 ^ n * r < 2 ^ n := by
  have hlow : c % 2 ^ n * r = if c.testBit 0 then r else 0 := by
    rw [hc.mod hn]
    split
    · exact Nat.one_mul r
    · exact Nat.zero_mul r
  refine ⟨?_, hlow, ?_⟩
  · rw [← Nat.mul_assoc, ← Nat.add_mul, Nat.div_add_mod]
  · rw [hlow]
    split
    · exact hr
    · exact Nat.two_pow_pos n

theorem row_mul {c r : Nat} (hn : 0 < n) (hc : Column n c) (hr : r < 2 ^ n) (k : Nat) :
    row n (c * r) k = if c.testBit (n * k) then r else 0 := by
  induction k generalizing c with
  | zero =>
    obtain ⟨hsplit, hlow, hlt⟩ := hc.mul_split hn hr
    rw [hsplit, row_zero _ hlt, hlow, Nat.mul_zero]
  | succ k ih =>
    obtain ⟨hsplit, -, hlt⟩ := hc.mul_split hn hr
    rw [hsplit, row_succ _ hlt, ih hc.div, Nat.testBit_div_two_pow, Nat.mul_succ]

theorem Column.xor {a b : Nat} (ha : Column n a) (hb : Column n b) : Column n (a ^^^ b) := by
  intro j hj
  rw [Nat.testBit_xor] at hj
  cases h : a.testBit j with
  | true => exact ha j h
  | false =>
    rw [h, Bool.false_xor] at hj
    exact hb j hj

theorem Column.and (a : Nat) {b : Nat} (hb : Column n b) : Column n (a &&& b) := by
  intro j hj
  rw [Nat.testBit_and, Bool.and_eq_true] at hj
  exact hb j hj.2

theorem column_two_pow (k : Nat) : Column n (2 ^ (n * k)) := by
  intro j hj
  rw [Nat.testBit_two_pow, decide_eq_true_eq] at hj
  exact ⟨k, hj.symm⟩

theorem column_matrix_one (hn : 0 < n) (k : Nat) : Column n (matrix n (List.replicate k 1)) := by
  induction k with
  | zero =>
    intro j hj
    rw [List.replicate_zero, matrix, List.foldr_nil, Nat.zero_testBit] at hj
    cases hj
  | succ k ih =>
    have hcons : matrix n (List.replicate (k + 1) 1) = 2 ^ n * matrix n (List.replicate k 1) + 1 := rfl
    intro j hj
    rw [hcons, Nat.testBit_two_pow_mul_add _ (Nat.one_lt_two_pow (by omega))] at hj
    split at hj
    · rw [Nat.testBit_one_eq_true_iff_self_eq_zero.1 hj]
      exact Nat.dvd_zero n
    · have hdvd := ih (j - n) hj
      have hsum : j = j - n + n := by omega
      rw [hsum]
      exact Nat.dvd_add hdvd (Nat.dvd_refl n)

end

/-! ### Elimination -/

/-- The state of an elimination: the matrix, the rows that are no pivots yet, and the pivots, the last one first. -/
structure Elimination where
  M : Nat
  free : List Nat
  pivots : List Nat

def firstOf (p : Nat → Bool) : List Nat → Option (Nat × List Nat)
  | [] => none
  | k :: ks => cond (p k) (some (k, ks)) ((firstOf p ks).map fun r => (r.1, k :: r.2))

/-- A round for the bit `i`: the first free row with the bit becomes a pivot, and is added to all other rows with the bit.
The operations are those on numbers that are fast to evaluate. -/
def pivot (n ones : Nat) (st : Elimination) (i : Nat) : Elimination :=
  match firstOf (fun k => Nat.beq (Nat.land (Nat.shiftRight st.M (n * k + i)) 1) 1) st.free with
  | some (k, free) =>
    let column := Nat.xor (Nat.land (Nat.shiftRight st.M i) ones) (Nat.pow 2 (n * k))
    ⟨Nat.xor st.M (Nat.mul column (row n st.M k)), free, k :: st.pivots⟩
  | none => st

def eliminate (n : Nat) (rows : List Nat) : List Nat :=
  let st := (List.range n).foldl (pivot n (matrix n (List.replicate n 1))) ⟨matrix n rows, List.range n, []⟩
  st.pivots.reverse.map (row n st.M)

section

variable {n : Nat} {P : Nat → Prop} (hn : 0 < n) (hzero : P 0) (hxor : ∀ a b, P a → P b → P (a ^^^ b))

include hn hzero hxor

theorem pivot_forall {st : Elimination} (h : ∀ k, P (row n st.M k)) {ones : Nat} (hones : Column n ones) (i : Nat) :
    ∀ k, P (row n (pivot n ones st i).M k) := by
  unfold pivot
  split
  · rename_i k free _
    have hcolumn : Column n ((st.M >>> i &&& ones) ^^^ 2 ^ (n * k)) := (hones.and _).xor (column_two_pow k)
    have hrow : row n st.M k < 2 ^ n := Nat.mod_lt _ (Nat.two_pow_pos n)
    intro l
    change P (row n (st.M ^^^ ((st.M >>> i &&& ones) ^^^ 2 ^ (n * k)) * row n st.M k) l)
    rw [row_xor, row_mul hn hcolumn hrow]
    refine hxor _ _ (h l) ?_
    split
    · exact h k
    · exact hzero
  · exact h

theorem eliminate_forall {rows : List Nat} (hlt : ∀ r ∈ rows, r < 2 ^ n) (h : ∀ r ∈ rows, P r) :
    ∀ r ∈ eliminate n rows, P r := by
  have hones := column_matrix_one hn n
  have hrun : ∀ (is : List Nat) (st : Elimination), (∀ k, P (row n st.M k)) →
      ∀ k, P (row n (is.foldl (pivot n (matrix n (List.replicate n 1))) st).M k) := by
    intro is
    induction is with
    | nil => exact fun st hst => hst
    | cons i is ih => exact fun st hst => ih _ (pivot_forall hn hzero hxor hst hones i)
  have hstart : ∀ k, P (row n (matrix n rows) k) := by
    intro k
    rw [row_matrix hlt, List.getD_eq_getElem?_getD]
    cases hget : rows[k]? with
    | none => exact hzero
    | some r => exact h r (List.mem_of_getElem? hget)
  intro r hr
  obtain ⟨k, -, rfl⟩ := List.mem_map.1 hr
  exact hrun _ _ hstart k

end

end GemFI.BitLinear
