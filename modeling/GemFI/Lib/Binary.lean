import Mathlib.Data.Nat.Bitwise

/-!
# Binary addition, bit by bit

A bit sequence is a function `Nat → Bool`, least significant bit first.

* `valBelow f n` is the number written by the bits `0, …, n-1`; it determines these bits (`testBit_valBelow`).
* `carry x y i` is the carry into bit `i` when `x` and `y` are added; the sum bits together with the last carry are
  the sum of the two numbers (`ripple`).
* `gen g p lo hi` and `prop p lo hi` are the group generate and propagate of the bits `lo, …, hi-1`.  Two adjacent
  groups compose (`gen_split`, `prop_split`), and the group generate of a prefix is the carry out of it (`gen_zero`).
-/

namespace GemFI.Binary

/-! ### The value of a bit sequence -/

def valBelow (f : Nat → Bool) : Nat → Nat
  | 0 => 0
  | n + 1 => valBelow f n + (f n).toNat * 2 ^ n

theorem valBelow_lt (f : Nat → Bool) (n : Nat) : valBelow f n < 2 ^ n := by
  induction n with
  | zero => simp [valBelow]
  | succ n ih =>
    have hb : (f n).toNat ≤ 1 := Bool.toNat_le (f n)
    have := Nat.mul_le_mul_right (2 ^ n) hb
    rw [valBelow, Nat.pow_succ]
    omega

theorem valBelow_congr {f g : Nat → Bool} {n : Nat} (h : ∀ i < n, f i = g i) : valBelow f n = valBelow g n := by
  induction n with
  | zero => rfl
  | succ n ih => rw [valBelow, valBelow, ih (fun i hi => h i (by omega)), h n (by omega)]

theorem testBit_valBelow (f : Nat → Bool) {n i : Nat} (hi : i < n) : (valBelow f n).testBit i = f i := by
  induction n with
  | zero => omega
  | succ n ih =>
    have e : valBelow f (n + 1) = 2 ^ n * (f n).toNat + valBelow f n := by
      rw [valBelow, Nat.mul_comm, Nat.add_comm]
    rw [e, Nat.testBit_two_pow_mul_add _ (valBelow_lt f n)]
    by_cases h : i < n
    · simp only [h, ↓reduceIte, ih h]
    · have hin : i = n := by omega
      subst hin
      cases hf : f i <;> simp

theorem valBelow_testBit (a n : Nat) : valBelow a.testBit n = a % 2 ^ n := by
  apply Nat.eq_of_testBit_eq
  intro i
  rw [Nat.testBit_mod_two_pow]
  by_cases h : i < n
  · simp [testBit_valBelow _ h, h]
  · have hlt : valBelow a.testBit n < 2 ^ i :=
      Nat.lt_of_lt_of_le (valBelow_lt _ n) (Nat.pow_le_pow_right (by decide) (by omega))
    simp [Nat.testBit_lt_two_pow hlt, h]

theorem eq_testBit_of_valBelow {f : Nat → Bool} {n a : Nat} (h : valBelow f n = a) {i : Nat} (hi : i < n) :
    f i = a.testBit i := by
  rw [← h, testBit_valBelow f hi]

theorem valBelow_shift (f y : Nat → Bool) (i n : Nat) (hlo : ∀ k < i, y k = false)
    (hmid : ∀ j < n, y (i + j) = f j) : valBelow y (i + n) = valBelow f n * 2 ^ i := by
  induction n with
  | zero =>
    have e := valBelow_congr (g := fun _ => false) hlo
    rw [Nat.add_zero, e]
    clear e hlo hmid
    induction i with
    | zero => rfl
    | succ i ih => simpa [valBelow] using ih
  | succ n ih =>
    have e : valBelow y (i + (n + 1)) = valBelow y (i + n) + (y (i + n)).toNat * 2 ^ (i + n) := rfl
    rw [e, ih (fun j hj => hmid j (by omega)), hmid n (by omega), valBelow, Nat.add_mul, Nat.mul_assoc,
      ← Nat.pow_add, Nat.add_comm n i]

theorem valBelow_extend (f : Nat → Bool) {m n : Nat} (hmn : m ≤ n) (h : ∀ k, m ≤ k → k < n → f k = false) :
    valBelow f n = valBelow f m := by
  induction n, hmn using Nat.le_induction with
  | base => rfl
  | succ n hmn ih =>
    rw [valBelow, ih (fun k hk hkn => h k hk (by omega)), h n hmn (by omega)]
    simp

/-! ### Ripple carry -/

def carry (x y : Nat → Bool) : Nat → Bool
  | 0 => false
  | i + 1 => (x i && y i) || ((x i ^^ y i) && carry x y i)

def sumBit (x y : Nat → Bool) (i : Nat) : Bool := (x i ^^ y i) ^^ carry x y i

private theorem fullAdder (x y c : Bool) :
    ((x ^^ y) ^^ c).toNat + 2 * ((x && y) || ((x ^^ y) && c)).toNat = x.toNat + y.toNat + c.toNat := by
  cases x <;> cases y <;> cases c <;> rfl

theorem ripple (x y : Nat → Bool) (n : Nat) :
    valBelow (sumBit x y) n + (carry x y n).toNat * 2 ^ n = valBelow x n + valBelow y n := by
  induction n with
  | zero => rfl
  | succ n ih =>
    have hfa := congrArg (· * 2 ^ n) (fullAdder (x n) (y n) (carry x y n))
    simp only [Nat.add_mul] at hfa
    simp only [valBelow, sumBit, carry, Nat.pow_succ] at ih ⊢
    rw [Nat.mul_comm 2, Nat.mul_assoc, Nat.mul_comm 2] at hfa
    omega

theorem carry_eq_false {x y : Nat → Bool} {n : Nat} (h : valBelow x n + valBelow y n < 2 ^ n) :
    carry x y n = false := by
  have := ripple x y n
  cases hc : carry x y n with
  | false => rfl
  | true => simp only [hc, Bool.toNat_true] at this; omega

theorem testBit_add (a b k : Nat) : (a + b).testBit k = sumBit a.testBit b.testBit k := by
  have h := ripple a.testBit b.testBit (k + 1)
  rw [valBelow_testBit, valBelow_testBit] at h
  have hs := valBelow_lt (sumBit a.testBit b.testBit) (k + 1)
  have e : (a + b) % 2 ^ (k + 1) = valBelow (sumBit a.testBit b.testBit) (k + 1) := by
    rw [Nat.add_mod, ← h, Nat.add_mul_mod_self_right, Nat.mod_eq_of_lt hs]
  have ht := Nat.testBit_mod_two_pow (a + b) (k + 1) k
  rw [e, testBit_valBelow _ (by omega)] at ht
  simpa using ht.symm

/-! ### Group generate and propagate -/

def gen (g p : Nat → Bool) (lo : Nat) : Nat → Bool
  | 0 => false
  | hi + 1 => if lo ≤ hi then g hi || (p hi && gen g p lo hi) else false

def prop (p : Nat → Bool) (lo : Nat) : Nat → Bool
  | 0 => true
  | hi + 1 => if lo ≤ hi then p hi && prop p lo hi else true

private theorem gen_of_le (g p : Nat → Bool) {lo hi : Nat} (h : hi ≤ lo) : gen g p lo hi = false := by
  cases hi with
  | zero => rfl
  | succ hi => simp [gen, show ¬ lo ≤ hi by omega]

private theorem prop_of_le (p : Nat → Bool) {lo hi : Nat} (h : hi ≤ lo) : prop p lo hi = true := by
  cases hi with
  | zero => rfl
  | succ hi => simp [prop, show ¬ lo ≤ hi by omega]

theorem gen_one (g p : Nat → Bool) (i : Nat) : gen g p i (i + 1) = g i := by
  simp [gen, gen_of_le g p (Nat.le_refl i)]

theorem prop_one (p : Nat → Bool) (i : Nat) : prop p i (i + 1) = p i := by
  simp [prop, prop_of_le p (Nat.le_refl i)]

theorem gen_split (g p : Nat → Bool) {lo hi : Nat} (mid : Nat) (h1 : lo ≤ mid) (h2 : mid ≤ hi) :
    gen g p lo hi = (gen g p mid hi || (prop p mid hi && gen g p lo mid)) := by
  induction hi, h2 using Nat.le_induction with
  | base => simp [gen_of_le g p (Nat.le_refl mid), prop_of_le p (Nat.le_refl mid)]
  | succ hi h ih =>
    simp only [gen, prop, h, show lo ≤ hi by omega, ↓reduceIte, ih]
    cases g hi <;> cases p hi <;> simp

theorem prop_split (p : Nat → Bool) {lo hi : Nat} (mid : Nat) (h1 : lo ≤ mid) (h2 : mid ≤ hi) :
    prop p lo hi = (prop p mid hi && prop p lo mid) := by
  induction hi, h2 using Nat.le_induction with
  | base => simp [prop_of_le p (Nat.le_refl mid)]
  | succ hi h ih =>
    simp only [prop, h, show lo ≤ hi by omega, ↓reduceIte, ih, Bool.and_assoc]

theorem gen_zero (x y : Nat → Bool) (i : Nat) :
    gen (fun k => x k && y k) (fun k => x k ^^ y k) 0 i = carry x y i := by
  induction i with
  | zero => rfl
  | succ i ih => simp only [gen, carry, Nat.zero_le, ↓reduceIte, ih]

end GemFI.Binary
