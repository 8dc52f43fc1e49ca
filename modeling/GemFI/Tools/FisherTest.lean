import GemFI.Lib.Sample
import Mathlib.Analysis.SpecialFunctions.Gamma.Basic

/-!
# The exact test of the two arms

`fisher_exact_1sided` adds up the probabilities of a table with two rows and two columns and of all tables with the
same margins and a larger first entry, each as the exponential of a sum of logarithms of factorials.  The functions
`lgamma` and `exp` are parameters.  With the exact functions, the sum is the probability that a hypergeometric
variable with the margins of the table is at least the first entry, so the final `min` is never needed
(`fisher_exact`).
-/

namespace GemFI.Tools

open Finset Nat

structure MathFns (K : Type) where
  lgamma : K → K
  exp : K → K

structure Table where
  a : ℕ
  b : ℕ
  c : ℕ
  d : ℕ
  deriving DecidableEq, Repr

namespace Table

def n (t : Table) : ℕ := t.a + t.b + t.c + t.d
def row1 (t : Table) : ℕ := t.a + t.b
def col1 (t : Table) : ℕ := t.a + t.c
def hi (t : Table) : ℕ := min t.row1 t.col1

section

variable {K : Type} [Field K] (math : MathFns K)

def lp (t : Table) (x : ℕ) : K :=
  let lg := math.lgamma
  lg (t.row1 + 1) + lg (t.n - t.row1 + 1) + lg (t.col1 + 1) + lg (t.n - t.col1 + 1)
    - lg (t.n + 1) - lg (x + 1) - lg (t.row1 - x + 1) - lg (t.col1 - x + 1) - lg (t.n - t.row1 - t.col1 + x + 1)

def total (t : Table) : K :=
  (List.range' t.a (t.hi + 1 - t.a)).foldl (fun total x => total + math.exp (t.lp math x)) 0

end

def SameMargins (t u : Table) : Prop := t.row1 = u.row1 ∧ t.col1 = u.col1 ∧ t.n = u.n

end Table

def fisher_exact_1sided {K : Type} [Field K] [LinearOrder K] (math : MathFns K) (a b c d : ℕ) : K :=
  min 1 (Table.total math ⟨a, b, c, d⟩)

noncomputable def exactMath : MathFns ℝ where
  lgamma x := Real.log (Real.Gamma x)
  exp := Real.exp

namespace Table

private theorem exp_lgamma (k : ℕ) : Real.exp (Real.log (Real.Gamma (k + 1))) = (k ! : ℝ) := by
  rw [Real.Gamma_nat_eq_factorial, Real.exp_log (Nat.cast_pos.2 k.factorial_pos)]

theorem exp_lp {t u : Table} (h : SameMargins t u) :
    exactMath.exp (t.lp exactMath u.a) =
      (t.row1.choose u.a * (t.n - t.row1).choose (t.col1 - u.a) : ℝ) / t.n.choose t.col1 := by
  obtain ⟨x, p, q, s⟩ := u
  have hrow : t.row1 = x + p := h.1
  have hcol : t.col1 = x + q := h.2.1
  have hn : t.n = x + q + (p + s) := h.2.2.trans (by simp only [n]; omega)
  -- the arguments of `lgamma` are factorials of sums of the entries
  have hrest : t.n - t.row1 = q + s := by omega
  have hcol' : t.col1 - x = q := by omega
  have e1 : (t.n : ℝ) - t.row1 = (q + s : ℕ) := by rw [hn, hrow]; push_cast; ring
  have e2 : (t.n : ℝ) - t.col1 = (p + s : ℕ) := by rw [hn, hcol]; push_cast; ring
  have e3 : (t.row1 : ℝ) - x = p := by rw [hrow]; push_cast; ring
  have e4 : (t.col1 : ℝ) - x = q := by rw [hcol]; push_cast; ring
  have e5 : ((q + s : ℕ) : ℝ) - t.col1 + x = s := by rw [hcol]; push_cast; ring
  simp only [lp, exactMath, e1, e2, e3, e4, e5, Real.exp_sub, Real.exp_add, exp_lgamma, hrest, hcol']
  rw [hrow, hcol, hn, Nat.cast_add_choose, Nat.cast_add_choose, Nat.cast_add_choose]
  have hx : (x ! : ℝ) ≠ 0 := Nat.cast_ne_zero.2 x.factorial_ne_zero
  have hp : (p ! : ℝ) ≠ 0 := Nat.cast_ne_zero.2 p.factorial_ne_zero
  have hq : (q ! : ℝ) ≠ 0 := Nat.cast_ne_zero.2 q.factorial_ne_zero
  have hs : (s ! : ℝ) ≠ 0 := Nat.cast_ne_zero.2 s.factorial_ne_zero
  field_simp

/-! ### The hypergeometric variable -/

/-- Of `n` elements the first `row1` are marked, and `col1` are drawn: the probability of at least `a` marked ones. -/
def tail (t : Table) : ℚ := Sample.tail (range t.n) (range t.row1) t.col1 t.a

private theorem range_row1_subset (t : Table) : range t.row1 ⊆ range t.n := by
  refine range_subset_range.2 ?_
  simp only [row1, n]
  omega

private theorem card_rest (t : Table) : (range t.n \ range t.row1).card = t.n - t.row1 := by
  rw [card_sdiff_of_subset t.range_row1_subset, card_range, card_range]

private theorem col1_le (t : Table) : t.col1 ≤ (range t.n).card := by
  rw [card_range, col1, n]
  omega

private theorem exists_sameMargins (t : Table) {x : ℕ} (hlow : t.row1 + t.col1 ≤ t.n + x) (hx : x ≤ t.hi) :
    ∃ u, SameMargins t u ∧ u.a = x := by
  have hrow : x ≤ t.row1 := hx.trans (min_le_left _ _)
  have hcol : x ≤ t.col1 := hx.trans (min_le_right _ _)
  refine ⟨⟨x, t.row1 - x, t.col1 - x, t.n + x - t.row1 - t.col1⟩, ⟨?_, ?_, ?_⟩, rfl⟩
  all_goals simp only [row1, col1, n] at *; omega

theorem total_eq_tail (t : Table) : t.total exactMath = t.tail := by
  have hsum : ∀ f : ℕ → ℝ, (List.range' t.a (t.hi + 1 - t.a)).foldl (fun total x => total + f x) 0 =
      ∑ x ∈ Icc t.a t.hi, f x := by
    intro f
    rw [← List.foldl_map, ← List.sum_eq_foldl]
    rfl
  rw [total, hsum, tail, Sample.tail_eq_sum t.range_row1_subset, card_range, card_range, card_rest]
  push_cast
  refine sum_congr rfl fun x hx => ?_
  obtain ⟨hle, hhi⟩ := mem_Icc.1 hx
  obtain ⟨u, hu, rfl⟩ := t.exists_sameMargins (by simp only [row1, col1, n]; omega) hhi
  exact exp_lp hu

private theorem exactly_nonempty {t u : Table} (h : SameMargins t u) :
    (Sample.exactly (range t.n) (range t.row1) t.col1 u.a).Nonempty := by
  obtain ⟨hrow, hcol, hn⟩ := h
  refine Sample.exactly_nonempty t.range_row1_subset ?_ ?_ ?_
  all_goals simp only [card_range, row1, col1, n] at *; omega

private theorem tail_congr {t u : Table} (h : SameMargins t u) :
    u.tail = Sample.tail (range t.n) (range t.row1) t.col1 u.a := by
  rw [tail, h.1, h.2.1, h.2.2]

theorem tail_eq_one_iff (t : Table) : t.tail = 1 ↔ ∀ u, SameMargins t u → t.a ≤ u.a := by
  rw [tail, Sample.tail_eq_one_iff t.col1_le]
  constructor
  · intro h u hu
    obtain ⟨S, hS⟩ := exactly_nonempty hu
    obtain ⟨hmem, hcard⟩ := mem_filter.1 hS
    exact hcard ▸ h S hmem
  · intro h S hS
    have hbounds := Sample.card_inter_bounds t.range_row1_subset hS
    rw [card_range, card_range] at hbounds
    obtain ⟨u, hu, ha⟩ := t.exists_sameMargins (x := (S ∩ range t.row1).card) (by omega) hbounds.2
    exact ha ▸ h u hu

end Table

/-- The sum for a table is the probability that the hypergeometric variable is at least the first entry.  It is in
`(0, 1]`, it is 1 exactly if the first entry is the smallest one with these margins, and it drops when the first entry is
raised with the margins fixed.  So the final `min` changes nothing. -/
theorem fisher_exact (t : Table) :
    t.total exactMath = t.tail ∧ 0 < t.total exactMath ∧ t.total exactMath ≤ 1 ∧
    (t.total exactMath = 1 ↔ ∀ u, t.SameMargins u → t.a ≤ u.a) ∧
    (∀ u, t.SameMargins u → t.a < u.a → u.total exactMath < t.total exactMath) ∧
    fisher_exact_1sided exactMath t.a t.b t.c t.d = t.total exactMath := by
  have hself : t.SameMargins t := ⟨rfl, rfl, rfl⟩
  have hle : t.total exactMath ≤ 1 := by
    rw [t.total_eq_tail]
    exact_mod_cast Sample.tail_le_one t.col1_le
  refine ⟨t.total_eq_tail, ?_, hle, ?_, fun u hu hlt => ?_, min_eq_right hle⟩
  · rw [t.total_eq_tail]
    exact_mod_cast Sample.tail_pos t.col1_le (Table.exactly_nonempty hself)
  · rw [t.total_eq_tail, ← t.tail_eq_one_iff]
    exact_mod_cast Iff.rfl
  · rw [t.total_eq_tail, u.total_eq_tail, Table.tail_congr hu]
    exact_mod_cast Sample.tail_lt_tail t.col1_le (Table.exactly_nonempty hself) hlt

/-- The two tables with one success and one trial in each row. -/
theorem fisher_exact_two : Table.total exactMath ⟨1, 0, 0, 1⟩ < Table.total exactMath ⟨0, 1, 1, 0⟩ :=
  (fisher_exact ⟨0, 1, 1, 0⟩).2.2.2.2.1 ⟨1, 0, 0, 1⟩ ⟨rfl, rfl, rfl⟩ (by decide)

end GemFI.Tools
