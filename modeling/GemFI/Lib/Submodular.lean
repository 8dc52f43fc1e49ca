import Mathlib.Algebra.BigOperators.Field
import Mathlib.Algebra.Order.BigOperators.Ring.Finset
import Mathlib.Algebra.Order.Field.Basic
import Mathlib.Tactic.Ring

/-!
# Greedy choice for a submodular function

A function of finite sets is submodular if it grows with the set and an element adds less to a larger set.  Picks that
always add the most of the pool come, after `k` of them, within the factor `1 - (1 - 1/k)^k` of the value of every set
of at most `k` elements of the pool (`Greedy.approx`).  `coverage`, the weighted sum of the chances that at least one
element of the set hits, is submodular (`coverage_submodular`).
-/

namespace GemFI.SetFunction

variable {α K : Type} [DecidableEq α] [Field K]

def gain (f : Finset α → K) (s : Finset α) (a : α) : K := f (insert a s) - f s

theorem gain_of_mem (f : Finset α → K) {s : Finset α} {a : α} (h : a ∈ s) : gain f s a = 0 := by
  rw [gain, Finset.insert_eq_of_mem h, sub_self]

theorem insert_eq_add_gain (f : Finset α → K) (s : Finset α) (a : α) : f (insert a s) = f s + gain f s a := by
  rw [gain, add_sub_cancel]

/-! ### Coverage -/

variable {ι : Type} [Fintype ι]

def missed (A : α → K) (s : Finset α) : K := ∏ a ∈ s, (1 - A a)

def coverage (w : ι → K) (A : ι → α → K) (s : Finset α) : K := ∑ u, w u * (1 - missed (A u) s)

theorem missed_insert (A : α → K) {s : Finset α} {a : α} (h : a ∉ s) :
    missed A (insert a s) = missed A s * (1 - A a) := by
  rw [missed, Finset.prod_insert h, mul_comm, missed]

omit [DecidableEq α] in
theorem coverage_empty (w : ι → K) (A : ι → α → K) : coverage w A ∅ = 0 := by
  simp [coverage, missed]

theorem gain_coverage (w : ι → K) (A : ι → α → K) {s : Finset α} {a : α} (h : a ∉ s) :
    gain (coverage w A) s a = ∑ u, w u * missed (A u) s * A u a := by
  rw [gain, coverage, coverage, ← Finset.sum_sub_distrib]
  refine Finset.sum_congr rfl fun u _ => ?_
  rw [missed_insert (A u) h]
  ring

/-! ### Submodular functions -/

variable [LinearOrder K]

structure Submodular (f : Finset α → K) : Prop where
  gain_nonneg : ∀ s a, 0 ≤ gain f s a
  gain_anti : ∀ {s t}, s ⊆ t → ∀ a, gain f t a ≤ gain f s a

def Greedy (f : Finset α → K) (pool : Finset α) : Finset α → List α → Prop
  | _, [] => True
  | s, a :: picks => (∀ b ∈ pool, gain f s b ≤ gain f s a) ∧ Greedy f pool (insert a s) picks

theorem Greedy.snoc {f : Finset α → K} {pool s : Finset α} {picks : List α} {a : α} (h : Greedy f pool s picks)
    (ha : ∀ b ∈ pool, gain f (s ∪ picks.toFinset) b ≤ gain f (s ∪ picks.toFinset) a) :
    Greedy f pool s (picks ++ [a]) := by
  induction picks generalizing s with
  | nil =>
    rw [List.toFinset_nil, Finset.union_empty] at ha
    exact ⟨ha, trivial⟩
  | cons b picks ih =>
    refine ⟨h.1, ih h.2 ?_⟩
    have hset : s ∪ (b :: picks).toFinset = insert b s ∪ picks.toFinset := by
      rw [List.toFinset_cons, Finset.union_insert, Finset.insert_union]
    rwa [hset] at ha

variable [IsStrictOrderedRing K]

namespace Submodular

variable {f : Finset α → K} (hf : Submodular f)
include hf

theorem le_union (s t : Finset α) : f s ≤ f (s ∪ t) := by
  induction t using Finset.induction_on with
  | empty => rw [Finset.union_empty]
  | insert a t _ ih =>
    rw [Finset.union_insert, insert_eq_add_gain f]
    have hgain := hf.gain_nonneg (s ∪ t) a
    exact ih.trans (le_add_of_nonneg_right hgain)

theorem mono {s t : Finset α} (h : s ⊆ t) : f s ≤ f t := by
  have hunion := hf.le_union s t
  rwa [Finset.union_eq_right.2 h] at hunion

theorem union_le (s t : Finset α) : f (s ∪ t) ≤ f s + ∑ a ∈ t, gain f s a := by
  induction t using Finset.induction_on with
  | empty => rw [Finset.union_empty, Finset.sum_empty, add_zero]
  | insert a t ha ih =>
    rw [Finset.union_insert, insert_eq_add_gain f, Finset.sum_insert ha]
    have hsub : s ⊆ s ∪ t := Finset.subset_union_left
    have hgain := hf.gain_anti hsub a
    calc f (s ∪ t) + gain f (s ∪ t) a ≤ (f s + ∑ a ∈ t, gain f s a) + gain f s a := add_le_add ih hgain
      _ = f s + (gain f s a + ∑ a ∈ t, gain f s a) := by rw [add_assoc, add_comm (gain f s a)]

theorem le_add_mul {s t : Finset α} {g : K} (hgain : ∀ a ∈ t, gain f s a ≤ g) (hg : 0 ≤ g) {k : Nat}
    (hcard : t.card ≤ k) : f t ≤ f s + k * g := by
  have hsum : ∑ a ∈ t, gain f s a ≤ t.card * g := by
    have h := Finset.sum_le_card_nsmul t (gain f s) g hgain
    rwa [nsmul_eq_mul] at h
  have hmul : (t.card : K) * g ≤ k * g := mul_le_mul_of_nonneg_right (Nat.cast_le.2 hcard) hg
  calc f t ≤ f (s ∪ t) := hf.mono Finset.subset_union_right
    _ ≤ f s + ∑ a ∈ t, gain f s a := hf.union_le s t
    _ ≤ f s + k * g := add_le_add le_rfl (hsum.trans hmul)

end Submodular

/-! ### The bound -/

section Bound

variable {f : Finset α → K} (hf : Submodular f) {pool t : Finset α} (ht : t ⊆ pool) {k : Nat} (hk : 0 < k)
  (hcard : t.card ≤ k)
include hf ht hk hcard

theorem gap_insert_le {s : Finset α} {a : α} (ha : ∀ b ∈ pool, gain f s b ≤ gain f s a) :
    f t - f (insert a s) ≤ (1 - 1 / k) * (f t - f s) := by
  have hpos : (0 : K) < k := Nat.cast_pos.2 hk
  have hle := hf.le_add_mul (fun b hb => ha b (ht hb)) (hf.gain_nonneg s a) hcard
  have hgain : (f t - f s) / k ≤ gain f s a := by
    rw [div_le_iff₀ hpos, sub_le_iff_le_add', mul_comm]
    exact hle
  calc f t - f (insert a s) = f t - f s - gain f s a := by rw [insert_eq_add_gain f]; ring
    _ ≤ f t - f s - (f t - f s) / k := sub_le_sub_left hgain _
    _ = (1 - 1 / k) * (f t - f s) := by ring

theorem Greedy.gap_le {s : Finset α} {picks : List α} (h : Greedy f pool s picks) :
    f t - f (s ∪ picks.toFinset) ≤ (1 - 1 / k) ^ picks.length * (f t - f s) := by
  have hone : (1 : K) / k ≤ 1 := by
    rw [div_le_one (Nat.cast_pos.2 hk)]
    exact_mod_cast hk
  induction picks generalizing s with
  | nil => simp
  | cons a picks ih =>
    have hset : s ∪ (a :: picks).toFinset = insert a s ∪ picks.toFinset := by
      rw [List.toFinset_cons, Finset.union_insert, Finset.insert_union]
    have hpow : (0 : K) ≤ (1 - 1 / k) ^ picks.length := pow_nonneg (sub_nonneg.2 hone) _
    calc f t - f (s ∪ (a :: picks).toFinset)
        ≤ (1 - 1 / k) ^ picks.length * (f t - f (insert a s)) := by rw [hset]; exact ih h.2
      _ ≤ (1 - 1 / k) ^ picks.length * ((1 - 1 / k) * (f t - f s)) :=
          mul_le_mul_of_nonneg_left (gap_insert_le hf ht hk hcard h.1) hpow
      _ = (1 - 1 / k) ^ (a :: picks).length * (f t - f s) := by rw [List.length_cons, pow_succ]; ring

theorem Greedy.approx {picks : List α} (h0 : f ∅ = 0) (h : Greedy f pool ∅ picks)
    (hdone : picks.length = k ∨ ∀ b ∈ pool, gain f picks.toFinset b ≤ 0) :
    (1 - (1 - 1 / k) ^ k) * f t ≤ f picks.toFinset := by
  have hone : (1 : K) / k ≤ 1 := by
    rw [div_le_one (Nat.cast_pos.2 hk)]
    exact_mod_cast hk
  rcases hdone with hlength | hstop
  · have hgap := h.gap_le hf ht hk hcard
    rw [Finset.empty_union, h0, sub_zero, hlength] at hgap
    rw [sub_mul, one_mul]
    exact sub_le_comm.1 hgap
  · have hnonneg : 0 ≤ f t := h0 ▸ hf.mono (Finset.empty_subset t)
    have hpow : (0 : K) ≤ (1 - 1 / k) ^ k := pow_nonneg (sub_nonneg.2 hone) _
    have hle := hf.le_add_mul (fun b hb => hstop b (ht hb)) le_rfl hcard
    rw [mul_zero, add_zero] at hle
    have hmul := mul_nonneg hpow hnonneg
    rw [sub_mul, one_mul]
    exact (sub_le_self _ hmul).trans hle

end Bound

/-! ### Coverage is submodular -/

omit [DecidableEq α] in
theorem missed_nonneg {A : α → K} (hA : ∀ a, A a ≤ 1) (s : Finset α) : 0 ≤ missed A s :=
  Finset.prod_nonneg fun a _ => sub_nonneg.2 (hA a)

theorem missed_anti {A : α → K} (hA : ∀ a, 0 ≤ A a ∧ A a ≤ 1) {s t : Finset α} (h : s ⊆ t) : missed A t ≤ missed A s := by
  have hrest : missed A (t \ s) ≤ 1 :=
    Finset.prod_le_one (fun a _ => sub_nonneg.2 (hA a).2) fun a _ => sub_le_self 1 (hA a).1
  calc missed A t = missed A (t \ s) * missed A s := (Finset.prod_sdiff h).symm
    _ ≤ 1 * missed A s := mul_le_mul_of_nonneg_right hrest (missed_nonneg (fun a => (hA a).2) s)
    _ = missed A s := one_mul _

theorem coverage_submodular {w : ι → K} {A : ι → α → K} (hw : ∀ u, 0 ≤ w u) (hA : ∀ u a, 0 ≤ A u a ∧ A u a ≤ 1) :
    Submodular (coverage w A) := by
  have hnonneg : ∀ s a, 0 ≤ gain (coverage w A) s a := by
    intro s a
    by_cases ha : a ∈ s
    · rw [gain_of_mem _ ha]
    · rw [gain_coverage w A ha]
      refine Finset.sum_nonneg fun u _ => mul_nonneg (mul_nonneg (hw u) ?_) (hA u a).1
      exact missed_nonneg (fun a => (hA u a).2) s
  refine ⟨hnonneg, fun {s t} hst a => ?_⟩
  by_cases ha : a ∈ t
  · rw [gain_of_mem _ ha]
    exact hnonneg s a
  · rw [gain_coverage w A ha, gain_coverage w A fun hs => ha (hst hs)]
    refine Finset.sum_le_sum fun u _ => ?_
    exact mul_le_mul_of_nonneg_right (mul_le_mul_of_nonneg_left (missed_anti (hA u) hst) (hw u)) (hA u a).1

end GemFI.SetFunction
