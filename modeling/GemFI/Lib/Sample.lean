import Mathlib.Algebra.BigOperators.Field
import Mathlib.Algebra.Order.Field.Basic
import Mathlib.Algebra.Order.Ring.Rat
import Mathlib.Data.Finset.Powerset
import Mathlib.Data.Nat.Choose.Basic
import Mathlib.Order.Interval.Finset.Nat

/-!
# Drawing without replacement

From a population, some elements of which are marked, a sample of `m` elements is drawn, all samples being equally
likely.  There are `marked.card.choose x * (pop \ marked).card.choose (m - x)` samples with `x` marked elements
(`card_exactly`), so the probability of at least `a` of them is a sum of such products (`tail_eq_sum`).  It drops with
`a` while there are samples with `a` marked elements (`tail_lt_tail`), and is 1 until there are samples with fewer
than `a` of them (`tail_eq_one_iff`).
-/

namespace GemFI.Sample

open Finset

variable {α : Type} [DecidableEq α] {pop marked : Finset α} {m a x : ℕ}

def exactly (pop marked : Finset α) (m x : ℕ) : Finset (Finset α) := {S ∈ pop.powersetCard m | (S ∩ marked).card = x}

def atLeast (pop marked : Finset α) (m a : ℕ) : Finset (Finset α) := {S ∈ pop.powersetCard m | a ≤ (S ∩ marked).card}

/-- The probability of at least `a` marked elements in a sample of `m`. -/
def tail (pop marked : Finset α) (m a : ℕ) : ℚ := (atLeast pop marked m a).card / (pop.powersetCard m).card

private theorem union_parts {A B : Finset α} (hA : A ⊆ marked) (hB : B ⊆ pop \ marked) :
    (A ∪ B) ∩ marked = A ∧ (A ∪ B) \ marked = B := by
  have hdisj : Disjoint B marked := disjoint_of_subset_left hB sdiff_disjoint
  constructor
  · rw [union_inter_distrib_right, disjoint_iff_inter_eq_empty.1 hdisj, union_empty, inter_eq_left.2 hA]
  · rw [union_sdiff_distrib, sdiff_eq_empty_iff_subset.2 hA, empty_union, sdiff_eq_self_of_disjoint hdisj]

theorem card_exactly (hsub : marked ⊆ pop) (hx : x ≤ m) :
    (exactly pop marked m x).card = marked.card.choose x * (pop \ marked).card.choose (m - x) := by
  rw [← card_powersetCard, ← card_powersetCard, ← card_product]
  refine card_nbij' (fun S => (S ∩ marked, S \ marked)) (fun p => p.1 ∪ p.2) ?_ ?_ ?_ ?_
  · intro S hS
    obtain ⟨hmem, hcard⟩ := mem_filter.1 hS
    obtain ⟨hSpop, hSm⟩ := mem_powersetCard.1 hmem
    have hsplit := card_inter_add_card_sdiff S marked
    refine mem_product.2 ⟨mem_powersetCard.2 ⟨inter_subset_right, hcard⟩, mem_powersetCard.2 ⟨?_, ?_⟩⟩
    · exact sdiff_subset_sdiff hSpop (Subset.refl _)
    · dsimp only
      omega
  · rintro ⟨A, B⟩ hAB
    obtain ⟨hA, hB⟩ := mem_product.1 hAB
    obtain ⟨hAsub, hAcard⟩ := mem_powersetCard.1 hA
    obtain ⟨hBsub, hBcard⟩ := mem_powersetCard.1 hB
    have hdisj : Disjoint A B := disjoint_of_subset_left hAsub (disjoint_of_subset_right hBsub disjoint_sdiff)
    dsimp only at hAcard hBcard
    refine mem_filter.2 ⟨mem_powersetCard.2 ⟨?_, ?_⟩, ?_⟩
    · exact union_subset (hAsub.trans hsub) (hBsub.trans sdiff_subset)
    · rw [card_union_of_disjoint hdisj]
      omega
    · rw [(union_parts hAsub hBsub).1, hAcard]
  · intro S _
    exact (union_comm _ _).trans (sdiff_union_inter S marked)
  · rintro ⟨A, B⟩ hAB
    obtain ⟨hA, hB⟩ := mem_product.1 hAB
    obtain ⟨hleft, hright⟩ := union_parts (mem_powersetCard.1 hA).1 (mem_powersetCard.1 hB).1
    exact Prod.ext hleft hright

theorem card_inter_bounds (hsub : marked ⊆ pop) {S : Finset α} (hS : S ∈ pop.powersetCard m) :
    marked.card + m - pop.card ≤ (S ∩ marked).card ∧ (S ∩ marked).card ≤ min marked.card m := by
  obtain ⟨hSpop, hSm⟩ := mem_powersetCard.1 hS
  have hsplit := card_inter_add_card_sdiff S marked
  have hothers : (S \ marked).card ≤ (pop \ marked).card := card_le_card (sdiff_subset_sdiff hSpop (Subset.refl _))
  have hpop := card_sdiff_add_card_eq_card hsub
  have hmarked : (S ∩ marked).card ≤ marked.card := card_le_card inter_subset_right
  omega

theorem card_atLeast (hsub : marked ⊆ pop) :
    (atLeast pop marked m a).card = ∑ x ∈ Icc a (min marked.card m), (exactly pop marked m x).card := by
  have hmaps : ∀ S ∈ atLeast pop marked m a, (S ∩ marked).card ∈ Icc a (min marked.card m) := by
    intro S hS
    obtain ⟨hmem, hle⟩ := mem_filter.1 hS
    exact mem_Icc.2 ⟨hle, (card_inter_bounds hsub hmem).2⟩
  rw [card_eq_sum_card_fiberwise hmaps]
  refine sum_congr rfl fun x hx => congrArg card ?_
  have hle := (mem_Icc.1 hx).1
  ext S
  simp only [atLeast, exactly, mem_filter]
  constructor
  · exact fun h => ⟨h.1.1, h.2⟩
  · exact fun h => ⟨⟨h.1, h.2 ▸ hle⟩, h.2⟩

theorem tail_eq_sum (hsub : marked ⊆ pop) :
    tail pop marked m a = ∑ x ∈ Icc a (min marked.card m),
      (marked.card.choose x * (pop \ marked).card.choose (m - x) : ℚ) / pop.card.choose m := by
  rw [tail, card_atLeast hsub, card_powersetCard, Nat.cast_sum, sum_div]
  refine sum_congr rfl fun x hx => ?_
  have hle := (mem_Icc.1 hx).2
  rw [card_exactly hsub (by omega), Nat.cast_mul]

/-! ### Bounds -/

theorem exactly_nonempty (hsub : marked ⊆ pop) (hlow : marked.card + m ≤ pop.card + x) (hmarked : x ≤ marked.card)
    (hx : x ≤ m) :
    (exactly pop marked m x).Nonempty := by
  have hpop := card_sdiff_add_card_eq_card hsub
  rw [← card_pos, card_exactly hsub hx]
  exact Nat.mul_pos (Nat.choose_pos hmarked) (Nat.choose_pos (by omega))

theorem atLeast_subset : atLeast pop marked m a ⊆ pop.powersetCard m := filter_subset _ _

section

variable (hm : m ≤ pop.card)

include hm

omit [DecidableEq α] in
theorem samples_pos : (0 : ℚ) < (pop.powersetCard m).card := by
  rw [card_powersetCard, Nat.cast_pos]
  exact Nat.choose_pos hm

theorem tail_le_one : tail pop marked m a ≤ 1 := by
  rw [tail, div_le_one (samples_pos hm), Nat.cast_le]
  exact card_le_card atLeast_subset

theorem tail_eq_one_iff : tail pop marked m a = 1 ↔ ∀ S ∈ pop.powersetCard m, a ≤ (S ∩ marked).card := by
  rw [tail, div_eq_one_iff_eq (samples_pos hm).ne', Nat.cast_inj, ← filter_eq_self]
  exact ⟨fun h => eq_of_subset_of_card_le atLeast_subset h.ge, fun h => congrArg card h⟩

theorem tail_pos (h : (exactly pop marked m a).Nonempty) : 0 < tail pop marked m a := by
  obtain ⟨S, hS⟩ := h
  obtain ⟨hmem, hcard⟩ := mem_filter.1 hS
  refine div_pos (Nat.cast_pos.2 (card_pos.2 ⟨S, mem_filter.2 ⟨hmem, hcard.ge⟩⟩)) (samples_pos hm)

theorem tail_lt_tail {a' : ℕ} (h : (exactly pop marked m a).Nonempty) (hlt : a < a') :
    tail pop marked m a' < tail pop marked m a := by
  obtain ⟨S, hS⟩ := h
  obtain ⟨hmem, hcard⟩ := mem_filter.1 hS
  have hssub : atLeast pop marked m a' ⊂ atLeast pop marked m a := by
    refine (ssubset_iff_of_subset fun T hT => ?_).2 ⟨S, mem_filter.2 ⟨hmem, hcard.ge⟩, fun hS' => ?_⟩
    · obtain ⟨hT, hle⟩ := mem_filter.1 hT
      exact mem_filter.2 ⟨hT, by omega⟩
    · have hle := (mem_filter.1 hS').2
      omega
  rw [tail, tail]
  exact (div_lt_div_iff_of_pos_right (samples_pos hm)).2 (Nat.cast_lt.2 (card_lt_card hssub))

end

end GemFI.Sample
