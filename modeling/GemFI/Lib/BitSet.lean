import Mathlib.Data.Finset.Card
import Mathlib.Data.Finset.Image
import Mathlib.Algebra.Order.Ring.Nat

/-!
# Words as sets of bits

`bitSet x` is the set of the numbers of the bits that are set in a word, and `ones x` is how many there are;
operations on words are those on sets.  `setAll mask l` sets the bits that a list names: as many as the list has
entries exactly if no entry occurs twice (`ones_setAll_eq_length_iff`).
-/

namespace GemFI

variable {w : Nat}

def bitSet (x : BitVec w) : Finset Nat := (Finset.range w).filter fun i => x.getLsbD i = true

def ones (x : BitVec w) : Nat := ((List.range w).filter fun i => x.getLsbD i).length

theorem mem_bitSet {x : BitVec w} {i : Nat} : i ∈ bitSet x ↔ x.getLsbD i = true := by
  simp only [bitSet, Finset.mem_filter, Finset.mem_range, and_iff_right_iff_imp]
  exact BitVec.lt_of_getLsbD

theorem ones_eq_card (x : BitVec w) : ones x = (bitSet x).card := by
  have hset : bitSet x = ((List.range w).filter fun i => x.getLsbD i).toFinset := by
    ext i
    simp [bitSet]
  rw [hset, List.toFinset_card_of_nodup (List.nodup_range.filter _), ones]

theorem bitSet_zero : bitSet 0#w = ∅ := by
  ext i
  simp [mem_bitSet]

theorem bitSet_or (x y : BitVec w) : bitSet (x ||| y) = bitSet x ∪ bitSet y := by
  ext i
  simp [mem_bitSet]

theorem bitSet_and (x y : BitVec w) : bitSet (x &&& y) = bitSet x ∩ bitSet y := by
  ext i
  simp [mem_bitSet]

theorem bitSet_shiftOne {b : Nat} (hb : b < w) : bitSet (1#w <<< b) = {b} := by
  ext i
  rw [mem_bitSet, Finset.mem_singleton, ← BitVec.twoPow_eq, BitVec.getLsbD_twoPow]
  simp only [Bool.and_eq_true, decide_eq_true_eq]
  omega

theorem bitSet_injective {x y : BitVec w} (h : bitSet x = bitSet y) : x = y := by
  refine BitVec.eq_of_getLsbD_eq fun i _ => Bool.eq_iff_iff.2 ?_
  rw [← mem_bitSet, h, mem_bitSet]

theorem ones_le_of_subset {x y : BitVec w} (h : bitSet x ⊆ bitSet y) : ones x ≤ ones y := by
  rw [ones_eq_card, ones_eq_card]
  exact Finset.card_le_card h

theorem ones_eq_zero_iff (x : BitVec w) : ones x = 0 ↔ x = 0#w := by
  rw [ones_eq_card, Finset.card_eq_zero, ← bitSet_zero]
  exact ⟨bitSet_injective, fun h => by rw [h]⟩

theorem toNat_lt_of_bitSet_subset {x : BitVec w} {n : Nat} (h : bitSet x ⊆ Finset.range n) : x.toNat < 2 ^ n := by
  refine Nat.lt_pow_two_of_testBit _ fun i hi => ?_
  rw [BitVec.testBit_toNat]
  by_contra hset
  have hmem := h (mem_bitSet.2 (by simpa using hset))
  rw [Finset.mem_range] at hmem
  omega

/-! ### Setting bits -/

def setAll (mask : BitVec w) (l : List Nat) : BitVec w := l.foldl (fun mask b => mask ||| (1#w <<< b)) mask

theorem bitSet_setAll (mask : BitVec w) {l : List Nat} (hl : ∀ b ∈ l, b < w) :
    bitSet (setAll mask l) = bitSet mask ∪ l.toFinset := by
  induction l generalizing mask with
  | nil => simp [setAll]
  | cons b l ih =>
    obtain ⟨hb, hl⟩ := List.forall_mem_cons.1 hl
    have hstep : setAll mask (b :: l) = setAll (mask ||| (1#w <<< b)) l := rfl
    rw [hstep, ih _ hl, bitSet_or, bitSet_shiftOne hb, List.toFinset_cons, Finset.union_assoc, Finset.insert_eq]

theorem ones_setAll {l : List Nat} (hl : ∀ b ∈ l, b < w) : ones (setAll 0#w l) = l.toFinset.card := by
  rw [ones_eq_card, bitSet_setAll _ hl, bitSet_zero, Finset.empty_union]

theorem ones_setAll_eq_length_iff {l : List Nat} (hl : ∀ b ∈ l, b < w) :
    ones (setAll 0#w l) = l.length ↔ l.Nodup := by
  rw [ones_setAll hl]
  constructor
  · intro hcard
    rw [← Multiset.coe_nodup]
    exact Multiset.toFinset_card_eq_card_iff_nodup.1 hcard
  · exact List.toFinset_card_of_nodup

end GemFI
