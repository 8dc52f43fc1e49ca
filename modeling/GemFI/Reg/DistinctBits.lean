import GemFI.Mem.DrawnBits
import GemFI.Reg.CHAOSReg

/-!
# Masks of different bits

`generateRandomMask64` rejects a drawn bit that is set already.  Its loop has no bound; `sampleBits` follows it for
some rounds.  It is left once as many different bits have been drawn as are asked for (`sampleBits_isSome_iff`), and
then the mask has exactly these bits (`random_mask64_bits`).
-/

namespace GemFI.Reg

open Mem (Rng)

namespace CHAOSReg

/-- The loop of `generateRandomMask64`, if it is left after the given number of rounds. -/
def sampleBits (len : Nat) : Nat → Nat → Rng → BitVec 64 → Option (BitVec 64 × Rng)
  | _, 0, rng, mask => some (mask, rng)
  | 0, _ + 1, _, _ => none
  | rounds + 1, n + 1, rng, mask =>
    let bit := 1#64 <<< (rng.below len).1
    if mask &&& bit = 0#64 then sampleBits len rounds n (rng.below len).2 (mask ||| bit)
    else sampleBits len rounds (n + 1) (rng.below len).2 mask

/-- What `generateRandomMask64` returns, if it does so after the given number of rounds. -/
def returned (rounds : Nat) (rng : Rng) (bits_to_change : Int) (len : Nat) : Option (BitVec 64 × Rng) :=
  if len = 0 ∨ bits_to_change ≤ 0 then some (0#64, rng)
  else sampleBits len rounds (min bits_to_change.toNat len) rng 0#64

private theorem and_shiftOne_eq_zero_iff (mask : BitVec 64) {b : Nat} (hb : b < 64) :
    mask &&& (1#64 <<< b) = 0#64 ↔ b ∉ bitSet mask := by
  rw [← ones_eq_zero_iff, ones_eq_card, Finset.card_eq_zero, bitSet_and, bitSet_shiftOne hb,
    ← Finset.disjoint_iff_inter_eq_empty, Finset.disjoint_singleton_right]

private theorem bitSet_or_shiftOne (mask : BitVec 64) {b : Nat} (hb : b < 64) :
    bitSet (mask ||| (1#64 <<< b)) = insert b (bitSet mask) := by
  rw [bitSet_or, bitSet_shiftOne hb, Finset.union_comm, Finset.insert_eq]

theorem placeBits_eq_of_sampleBits {len rounds n : Nat} {rng : Rng} {mask : BitVec 64} {r : BitVec 64 × Rng}
    (h : sampleBits len rounds n rng mask = some r) {rounds' : Nat} (hle : rounds ≤ rounds') :
    placeBits len rounds' n rng mask = r := by
  induction rounds' generalizing rounds n rng mask with
  | zero =>
    obtain rfl : rounds = 0 := by omega
    cases n with
    | zero => exact Option.some.inj h
    | succ n => cases h
  | succ rounds' ih =>
    cases n with
    | zero =>
      cases rounds with
      | zero => exact Option.some.inj h
      | succ rounds => exact Option.some.inj h
    | succ n =>
      cases rounds with
      | zero => cases h
      | succ rounds =>
        rw [sampleBits] at h
        rw [placeBits]
        split
        · rename_i hnew
          rw [if_pos hnew] at h
          exact ih h (by omega)
        · rename_i hold
          rw [if_neg hold] at h
          exact ih h (by omega)

theorem sampleBits_spec {len : Nat} (hpos : 0 < len) (hle : len ≤ 64) {rounds n : Nat} {rng : Rng} {mask : BitVec 64}
    {r : BitVec 64 × Rng} (hmask : bitSet mask ⊆ Finset.range len) (h : sampleBits len rounds n rng mask = some r) :
    bitSet r.1 ⊆ Finset.range len ∧ (bitSet r.1).card = (bitSet mask).card + n := by
  induction rounds generalizing n rng mask with
  | zero =>
    cases n with
    | zero =>
      obtain rfl := Option.some.inj h
      exact ⟨hmask, rfl⟩
    | succ n => cases h
  | succ rounds ih =>
    cases n with
    | zero =>
      obtain rfl := Option.some.inj h
      exact ⟨hmask, rfl⟩
    | succ n =>
      have hb : (rng.below len).1 < len := Nat.mod_lt _ hpos
      rw [sampleBits] at h
      split at h
      · rename_i hnew
        rw [and_shiftOne_eq_zero_iff mask (by omega)] at hnew
        have hset := bitSet_or_shiftOne mask (show (rng.below len).1 < 64 by omega)
        have hsub : bitSet (mask ||| (1#64 <<< (rng.below len).1)) ⊆ Finset.range len := by
          rw [hset]
          exact Finset.insert_subset (Finset.mem_range.2 hb) hmask
        obtain ⟨hrange, hcard⟩ := ih hsub h
        refine ⟨hrange, ?_⟩
        rw [hcard, hset, Finset.card_insert_of_notMem hnew]
        omega
      · exact ih hmask h

theorem sampleBits_isSome_iff {len : Nat} (hpos : 0 < len) (hle : len ≤ 64) (rounds n : Nat) (rng : Rng)
    (mask : BitVec 64) :
    (sampleBits len rounds n rng mask).isSome ↔ n ≤ ((rng.samples len rounds).toFinset \ bitSet mask).card := by
  induction rounds generalizing n rng mask with
  | zero => cases n <;> simp [sampleBits, Rng.samples]
  | succ rounds ih =>
    cases n with
    | zero => simp [sampleBits]
    | succ n =>
      have hb : (rng.below len).1 < 64 := Nat.lt_of_lt_of_le (Nat.mod_lt _ hpos) hle
      rw [sampleBits, Rng.samples, List.toFinset_cons]
      split
      · rename_i hnew
        rw [and_shiftOne_eq_zero_iff mask hb] at hnew
        rw [ih, bitSet_or_shiftOne mask hb, Finset.insert_sdiff_of_notMem _ hnew]
        -- the new bit counts once, whether or not it is drawn again
        have hcard : (insert (rng.below len).1 (((rng.below len).2.samples len rounds).toFinset \ bitSet mask)).card =
            (((rng.below len).2.samples len rounds).toFinset \ insert (rng.below len).1 (bitSet mask)).card + 1 := by
          rw [Finset.sdiff_insert, ← Finset.erase_insert_eq_erase, Finset.card_erase_add_one (Finset.mem_insert_self _ _)]
        rw [hcard]
        omega
      · rename_i hold
        rw [and_shiftOne_eq_zero_iff mask hb, not_not] at hold
        rw [ih, Finset.insert_sdiff_of_mem _ hold]

/-- `generateRandomMask64` returns if enough different bits are drawn. -/
theorem returned_isSome_iff {len : Nat} (hpos : 0 < len) (hle : len ≤ 64) (rounds : Nat) (rng : Rng)
    (bits_to_change : Int) :
    (returned rounds rng bits_to_change len).isSome ↔
      min bits_to_change.toNat len ≤ (rng.samples len rounds).toFinset.card := by
  unfold returned
  split
  · rename_i hnone
    have hzero : bits_to_change.toNat = 0 := by omega
    simp [hzero]
  · rw [sampleBits_isSome_iff hpos hle, bitSet_zero, Finset.sdiff_empty]

theorem returned_rejecting : (returned 4 ⟨fun k => [1, 1, 3, 0].getD k 0, 0⟩ 3 4).isSome :=
  (returned_isSome_iff (by decide) (by decide) 4 _ 3).2 (by decide)

/-- When it returns, the mask lies in the first `len` bits and has the number of bits that is asked for, at most all of
them. -/
theorem random_mask64_bits (bits_to_change : Int) {len : Nat} (hlen : 1 ≤ len ∧ len ≤ 64) (rng : Rng) {rounds : Nat}
    {r : BitVec 64 × Rng} (h : returned rounds rng bits_to_change len = some r) :
    r.1.toNat < 2 ^ len ∧ ones r.1 = min bits_to_change.toNat len ∧
    ∀ cfg : RegConfig, rounds ≤ cfg.maskRounds → generateRandomMask64 cfg rng bits_to_change len = r := by
  obtain ⟨hpos, hle⟩ := hlen
  unfold returned at h
  by_cases hnone : len = 0 ∨ bits_to_change ≤ 0
  · rw [if_pos hnone] at h
    obtain rfl := Option.some.inj h
    have hzero : bits_to_change.toNat = 0 := by omega
    have hones : ones 0#64 = 0 := (ones_eq_zero_iff _).2 rfl
    refine ⟨Nat.two_pow_pos len, by rw [hones, hzero, Nat.zero_min], ?_⟩
    intro cfg _
    exact if_pos hnone
  · rw [if_neg hnone] at h
    obtain ⟨hrange, hcard⟩ := sampleBits_spec hpos hle (by rw [bitSet_zero]; exact Finset.empty_subset _) h
    rw [bitSet_zero, Finset.card_empty, Nat.zero_add] at hcard
    refine ⟨toNat_lt_of_bitSet_subset hrange, by rw [ones_eq_card, hcard], ?_⟩
    intro cfg hrounds
    unfold generateRandomMask64
    rw [if_neg hnone]
    exact placeBits_eq_of_sampleBits h hrounds

/-- Three bits of a width of four, with one bit drawn twice. -/
theorem random_mask64_bits_rejecting : ∃ r : BitVec 64 × Rng,
    returned 4 ⟨fun k => [1, 1, 3, 0].getD k 0, 0⟩ 3 4 = some r ∧ r.1.toNat < 2 ^ 4 ∧ ones r.1 = 3 := by
  have hlen : 1 ≤ 4 ∧ 4 ≤ 64 := by decide
  obtain ⟨r, hr⟩ : ∃ r, returned 4 ⟨fun k => [1, 1, 3, 0].getD k 0, 0⟩ 3 4 = some r := ⟨_, rfl⟩
  have h := random_mask64_bits 3 hlen _ hr
  exact ⟨r, hr, h.1, h.2.1⟩

end CHAOSReg

end GemFI.Reg
