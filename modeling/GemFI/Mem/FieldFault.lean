import GemFI.Lib.BitSet
import GemFI.Lib.Bytes
import GemFI.Mem.CHAOSCache

/-!
# Faults in a field of an instruction word

For a target field `injectFault` moves the bits of a byte mask into the field of the instruction word that contains
the byte.  The fields have five or six bits, so the upper bits of the mask are lost: as many bits as the mask has are
flipped exactly if the mask fits into the field (`field_fault_exact_iff`).  Nothing is changed outside of the field.
-/

namespace GemFI.Mem

open Bytes

def Cache.instWord {g : Geometry} (c : Cache g) (blk : Pos g) (byteOffset : Nat) : BitVec 32 :=
  littleEndian 32 (fun b => c.data blk (byteOffset / 4 * 4 + b)) 4

namespace CHAOSCache

variable {cfg : CacheConfig} (field : TargetField)

/-! ### The mask in the word -/

theorem fieldBits_le : (fieldBits field).1 + (fieldBits field).2 ≤ 32 ∧ (fieldBits field).2 ≤ 8 := by
  cases field <;> decide

theorem getLsbD_inword (mask : BitVec 8) (i : Nat) :
    (inword field mask).getLsbD i =
      (decide ((fieldBits field).1 ≤ i ∧ i < (fieldBits field).1 + (fieldBits field).2) &&
        mask.getLsbD (i - (fieldBits field).1)) := by
  obtain ⟨hle, -⟩ := fieldBits_le field
  have hloop : ∀ n, (fieldBits field).1 + n ≤ 32 →
      ((List.range n).foldl (fun word k => if mask.getLsbD k then word ||| (1#64 <<< ((fieldBits field).1 + k))
        else word) 0#64).getLsbD i =
      (decide ((fieldBits field).1 ≤ i ∧ i < (fieldBits field).1 + n) && mask.getLsbD (i - (fieldBits field).1)) := by
    intro n
    induction n with
    | zero =>
      intro _
      have hempty : ¬((fieldBits field).1 ≤ i ∧ i < (fieldBits field).1 + 0) := by omega
      rw [decide_eq_false hempty, Bool.false_and, List.range_zero, List.foldl_nil, BitVec.getLsbD_zero]
    | succ n ih =>
      intro hn
      rw [List.range_succ, List.foldl_append, List.foldl_cons, List.foldl_nil]
      by_cases hi : i = (fieldBits field).1 + n
      · -- the bit of this round
        have hnew : (fieldBits field).1 ≤ i ∧ i < (fieldBits field).1 + (n + 1) := by omega
        have hold : ¬((fieldBits field).1 ≤ i ∧ i < (fieldBits field).1 + n) := by omega
        have hk : i - (fieldBits field).1 = n := by omega
        have hprev := ih (by omega)
        rw [decide_eq_false hold, Bool.false_and] at hprev
        rw [decide_eq_true hnew, Bool.true_and, hk]
        cases hbit : mask.getLsbD n with
        | false => rw [if_neg (by simp), hprev]
        | true =>
          rw [if_pos rfl, BitVec.getLsbD_or, hprev, Bool.false_or, ← BitVec.twoPow_eq, BitVec.getLsbD_twoPow, hi]
          simp only [decide_true, Bool.and_true, decide_eq_true_eq]
          omega
      · have hsame : ((fieldBits field).1 ≤ i ∧ i < (fieldBits field).1 + (n + 1)) ↔
            (fieldBits field).1 ≤ i ∧ i < (fieldBits field).1 + n := by omega
        rw [decide_eq_decide.2 hsame, ← ih (by omega)]
        split
        · rw [BitVec.getLsbD_or, ← BitVec.twoPow_eq, BitVec.getLsbD_twoPow, decide_eq_false (Ne.symm hi), Bool.and_false,
            Bool.or_false]
        · rfl
  exact hloop _ hle

theorem bitSet_inword (mask : BitVec 8) :
    bitSet ((inword field mask).setWidth 32) =
      ((bitSet mask).filter (· < (fieldBits field).2)).image ((fieldBits field).1 + ·) := by
  obtain ⟨hle, -⟩ := fieldBits_le field
  ext i
  rw [mem_bitSet, BitVec.getLsbD_setWidth, getLsbD_inword]
  simp only [Bool.and_eq_true, decide_eq_true_eq, Finset.mem_image, Finset.mem_filter, mem_bitSet]
  constructor
  · rintro ⟨-, ⟨hge, hlt⟩, hbit⟩
    exact ⟨i - (fieldBits field).1, ⟨hbit, by omega⟩, by omega⟩
  · rintro ⟨k, ⟨hbit, hk⟩, rfl⟩
    rw [Nat.add_sub_cancel_left]
    exact ⟨by omega, ⟨by omega, by omega⟩, hbit⟩

theorem ones_inword (mask : BitVec 8) :
    ones ((inword field mask).setWidth 32) = ((bitSet mask).filter (· < (fieldBits field).2)).card := by
  rw [ones_eq_card, bitSet_inword, Finset.card_image_of_injective _ (add_right_injective _)]

theorem ones_inword_eq_iff (mask : BitVec 8) :
    ones ((inword field mask).setWidth 32) = popcount mask ↔
      ∀ k, mask.getLsbD k = true → k < (fieldBits field).2 := by
  have hpop : popcount mask = (bitSet mask).card := ones_eq_card mask
  rw [ones_inword, hpop, Finset.card_filter_eq_iff]
  simp only [mem_bitSet]

/-! ### The block -/

theorem corruptField_data (s : CHAOSCache cfg) (blk : Pos cfg.toGeometry) (mask : BitVec 8) (byteOffset : Nat)
    (p : Pos cfg.toGeometry) (i : Nat) :
    (corruptField s blk mask byteOffset).cache.data p i =
      if p = blk ∧ byteOffset / 4 * 4 ≤ i ∧ i < byteOffset / 4 * 4 + 4 then
        s.cache.data p i ^^^ byteOf (inword cfg.target_field mask) (i - byteOffset / 4 * 4)
      else s.cache.data p i := by
  obtain ⟨base, hbase⟩ : ∃ base, base = byteOffset / 4 * 4 := ⟨_, rfl⟩
  have hloop : ∀ n, ((List.range n).foldl (fun (cache : Cache cfg.toGeometry) b =>
        cache.store blk (base + b) (cache.data blk (base + b) ^^^
          (inword cfg.target_field mask >>> (8 * b)).setWidth 8)) s.cache).data p i =
      if p = blk ∧ base ≤ i ∧ i < base + n then s.cache.data p i ^^^ byteOf (inword cfg.target_field mask) (i - base)
      else s.cache.data p i := by
    intro n
    induction n with
    | zero => rw [if_neg (by omega)]; rfl
    | succ n ih =>
      rw [List.range_succ, List.foldl_append, List.foldl_cons, List.foldl_nil, Cache.store_data]
      by_cases hhit : p = blk ∧ i = base + n
      · -- the byte has not been written in an earlier round
        obtain ⟨rfl, rfl⟩ := hhit
        rw [if_pos ⟨rfl, rfl⟩, ih, if_neg (by omega), if_pos ⟨rfl, by omega, by omega⟩, Nat.add_sub_cancel_left]
        rfl
      · rw [if_neg hhit, ih]
        have hsame : (p = blk ∧ base ≤ i ∧ i < base + (n + 1)) ↔ p = blk ∧ base ≤ i ∧ i < base + n := by
          constructor
          · rintro ⟨hp, hge, hlt⟩
            refine ⟨hp, hge, ?_⟩
            by_contra hlast
            exact hhit ⟨hp, by omega⟩
          · rintro ⟨hp, hge, hlt⟩
            exact ⟨hp, hge, by omega⟩
        simp only [hsame]
  rw [← hbase]
  have h := hloop 4
  rw [hbase] at h ⊢
  exact h

theorem corruptField_word (s : CHAOSCache cfg) (blk : Pos cfg.toGeometry) (mask : BitVec 8) (byteOffset : Nat) :
    s.cache.instWord blk byteOffset ^^^ (corruptField s blk mask byteOffset).cache.instWord blk byteOffset =
      (inword cfg.target_field mask).setWidth 32 := by
  refine BitVec.eq_of_getLsbD_eq fun j hj => ?_
  have hbyte : j % 8 < 8 := Nat.mod_lt _ (by decide)
  have hin : j < 32 ∧ j < 8 * 4 := by omega
  rw [BitVec.getLsbD_xor, BitVec.getLsbD_setWidth, decide_eq_true hj, Bool.true_and, Cache.instWord, Cache.instWord,
    getLsbD_littleEndian, getLsbD_littleEndian, decide_eq_true hin, Bool.true_and, Bool.true_and, corruptField_data,
    if_pos ⟨rfl, by omega, by omega⟩, BitVec.getLsbD_xor, Nat.add_sub_cancel_left, getLsbD_byteOf, decide_eq_true hbyte,
    Bool.true_and, Nat.div_add_mod, ← Bool.xor_assoc, Bool.xor_self, Bool.false_xor]

theorem corruptOnce_of_counted (hfield : cfg.target_field ≠ .data) (s : CHAOSCache cfg) (blk : Pos cfg.toGeometry)
    (partner : Option (Pos cfg.toGeometry)) (ty : FaultType)
    (hcounted : (corruptOnce s blk partner ty).numFaultsInjected ≠ s.numFaultsInjected) :
    ∃ rng, corruptOnce s blk partner ty = corruptField { s with rng := rng } blk
      (drawMask cfg cfg.bits_to_change s.rng).1 (drawOffset cfg (drawMask cfg cfg.bits_to_change s.rng).2).1 := by
  unfold corruptOnce at hcounted ⊢
  dsimp only at hcounted ⊢
  split at hcounted
  · exact absurd rfl hcounted
  · rename_i hmask
    rw [if_neg hmask, if_pos hfield]
    exact ⟨_, rfl⟩

/-- A counted fault of the field path flips as many bits of the word as its mask has exactly if the mask fits into the
field.  All bits that are flipped lie in the field, and nothing else changes. -/
theorem field_fault_exact_iff (hfield : cfg.target_field ≠ .data) (s : CHAOSCache cfg) (blk : Pos cfg.toGeometry)
    (partner : Option (Pos cfg.toGeometry)) (ty : FaultType)
    (hcounted : (corruptOnce s blk partner ty).numFaultsInjected ≠ s.numFaultsInjected) :
    let mask := (drawMask cfg cfg.bits_to_change s.rng).1
    let byteOffset := (drawOffset cfg (drawMask cfg cfg.bits_to_change s.rng).2).1
    let flipped := s.cache.instWord blk byteOffset ^^^ (corruptOnce s blk partner ty).cache.instWord blk byteOffset
    (ones flipped = popcount mask ↔ ∀ k, mask.getLsbD k = true → k < (fieldBits cfg.target_field).2) ∧
    (∀ i, flipped.getLsbD i = true → (fieldBits cfg.target_field).1 ≤ i ∧
      i < (fieldBits cfg.target_field).1 + (fieldBits cfg.target_field).2) ∧
    ∀ p i, ¬(p = blk ∧ byteOffset / 4 * 4 ≤ i ∧ i < byteOffset / 4 * 4 + 4) →
      (corruptOnce s blk partner ty).cache.data p i = s.cache.data p i := by
  intro mask byteOffset flipped
  obtain ⟨rng, heq⟩ := corruptOnce_of_counted hfield s blk partner ty hcounted
  have hflipped : flipped = (inword cfg.target_field mask).setWidth 32 := by
    show s.cache.instWord blk byteOffset ^^^ (corruptOnce s blk partner ty).cache.instWord blk byteOffset = _
    rw [heq]
    exact corruptField_word { s with rng := rng } blk mask byteOffset
  refine ⟨by rw [hflipped, ones_inword_eq_iff], ?_, ?_⟩
  · intro i hi
    rw [hflipped, BitVec.getLsbD_setWidth, getLsbD_inword, Bool.and_eq_true, Bool.and_eq_true, decide_eq_true_eq,
      decide_eq_true_eq] at hi
    exact hi.2.1
  · intro p i hout
    rw [heq, corruptField_data, if_neg hout]

def oneField (field : TargetField) : CacheConfig := { oneBlock with target_field := field }

def fieldPos (field : TargetField) : Pos (oneField field).toGeometry := (⟨0, Nat.one_pos⟩, ⟨0, Nat.one_pos⟩)

/-- The cache with a line of ones in its block; all draws are `draw`. -/
def fieldLine (field : TargetField) (draw : Nat) : CHAOSCache (oneField field) :=
  run (init (oneField field) (.empty _) fun _ => draw) [.fill (fieldPos field) ⟨0, false⟩ fun _ => 0xff]

/-- Bit 2 of the field `rn`, which is bit 7 of the word. -/
theorem field_fault_exact_rn :
    let s := fieldLine .rn 2
    let t := corruptOnce s (fieldPos .rn) none .BitFlip
    ones (s.cache.instWord (fieldPos .rn) 2 ^^^ t.cache.instWord (fieldPos .rn) 2) = 1 := by
  intro s t
  have h := field_fault_exact_iff (by decide) s (fieldPos .rn) none .BitFlip (by decide)
  have hfits : ∀ k < 8, (drawMask (oneField .rn) 1 s.rng).1.getLsbD k = true → k < 5 := by decide
  have hoff : (drawOffset (oneField .rn) (drawMask (oneField .rn) 1 s.rng).2).1 = 2 := by decide
  have hone : popcount (drawMask (oneField .rn) 1 s.rng).1 = 1 := by decide
  rw [← hoff, ← hone]
  exact h.1.2 fun k hk => hfits k (BitVec.lt_of_getLsbD hk) hk

/-- Bit 5 of the mask does not fit into the field `rd`: the fault is counted, and no bit of the block is flipped. -/
theorem field_fault_lost :
    let s := fieldLine .rd 5
    popcount (drawMask (oneField .rd) 1 s.rng).1 = 1 ∧ (s.step .attack).numFaultsInjected = 1 ∧
    ∀ i < 4, (s.step .attack).cache.data (fieldPos .rd) i = s.cache.data (fieldPos .rd) i := by
  decide

end CHAOSCache

end GemFI.Mem
