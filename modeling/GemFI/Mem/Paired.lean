import GemFI.Mem.CHAOSCache

/-!
# Faults in paired sectors

In paired-sector mode a fault is applied to a byte of the chosen block and to the same byte of the partner, the block of
the other sector.  The protection model sees the byte of the chosen block only, so it may take the fault back there and
leave it in the partner.  The two sectors get the same treatment exactly if there is nothing to take back
(`paired_sectors_same_iff`).
-/

namespace GemFI.Mem

namespace CHAOSCache

variable {cfg : CacheConfig}

theorem outcome_eq_corrected_iff (protection_model : ProtectionModel) (mask : BitVec 8) :
    outcome protection_model mask = .EccCorrected ↔ protection_model ≠ .None ∧ popcount mask = 1 := by
  unfold outcome
  by_cases hnone : protection_model = .None
  · simp [hnone]
  · by_cases hone : popcount mask = 1
    · simp [hnone, hone]
    · by_cases htwo : popcount mask = 2
      · rw [if_neg hnone]
        dsimp only
        rw [if_neg hone, if_pos htwo]
        split <;> simp [hone]
      · simp [hnone, hone, htwo]

/-- A fault has survived in a byte if it holds what the fault makes of the old value. -/
def Survives (s t : CHAOSCache cfg) (ty : FaultType) (mask : BitVec 8) (p : Pos cfg.toGeometry) (off : Nat) : Prop :=
  t.cache.data p off = ty.corrupt mask (s.cache.data p off)

/-- The treatment of two blocks by a fault that leads from `s` to `t`: it survives in both or in none, where it survives
it has changed exactly the bits of its mask, and every other byte is as before. -/
structure SameTreatment (s t : CHAOSCache cfg) (blk partner : Pos cfg.toGeometry) (ty : FaultType) (mask : BitVec 8)
    (off : Nat) : Prop where
  survives_iff : Survives s t ty mask partner off ↔ Survives s t ty mask blk off
  bits : ∀ p, Survives s t ty mask p off → p = blk ∨ p = partner → ∀ j < 8, (t.cache.data p off).getLsbD j =
    if mask.getLsbD j then ty.faultBit ((s.cache.data p off).getLsbD j) else (s.cache.data p off).getLsbD j
  other : ∀ p i, ¬((p = blk ∨ p = partner) ∧ i = off) → t.cache.data p i = s.cache.data p i

theorem corruptByte_data (s : CHAOSCache cfg) {blk q : Pos cfg.toGeometry} (hne : q ≠ blk) (ty : FaultType)
    (mask : BitVec 8) (off : Nat) (p : Pos cfg.toGeometry) (i : Nat) :
    (s.corruptByte blk (some q) ty mask off).cache.data p i =
      if p = q ∧ i = off then ty.corrupt mask (s.cache.data q off)
      else if p = blk ∧ i = off then
        if outcome cfg.protection_model mask = .EccCorrected then s.cache.data blk off
        else ty.corrupt mask (s.cache.data blk off)
      else s.cache.data p i := by
  obtain ⟨fcache, -⟩ := s.countFault_frame (s.cache.regenerateBlkAddr blk, off) ty mask
  obtain ⟨ocache, -⟩ := countOutcome_frame
    (s.countFault (s.cache.regenerateBlkAddr blk, off) ty mask) (outcome cfg.protection_model mask)
  simp only [corruptByte, corruptPartner, Cache.store_data, ocache, fcache, hne, false_and, ↓reduceIte]

/-- In a resident pair the two sectors get the same treatment exactly if there is no protection, the mask has not one
bit, or the byte of the chosen block holds the faulty value already. -/
theorem paired_sectors_same_iff (s : CHAOSCache cfg) (blk q : Pos cfg.toGeometry) (hq : s.findPartner blk = some q)
    (ty : FaultType) (mask : BitVec 8) (off : Nat) :
    SameTreatment s (s.corruptByte blk (s.findPartner blk) ty mask off) blk q ty mask off ↔
      cfg.protection_model = .None ∨ popcount mask ≠ 1 ∨
        ty.corrupt mask (s.cache.data blk off) = s.cache.data blk off := by
  have hne : q ≠ blk := by
    rintro rfl
    exact findPartner_addr_ne hq rfl
  have hdata := s.corruptByte_data hne ty mask off
  have hcorrected := outcome_eq_corrected_iff cfg.protection_model mask
  rw [hq]
  obtain ⟨t, ht⟩ : ∃ t, t = s.corruptByte blk (some q) ty mask off := ⟨_, rfl⟩
  rw [← ht] at hdata ⊢
  have hpartner : Survives s t ty mask q off := by
    rw [Survives, hdata]
    simp
  have hblk : t.cache.data blk off =
      if outcome cfg.protection_model mask = .EccCorrected then s.cache.data blk off
      else ty.corrupt mask (s.cache.data blk off) := by
    rw [hdata]
    simp [hne.symm]
  constructor
  · intro hsame
    have hprimary := hsame.survives_iff.1 hpartner
    rw [Survives, hblk] at hprimary
    split at hprimary
    · exact Or.inr (Or.inr hprimary.symm)
    · rename_i hkept
      rw [hcorrected, not_and_or, not_not] at hkept
      exact hkept.imp_right Or.inl
  · intro h
    refine ⟨⟨fun _ => ?_, fun _ => hpartner⟩, ?_, ?_⟩
    · rw [Survives, hblk]
      split
      · rename_i hback
        rw [hcorrected] at hback
        rcases h with hnone | hbits | hsame
        · exact absurd hnone hback.1
        · exact absurd hback.2 hbits
        · exact hsame.symm
      · rfl
    · intro p hp _ j hj
      rw [hp, getLsbD_corrupt ty mask _ hj]
    · intro p i hpi
      rw [hdata]
      have hnq : ¬(p = q ∧ i = off) := fun h => hpi ⟨Or.inr h.1, h.2⟩
      have hnb : ¬(p = blk ∧ i = off) := fun h => hpi ⟨Or.inl h.1, h.2⟩
      simp [hnq, hnb]

end CHAOSCache

def twoSectors : CacheConfig :=
  { oneBlock with
    numSets := 2, blkSize := 64, numSets_pos := by decide, blkSize_pos := by decide
    protection_model := .SECDED, paired_sector := true, target_byte_offset := 0, fault_mask := 1 }

def sector (i : Fin 2) : Pos twoSectors.toGeometry := (i, ⟨0, by decide⟩)

def pairedLines : CHAOSCache twoSectors :=
  .run (.init twoSectors (.empty _) fun _ => 0)
    [.fill (sector ⟨0, Nat.two_pos⟩) ⟨0, false⟩ fun _ => 0, .fill (sector ⟨1, Nat.one_lt_two⟩) ⟨64, false⟩ fun _ => 0]

/-- A fault of two bits is left in both sectors. -/
theorem paired_sectors_same_two_bits :
    pairedLines.findPartner (sector 0) = some (sector 1) ∧
    CHAOSCache.SameTreatment pairedLines
      (pairedLines.corruptByte (sector 0) (pairedLines.findPartner (sector 0)) .BitFlip 3#8 0)
      (sector 0) (sector 1) .BitFlip 3#8 0 := by
  have hq : pairedLines.findPartner (sector 0) = some (sector 1) := by decide
  exact ⟨hq, (CHAOSCache.paired_sectors_same_iff pairedLines (sector 0) (sector 1) hq .BitFlip 3#8 0).2
    (Or.inr (Or.inl (by decide)))⟩

/-- An attack flips bit 0 of byte 0 in both sectors: the protection takes it back in the first and not in the second. -/
theorem paired_sectors_differ :
    pairedLines.findPartner (sector 0) = some (sector 1) ∧
    (pairedLines.step .attack).cache.data (sector 0) 0 = 0#8 ∧
    (pairedLines.step .attack).cache.data (sector 1) 0 = 1#8 ∧
    CHAOSCache.Survives pairedLines (pairedLines.step .attack) .BitFlip 1#8 (sector 1) 0 ∧
    ¬CHAOSCache.Survives pairedLines (pairedLines.step .attack) .BitFlip 1#8 (sector 0) 0 := by
  unfold CHAOSCache.Survives
  decide

end GemFI.Mem
