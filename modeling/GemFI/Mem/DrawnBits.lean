import GemFI.Lib.BitSet
import GemFI.Mem.CHAOSCache
import GemFI.Mem.CHAOSMem

/-!
# The bits of a random mask

`generateRandomMask` sets one drawn bit per round, and the draws may coincide.  So a mask has as many bits as the
configuration asks for exactly if no bit is drawn twice, and the ECC outcome is that of a fault with fewer bits if the
draws leave one or two different bits only (`random_mask_bits_iff`).
-/

namespace GemFI.Mem

namespace Rng

theorem generateRandomMask_eq (rng : Rng) (n : Nat) :
    (rng.generateRandomMask n 8).1 = setAll 0#8 (rng.samples 8 n) := setBits_eq_setAll 8 n rng 0#8

end Rng

theorem popcount_eq_ones (mask : BitVec 8) : popcount mask = ones mask := rfl

theorem popcount_generateRandomMask (rng : Rng) (n : Nat) :
    popcount (rng.generateRandomMask n 8).1 = (rng.samples 8 n).toFinset.card := by
  rw [popcount_eq_ones, rng.generateRandomMask_eq]
  exact ones_setAll (Rng.samples_lt (by decide))

/-! ### The outcome of the ECC model -/

/-- What a code with single error correction and double error detection makes of an error of some bits. -/
def secded {α : Type} (corrected detected latent : α) (bits : Nat) : α :=
  if bits = 1 then corrected else if bits = 2 then detected else latent

theorem secded_eq_iff {α : Type} {corrected detected latent : α} (hdetected : corrected ≠ detected)
    (hlatent : corrected ≠ latent) (hne : detected ≠ latent) {d n : Nat} (hd : 1 ≤ d) (hdn : d ≤ n) :
    secded corrected detected latent d = secded corrected detected latent n ↔ d = n ∨ 3 ≤ d := by
  unfold secded
  repeat' split
  all_goals simp only [hdetected, hlatent, hne, hdetected.symm, hlatent.symm, hne.symm, true_iff, false_iff]
  all_goals omega

def CHAOSMem.secdedOutcome : Nat → CHAOSMem.Outcome := secded .EccCorrected .DetectedContained .Latent

def CHAOSCache.secdedOutcome : Nat → CHAOSCache.Outcome := secded .EccCorrected .DetectedContained .Latent

theorem CHAOSMem.outcome_secded (mask : BitVec 8) :
    CHAOSMem.outcome .secded mask = CHAOSMem.secdedOutcome (popcount mask) := by
  simp [CHAOSMem.outcome, CHAOSMem.secdedOutcome, secded]

theorem CHAOSCache.outcome_secded {p : ProtectionModel} (hp : p = .SECDED ∨ p = .SECDEDPoison) (mask : BitVec 8) :
    CHAOSCache.outcome p mask = CHAOSCache.secdedOutcome (popcount mask) := by
  rcases hp with rfl | rfl <;> simp [CHAOSCache.outcome, CHAOSCache.secdedOutcome, secded]

/-- A mask of `n` random bits has `n` bits exactly if no bit is drawn twice.  It has the outcome of an `n`-bit error
exactly then, or if three different bits are drawn. -/
theorem random_mask_bits_iff {n : Nat} (hpos : 1 ≤ n) (rng : Rng) {p : ProtectionModel}
    (hp : p = .SECDED ∨ p = .SECDEDPoison) :
    (popcount (rng.generateRandomMask n 8).1 = n ↔ (rng.samples 8 n).Nodup) ∧
    (CHAOSMem.outcome .secded (rng.generateRandomMask n 8).1 = CHAOSMem.secdedOutcome n ↔
      (rng.samples 8 n).Nodup ∨ 3 ≤ (rng.samples 8 n).toFinset.card) ∧
    (CHAOSCache.outcome p (rng.generateRandomMask n 8).1 = CHAOSCache.secdedOutcome n ↔
      (rng.samples 8 n).Nodup ∨ 3 ≤ (rng.samples 8 n).toFinset.card) := by
  have hbits := popcount_generateRandomMask rng n
  have hnodup : (rng.samples 8 n).toFinset.card = n ↔ (rng.samples 8 n).Nodup := by
    have h := ones_setAll_eq_length_iff (w := 8) (l := rng.samples 8 n) (Rng.samples_lt (by decide))
    rw [ones_setAll (Rng.samples_lt (by decide)), Rng.samples_length] at h
    exact h
  have hle : (rng.samples 8 n).toFinset.card ≤ n := by
    calc (rng.samples 8 n).toFinset.card ≤ (rng.samples 8 n).length := List.toFinset_card_le _
      _ = n := Rng.samples_length 8 n rng
  -- the first draw sets a bit
  have hone : 1 ≤ (rng.samples 8 n).toFinset.card := by
    rw [Nat.one_le_iff_ne_zero, Finset.card_ne_zero, List.toFinset_nonempty_iff]
    intro hnil
    have := Rng.samples_length 8 n rng
    rw [hnil, List.length_nil] at this
    omega
  refine ⟨by rw [hbits, hnodup], ?_, ?_⟩
  · rw [CHAOSMem.outcome_secded, hbits, ← hnodup]
    exact secded_eq_iff (by decide) (by decide) (by decide) hone hle
  · rw [CHAOSCache.outcome_secded hp, hbits, ← hnodup]
    exact secded_eq_iff (by decide) (by decide) (by decide) hone hle

/-- Three different draws. -/
theorem random_mask_bits_counting :
    popcount ((⟨id, 0⟩ : Rng).generateRandomMask 3 8).1 = 3 ∧
    CHAOSMem.outcome .secded ((⟨id, 0⟩ : Rng).generateRandomMask 3 8).1 = .Latent ∧
    CHAOSCache.outcome .SECDED ((⟨id, 0⟩ : Rng).generateRandomMask 3 8).1 = .Latent := by
  have hnodup : ((⟨id, 0⟩ : Rng).samples 8 3).Nodup := by decide
  have h := random_mask_bits_iff (n := 3) (by decide) ⟨id, 0⟩ (p := .SECDED) (Or.inl rfl)
  exact ⟨h.1.2 hnodup, h.2.1.2 (Or.inl hnodup), h.2.2.2 (Or.inl hnodup)⟩

/-- Two equal draws: the configuration asks for two bits, the mask has one, and the ECC model corrects it. -/
theorem random_mask_bits_coincide :
    popcount ((⟨fun _ => 0, 0⟩ : Rng).generateRandomMask 2 8).1 = 1 ∧
    CHAOSMem.outcome .secded ((⟨fun _ => 0, 0⟩ : Rng).generateRandomMask 2 8).1 = .EccCorrected ∧
    CHAOSCache.outcome .SECDED ((⟨fun _ => 0, 0⟩ : Rng).generateRandomMask 2 8).1 = .EccCorrected := by
  decide

end GemFI.Mem
