import GemFI.Mem.Corrected
import GemFI.Mem.DrawnBits

/-!
# The outcome and the real error

Both injectors take the number of bits of the mask for the number of wrong bits.  A stuck-at fault changes only the
bits that do not have its value yet.  The outcome is that of the real error exactly if the fault changes all bits of
its mask, and there are some, or three bits at least (`real_error_counted_iff`); a protection that does not tell two
bits from three counts two as latent.
-/

namespace GemFI.Mem

def changedBits (ty : FaultType) (mask data : BitVec 8) : Nat := popcount (data ^^^ ty.corrupt mask data)

theorem changedBits_le (ty : FaultType) (mask data : BitVec 8) : changedBits ty mask data ≤ popcount mask := by
  refine ones_le_of_subset fun i hi => ?_
  rw [mem_bitSet] at hi ⊢
  have hlt := BitVec.lt_of_getLsbD hi
  by_contra hmask
  rw [BitVec.getLsbD_xor, getLsbD_corrupt _ _ _ hlt, if_neg hmask, Bool.xor_self] at hi
  cases hi

/-! ### The counters -/

inductive EccCounter where
  | Corrected | DetectedContained | Latent
  deriving DecidableEq, Repr

/-- The counter for a real error of some bits; none if there is no error. -/
def EccCounter.ofError : Nat → Option EccCounter
  | 0 => none
  | 1 => some .Corrected
  | 2 => some .DetectedContained
  | _ => some .Latent

def Raised (before after : EccCounter → Nat) (c : Option EccCounter) : Prop :=
  ∀ k, after k = before k + if c = some k then 1 else 0

theorem raised_iff {before after : EccCounter → Nat} {c : Option EccCounter} (h : Raised before after c)
    (c' : Option EccCounter) : Raised before after c' ↔ c = c' := by
  constructor
  · intro h'
    have hsame : ∀ k, (if c = some k then 1 else 0) = if c' = some k then 1 else 0 := by
      intro k
      have h1 := h k
      have h2 := h' k
      omega
    refine Option.ext fun k => ?_
    have hk := hsame k
    by_cases h1 : c = some k <;> by_cases h2 : c' = some k <;> simp_all
  · rintro rfl
    exact h

namespace CHAOSMem

variable {cfg : MemConfig}

def counter (s : CHAOSMem cfg) : EccCounter → Nat
  | .Corrected => s.numEccCorrected
  | .DetectedContained => s.numDetectedContained
  | .Latent => s.numLatent

def Outcome.counter : Outcome → Option EccCounter
  | .EccCorrected => some .Corrected
  | .DetectedContained => some .DetectedContained
  | .Latent => some .Latent
  | _ => none

theorem injectByte_raised (s : CHAOSMem cfg) (addr : Nat) (mask : BitVec 8) (ty : FaultType) :
    Raised s.counter (s.injectByte addr mask ty).counter (outcome cfg.protection_model mask).counter := by
  intro k
  cases k <;> cases ty <;> cases ho : outcome cfg.protection_model mask <;>
    simp [injectByte, countFault, countOutcome, ho, Outcome.counter, CHAOSMem.counter]

end CHAOSMem

namespace CHAOSCache

variable {cfg : CacheConfig}

def counter (s : CHAOSCache cfg) : EccCounter → Nat
  | .Corrected => s.numEccCorrected
  | .DetectedContained => s.numDetectedContained
  | .Latent => s.numLatent

def Outcome.counter : Outcome → Option EccCounter
  | .EccCorrected => some .Corrected
  | .DetectedContained => some .DetectedContained
  | .Latent => some .Latent
  | .RawEscaped => none

theorem corruptByte_raised (s : CHAOSCache cfg) (blk : Pos cfg.toGeometry) (partner : Option (Pos cfg.toGeometry))
    (ty : FaultType) (mask : BitVec 8) (off : Nat) :
    Raised s.counter (s.corruptByte blk partner ty mask off).counter (outcome cfg.protection_model mask).counter := by
  have hcount : Raised s.counter (countOutcome (countFault s (s.cache.regenerateBlkAddr blk, off) ty mask)
      (outcome cfg.protection_model mask)).counter (outcome cfg.protection_model mask).counter := by
    intro k
    cases k <;> cases ty <;> cases outcome cfg.protection_model mask <;> rfl
  cases partner with
  | none => exact hcount
  | some q => exact hcount

end CHAOSCache

/-! ### The real error -/

def SameOutcome (p : ProtectionModel) (bits changed : Nat) : Prop :=
  match p with
  | .None => changed = 0
  | .SED | .ParityInterleaved => (bits = 1 ∧ changed = 1) ∨ 3 ≤ changed
  | .SECDED | .SECDEDPoison => 1 ≤ changed ∧ (changed = bits ∨ 3 ≤ changed)

theorem ofError_eq_ofError_iff (a b : Nat) :
    EccCounter.ofError a = EccCounter.ofError b ↔ a = b ∨ (3 ≤ a ∧ 3 ≤ b) := by
  have hlow : ∀ a < 3, ∀ b < 3, EccCounter.ofError a = EccCounter.ofError b ↔ a = b := by decide
  have hhigh : ∀ n, 3 ≤ n → EccCounter.ofError n = some .Latent := by
    intro n hn
    obtain ⟨k, rfl⟩ := Nat.exists_eq_add_of_le' hn
    rfl
  have hnot : ∀ n < 3, EccCounter.ofError n ≠ some .Latent := by decide
  by_cases ha : a < 3
  · by_cases hb : b < 3
    · rw [hlow a ha b hb]
      omega
    · rw [hhigh b (by omega)]
      simp only [hnot a ha, false_iff]
      omega
  · by_cases hb : b < 3
    · rw [hhigh a (by omega)]
      simp only [(hnot b hb).symm, false_iff]
      omega
    · rw [hhigh a (by omega), hhigh b (by omega)]
      simp only [true_iff]
      omega

theorem counter_secded {α : Type} (counter : α → Option EccCounter) {corrected detected latent : α}
    (hcorrected : counter corrected = some .Corrected) (hdetected : counter detected = some .DetectedContained)
    (hlatent : counter latent = some .Latent) (bits : Nat) :
    counter (secded corrected detected latent bits) = EccCounter.ofError (if bits = 0 then 3 else bits) := by
  match bits with
  | 0 => exact hlatent
  | 1 => exact hcorrected
  | 2 => exact hdetected
  | n + 3 => exact hlatent

theorem CHAOSCache.counter_single {p : ProtectionModel} (hp : p = .SED ∨ p = .ParityInterleaved) (mask : BitVec 8) :
    (CHAOSCache.outcome p mask).counter = EccCounter.ofError (if popcount mask = 1 then 1 else 3) := by
  have hout : CHAOSCache.outcome p mask = if popcount mask = 1 then .EccCorrected else .Latent := by
    rcases hp with rfl | rfl <;> simp [CHAOSCache.outcome]
  rw [hout]
  split <;> rfl

theorem ofError_secded_eq_iff {bits changed : Nat} (hle : changed ≤ bits) :
    EccCounter.ofError (if bits = 0 then 3 else bits) = EccCounter.ofError changed ↔
      1 ≤ changed ∧ (changed = bits ∨ 3 ≤ changed) := by
  rw [ofError_eq_ofError_iff]
  split <;> omega

theorem single_eq_iff {bits changed : Nat} (hle : changed ≤ bits) :
    EccCounter.ofError (if bits = 1 then 1 else 3) = EccCounter.ofError changed ↔
      (bits = 1 ∧ changed = 1) ∨ 3 ≤ changed := by
  rw [ofError_eq_ofError_iff]
  split <;> omega

theorem CHAOSCache.counter_eq_iff (p : ProtectionModel) {mask : BitVec 8} {changed : Nat}
    (hle : changed ≤ popcount mask) :
    (CHAOSCache.outcome p mask).counter = EccCounter.ofError changed ↔ SameOutcome p (popcount mask) changed := by
  cases p with
  | None =>
    show EccCounter.ofError 0 = EccCounter.ofError changed ↔ changed = 0
    rw [ofError_eq_ofError_iff]
    omega
  | SED => rw [CHAOSCache.counter_single (Or.inl rfl), single_eq_iff hle, SameOutcome]
  | ParityInterleaved => rw [CHAOSCache.counter_single (Or.inr rfl), single_eq_iff hle, SameOutcome]
  | SECDED =>
    rw [CHAOSCache.outcome_secded (Or.inl rfl), CHAOSCache.secdedOutcome,
      counter_secded CHAOSCache.Outcome.counter rfl rfl rfl, ofError_secded_eq_iff hle, SameOutcome]
  | SECDEDPoison =>
    rw [CHAOSCache.outcome_secded (Or.inr rfl), CHAOSCache.secdedOutcome,
      counter_secded CHAOSCache.Outcome.counter rfl rfl rfl, ofError_secded_eq_iff hle, SameOutcome]

theorem CHAOSMem.counter_eq_iff {mask : BitVec 8} {changed : Nat} (hle : changed ≤ popcount mask) :
    (CHAOSMem.outcome .secded mask).counter = EccCounter.ofError changed ↔
      SameOutcome .SECDED (popcount mask) changed := by
  rw [CHAOSMem.outcome_secded, CHAOSMem.secdedOutcome, counter_secded CHAOSMem.Outcome.counter rfl rfl rfl,
    ofError_secded_eq_iff hle, SameOutcome]

/-- A fault is counted by the bits that it really changes exactly if it changes all bits of its mask, and there are some,
or three bits at least.  In the memory this is for the `secded` model; in the cache, the models without double error
detection also miscount every error of two bits, and without protection every error is missed. -/
theorem real_error_counted_iff {mcfg : MemConfig} (hsecded : mcfg.protection_model = .secded) {ccfg : CacheConfig}
    (m : CHAOSMem mcfg) (addr : Nat) (c : CHAOSCache ccfg) (blk : Pos ccfg.toGeometry)
    (partner : Option (Pos ccfg.toGeometry)) (off : Nat) (mask : BitVec 8) (ty : FaultType) :
    (Raised m.counter (m.injectByte addr mask ty).counter (EccCounter.ofError (changedBits ty mask (m.memory addr))) ↔
      SameOutcome .SECDED (popcount mask) (changedBits ty mask (m.memory addr))) ∧
    (Raised c.counter (c.corruptByte blk partner ty mask off).counter
        (EccCounter.ofError (changedBits ty mask (c.cache.data blk off))) ↔
      SameOutcome ccfg.protection_model (popcount mask) (changedBits ty mask (c.cache.data blk off))) := by
  constructor
  · have hraised := m.injectByte_raised addr mask ty
    rw [hsecded] at hraised
    rw [raised_iff hraised, CHAOSMem.counter_eq_iff (changedBits_le ..)]
  · rw [raised_iff (c.corruptByte_raised blk partner ty mask off), CHAOSCache.counter_eq_iff _ (changedBits_le ..)]

/-- A flip of two bits. -/
theorem real_error_counted_flip :
    Raised (CHAOSMem.init secdedByte (fun _ => 0#8) fun _ => 0).counter
      ((CHAOSMem.init secdedByte (fun _ => 0#8) fun _ => 0).injectByte 0 3#8 .BitFlip).counter
      (some .DetectedContained) ∧
    Raised secdedLine.counter (secdedLine.corruptByte secdedPos none .BitFlip 3#8 2).counter
      (some .DetectedContained) := by
  have h := real_error_counted_iff (by rfl) (CHAOSMem.init secdedByte (fun _ => 0#8) fun _ => 0) 0 secdedLine
    secdedPos none 2 3#8 .BitFlip
  exact ⟨h.1.2 ⟨by decide, by decide⟩, h.2.2 ⟨by decide, by decide⟩⟩

/-- A stuck-at-zero fault of bit 0 in a byte of zeros changes nothing and is counted as corrected; one of two bits in
a byte with one of them changes one bit and is counted as contained. -/
theorem real_error_miscounted :
    let s : CHAOSMem secdedByte := .init secdedByte (fun _ => 0#8) fun _ => 0
    let t : CHAOSMem secdedByte := .init secdedByte (fun _ => 1#8) fun _ => 0
    (changedBits .StuckAtZero 1#8 (s.memory 0) = 0 ∧ (s.injectByte 0 1#8 .StuckAtZero).numEccCorrected = 1) ∧
    (changedBits .StuckAtZero 3#8 (t.memory 0) = 1 ∧ (t.injectByte 0 3#8 .StuckAtZero).numDetectedContained = 1) ∧
    (changedBits .StuckAtZero 1#8 (secdedLine.cache.data secdedPos 2) = 0 ∧
      (secdedLine.corruptByte secdedPos none .StuckAtZero 1#8 2).numEccCorrected = 1) := by
  decide

end GemFI.Mem
