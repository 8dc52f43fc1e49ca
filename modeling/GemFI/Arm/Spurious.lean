import GemFI.Arm.CHAOSPTW
import GemFI.Lib.Run
import Mathlib.Data.List.GetD

/-!
# Spurious translation faults

`corruptDescriptor` counts a fault as spurious if it leaves both valid bits clear.  The walker also takes the reserved
encoding and a block at a level without blocks as invalid, and the descriptor may have been invalid before.  The count
is right for a fetch exactly if neither happens (`spurious_counted_iff`), as with faults that clear the valid bits of
valid descriptors (`run_numSpuriousFaults_of_clear`).
-/

namespace GemFI.Arm

open Mem (Rng popcount)
open Bytes

/-! ### Types -/

def LongDescriptor.BlockAllowed (d : LongDescriptor) : Prop :=
  match d.grainSize with
  | .Grain4KB => d.lookupLevel = .L1 ∨ d.lookupLevel = .L2
  | .Grain16KB => d.lookupLevel = .L2
  | .Grain64KB => (d.lookupLevel = .L1 ∧ d.physAddrRange = 52) ∨ d.lookupLevel = .L2
  | .ReservedGrain => False

/-- The descriptor is invalid although a valid bit is set: the encoding is reserved, or it is a block at a level that has
none. -/
def LongDescriptor.Malformed (d : LongDescriptor) : Prop :=
  validBits d.data = 2 ∨ (validBits d.data = 1 ∧ ¬d.BlockAllowed)

theorem LongDescriptor.type_ne_invalid_iff {d : LongDescriptor} (h : validBits d.data = 1) :
    d.type ≠ .Invalid ↔ d.BlockAllowed := by
  unfold LongDescriptor.type LongDescriptor.BlockAllowed
  rw [if_pos h]
  rcases d with ⟨data, level, grain, range⟩
  cases grain <;> cases level <;> simp

theorem validBits_cases (v : BitVec 64) :
    validBits v = 0 ∨ validBits v = 1 ∨ validBits v = 2 ∨ validBits v = 3 := by
  have hall : ∀ b : BitVec 2, b = 0 ∨ b = 1 ∨ b = 2 ∨ b = 3 := by decide
  exact hall _

theorem LongDescriptor.type_eq_invalid_iff (d : LongDescriptor) :
    d.type = .Invalid ↔ validBits d.data = 0 ∨ d.Malformed := by
  unfold LongDescriptor.Malformed
  rcases validBits_cases d.data with h | h | h | h
  · simp [LongDescriptor.type, h]
  · rw [← LongDescriptor.type_ne_invalid_iff h, h]
    simp
  · simp [LongDescriptor.type, h]
  · have hne : d.type ≠ .Invalid := by
      simp only [LongDescriptor.type, h]
      by_cases hl : d.lookupLevel = .L3 <;> simp [hl]
    simp [h, hne]

theorem not_malformed_of_validBits {d : LongDescriptor} (h : validBits d.data = 0) : ¬d.Malformed := by
  rintro (h2 | ⟨h1, -⟩)
  · rw [h] at h2
    exact absurd h2 (by decide)
  · rw [h] at h1
    exact absurd h1 (by decide)

theorem longDescInvalid_iff (v : BitVec 64) : longDescInvalid v = true ↔ validBits v = 0 := by
  have hand : (v &&& 3).toNat = v.toNat % 2 ^ 2 := Nat.and_two_pow_sub_one_eq_mod v.toNat 2
  have hlow : (validBits v).toNat = v.toNat % 2 ^ 2 := BitVec.toNat_setWidth 2 v
  rw [longDescInvalid, decide_eq_true_eq, ← BitVec.toNat_inj, ← BitVec.toNat_inj, hand, hlow]
  rfl

/-! ### Bytes -/

namespace CHAOSPTW

variable {cfg : PtwConfig} (s : CHAOSPTW cfg)

theorem length_rawBytes (v : BitVec 64) : (rawBytes v).length = 8 := by
  rw [rawBytes, List.length_map, List.length_range]

theorem value_rawBytes (v : BitVec 64) : value (rawBytes v) = v := by
  have hbytes : ∀ b < 8, (rawBytes v).getD b 0 = byteOf v b := by
    intro b hb
    rw [rawBytes, List.getD_eq_getElem _ _ (by simpa using hb), List.getElem_map, List.getElem_range]
  rw [value, length_rawBytes, littleEndian_congr hbytes]
  apply BitVec.eq_of_getLsbD_eq
  intro i hi
  rw [getLsbD_littleEndian_byteOf, decide_eq_true (by omega), Bool.true_and]

theorem value_modify (v : BitVec 64) (off : Nat) (mask : Byte) :
    value ((rawBytes v).modify off (· ^^^ mask)) = v ^^^ mask.setWidth 64 <<< (8 * off) := by
  apply BitVec.eq_of_getLsbD_eq
  intro i hi
  have hbyte : i / 8 < (rawBytes v).length := by
    rw [length_rawBytes]
    omega
  have hdiv : 8 * (i / 8) + i % 8 = i := Nat.div_add_mod i 8
  rw [value, List.length_modify, length_rawBytes, getLsbD_littleEndian, decide_eq_true ⟨hi, by omega⟩, Bool.true_and,
    List.getD_eq_getElem _ _ (by rwa [List.length_modify]), List.getElem_modify, BitVec.getLsbD_xor,
    BitVec.getLsbD_shiftLeft, BitVec.getLsbD_setWidth]
  have hold : (rawBytes v)[i / 8].getLsbD (i % 8) = v.getLsbD i := by
    simp only [rawBytes, List.getElem_map, List.getElem_range, getLsbD_byteOf, hdiv]
    simp [Nat.mod_lt]
  split
  · rename_i hoff
    have hsub : i - 8 * off = i % 8 := by omega
    rw [BitVec.getLsbD_xor, hold, hsub]
    simp [hi, show ¬i < 8 * off by omega, show i % 8 < 64 by omega]
  · rename_i hoff
    rw [hold]
    by_cases hlt : i < 8 * off
    · simp [hlt]
    · simp [BitVec.getLsbD_of_ge mask (i - 8 * off) (by omega)]

theorem clearValid_rawBytes (v : BitVec 64) : clearValid (rawBytes v) = rawBytes (v &&& ~~~3) := by
  unfold clearValid
  rw [length_rawBytes, value_rawBytes]
  rfl

/-! ### What a fetch does -/

/-- The long descriptor after the fault of a fetch.  There is none if the gate lets none pass, the mask is 0 or the ECC
corrects it. -/
def faulty? (now : Nat) (v : BitVec 64) : Option (BitVec 64) :=
  let offset := chooseOffset ({ s with rng := s.rng.next.2 } : CHAOSPTW cfg) 8
  let mask := (chooseMask cfg offset.2).1
  if Open s now ∧ cfg.uniform s.rng.next.1 < cfg.probability then
    if cfg.clear_valid_bit then some (v &&& ~~~3)
    else if mask = 0 ∨ (cfg.ptw_ecc ∧ popcount mask < 2) then none
    else some (v ^^^ mask.setWidth 64 <<< (8 * offset.1))
  else none

theorem becameInvalid_of_length {corr : List Byte} (h : corr.length = 8) :
    becameInvalid corr = decide (validBits (value corr) = 0) := by
  rw [becameInvalid, if_pos h, Bool.eq_iff_iff, longDescInvalid_iff, decide_eq_true_eq]

theorem corruptDescriptor_of_not_open {data : List Byte} {now : Nat} (h : ¬Open s now) :
    corruptDescriptor s data now = (data, s) := by
  simp [corruptDescriptor, gate, h]

theorem corruptDescriptor_of_open {v : BitVec 64} {now : Nat} (h : Open s now) :
    corruptDescriptor s (rawBytes v) now =
      let s' : CHAOSPTW cfg := { s with rng := s.rng.next.2 }
      if cfg.uniform s.rng.next.1 < cfg.probability then
        if cfg.clear_valid_bit then
          (rawBytes (v &&& ~~~3), count s' (decide (validBits (v &&& ~~~3) = 0)))
        else flipBits s' (rawBytes v)
      else (rawBytes v, s') := by
  have hinvalid := becameInvalid_of_length (length_rawBytes (v &&& ~~~3))
  by_cases hdraw : cfg.uniform s.rng.next.1 < cfg.probability
  · simp only [corruptDescriptor, gate, if_pos h, hdraw, length_rawBytes, clearValid_rawBytes, hinvalid, value_rawBytes]
    rfl
  · simp only [corruptDescriptor, gate, if_pos h, hdraw]
    rfl

theorem doLongDescriptor_spec (d : LongDescriptor) (now : Nat) :
    (faulty? s now d.data = none →
      ∃ rng ecc, doLongDescriptor s d now = (d, { s with rng := rng, numEccCorrected := ecc })) ∧
    ∀ v, faulty? s now d.data = some v → Open s now ∧ ∃ rng, doLongDescriptor s d now =
      ({ d with data := v }, count { s with rng := rng } (decide (validBits v = 0))) := by
  unfold faulty? doLongDescriptor
  dsimp only
  by_cases hopen : Open s now
  swap
  · rw [corruptDescriptor_of_not_open s hopen, if_neg fun h : Open s now ∧ _ => hopen h.1, value_rawBytes]
    exact ⟨fun _ => ⟨_, _, rfl⟩, fun v hv => by cases hv⟩
  rw [corruptDescriptor_of_open s hopen]
  dsimp only
  by_cases hdraw : cfg.uniform s.rng.next.1 < cfg.probability
  swap
  · rw [if_neg fun h : Open s now ∧ _ => hdraw h.2, if_neg hdraw, value_rawBytes]
    exact ⟨fun _ => ⟨_, _, rfl⟩, fun v hv => by cases hv⟩
  rw [if_pos ⟨hopen, hdraw⟩, if_pos hdraw]
  by_cases hclear : cfg.clear_valid_bit
  · rw [if_pos hclear, if_pos hclear, value_rawBytes]
    exact ⟨fun h => (by cases h), fun v hv => ⟨hopen, _, by cases hv; rfl⟩⟩
  rw [if_neg hclear, if_neg hclear, flipBits, length_rawBytes]
  dsimp only
  generalize chooseOffset ({ s with rng := s.rng.next.2 } : CHAOSPTW cfg) 8 = offset
  generalize chooseMask cfg offset.2 = mask
  by_cases hzero : mask.1 = 0
  · rw [if_pos (.inl hzero), if_pos hzero, value_rawBytes]
    exact ⟨fun _ => ⟨_, _, rfl⟩, fun v hv => by cases hv⟩
  by_cases hecc : cfg.ptw_ecc ∧ popcount mask.1 < 2
  · rw [if_pos (.inr hecc), if_neg hzero, if_pos hecc, value_rawBytes]
    exact ⟨fun _ => ⟨_, _, rfl⟩, fun v hv => by cases hv⟩
  rw [if_neg (not_or.2 ⟨hzero, hecc⟩), if_neg hzero, if_neg hecc,
    becameInvalid_of_length (by rw [List.length_modify, length_rawBytes]), value_modify]
  exact ⟨fun h => (by cases h), fun v hv => ⟨hopen, _, by cases hv; rfl⟩⟩

/-! ### Counters -/

/-- The faults are the spurious and the benign ones, and their number stays in the budget. -/
structure Accounted (s : CHAOSPTW cfg) : Prop where
  faults : s.numFaultsInjected = s.numSpuriousFaults + s.numBenignFlips
  count : s.faults_injected_count = s.numFaultsInjected
  budget : cfg.max_faults = 0 ∨ s.faults_injected_count ≤ cfg.max_faults

theorem accounted_init (draw : Nat → Nat) : Accounted (init cfg draw) := ⟨rfl, rfl, .inr (Nat.zero_le _)⟩

theorem accounted_count {s : CHAOSPTW cfg} (h : Accounted s) {now : Nat} (hopen : Open s now) (rng : Rng)
    (became_invalid : Bool) : Accounted (count ({ s with rng := rng } : CHAOSPTW cfg) became_invalid) := by
  have hbudget : cfg.max_faults = 0 ∨ s.faults_injected_count + 1 ≤ cfg.max_faults := hopen.2.2.2
  have hfaults := h.faults
  have hcount := h.count
  cases became_invalid with
  | true =>
    refine ⟨?_, congrArg (· + 1) hcount, hbudget⟩
    show s.numFaultsInjected + 1 = s.numSpuriousFaults + 1 + s.numBenignFlips
    omega
  | false =>
    refine ⟨?_, congrArg (· + 1) hcount, hbudget⟩
    show s.numFaultsInjected + 1 = s.numSpuriousFaults + (s.numBenignFlips + 1)
    omega

theorem accounted_step {s : CHAOSPTW cfg} (h : Accounted s) (f : Fetch) : Accounted (step s f) := by
  unfold step
  obtain ⟨hnone, hsome⟩ := doLongDescriptor_spec s f.desc f.now
  cases hfault : faulty? s f.now f.desc.data with
  | none =>
    obtain ⟨rng, ecc, hr⟩ := hnone hfault
    rw [hr]
    exact ⟨h.faults, h.count, h.budget⟩
  | some v =>
    obtain ⟨hopen, rng, hr⟩ := hsome v hfault
    rw [hr]
    exact accounted_count h hopen rng _

/-- In every run the faults are the spurious and the benign ones, and their number stays in the budget. -/
theorem walk_faults_accounted (draw : Nat → Nat) (fs : List Fetch) : Accounted (run (init cfg draw) fs) :=
  List.foldlRecOn fs step (accounted_init draw) fun _ hs f _ => accounted_step hs f

/-! ### Spurious faults -/

/-- The walker takes a descriptor that was not invalid as invalid. -/
def Spurious (d d' : LongDescriptor) : Prop := d.type ≠ .Invalid ∧ d'.type = .Invalid

instance (d d' : LongDescriptor) : Decidable (Spurious d d') := inferInstanceAs (Decidable (_ ∧ _))

/-- The descriptor was invalid before the fault and has no valid bit after it, or it was not and becomes malformed. -/
def Miscounted (d d' : LongDescriptor) : Prop :=
  (d.type = .Invalid ∧ validBits d'.data = 0) ∨ (d.type ≠ .Invalid ∧ d'.Malformed)

theorem validBits_eq_zero_iff_spurious (d d' : LongDescriptor) :
    (validBits d'.data = 0 ↔ Spurious d d') ↔ ¬Miscounted d d' := by
  have hclear : validBits d'.data = 0 → ¬d'.Malformed := not_malformed_of_validBits
  unfold Spurious Miscounted
  rw [d'.type_eq_invalid_iff]
  tauto

theorem numSpuriousFaults_step (d : LongDescriptor) (now : Nat) :
    let r := doLongDescriptor s d now
    (faulty? s now d.data = none → r.1 = d ∧ r.2.numSpuriousFaults = s.numSpuriousFaults) ∧
    ∀ v, faulty? s now d.data = some v → r.1 = { d with data := v } ∧
      r.2.numSpuriousFaults = s.numSpuriousFaults + if validBits v = 0 then 1 else 0 := by
  obtain ⟨hnone, hsome⟩ := doLongDescriptor_spec s d now
  refine ⟨fun hfault => ?_, fun v hfault => ?_⟩
  · obtain ⟨rng, ecc, hr⟩ := hnone hfault
    rw [hr]
    exact ⟨rfl, rfl⟩
  · obtain ⟨-, rng, hr⟩ := hsome v hfault
    rw [hr]
    refine ⟨rfl, ?_⟩
    by_cases hv : validBits v = 0
    · rw [decide_eq_true hv, if_pos hv]
      rfl
    · rw [decide_eq_false hv, if_neg hv]
      rfl

/-- A spurious fault is counted exactly for the descriptors that the walker newly takes as invalid, unless a fault hits a
descriptor that was invalid before and leaves it no valid bit, or makes one malformed. -/
theorem spurious_counted_iff (s : CHAOSPTW cfg) (d : LongDescriptor) (now : Nat) :
    let r := doLongDescriptor s d now
    (r.2.numSpuriousFaults = s.numSpuriousFaults + 1 ↔ d.type ≠ .Invalid ∧ r.1.type = .Invalid) ↔
      ∀ v ∈ faulty? s now d.data, ¬Miscounted d { d with data := v } := by
  intro r
  obtain ⟨hnone, hsome⟩ := numSpuriousFaults_step s d now
  cases hfault : faulty? s now d.data with
  | none =>
    obtain ⟨hd, hs⟩ : r.1 = d ∧ r.2.numSpuriousFaults = s.numSpuriousFaults := hnone hfault
    rw [hd, hs]
    simp
  | some v =>
    obtain ⟨hd, hs⟩ : r.1 = { d with data := v } ∧ r.2.numSpuriousFaults = _ := hsome v hfault
    have hcount : r.2.numSpuriousFaults = s.numSpuriousFaults + 1 ↔ validBits v = 0 := by
      rw [hs]
      split <;> simp_all
    rw [hcount, hd]
    simpa [Spurious] using validBits_eq_zero_iff_spurious d { d with data := v }

def leaf (data : BitVec 64) : LongDescriptor := ⟨data, .L3, .Grain4KB, 48⟩

/-- Every fetch is hit: the valid bits are cleared, or the lowest bit is flipped. -/
def everyFetch (clear_valid_bit : Bool) : PtwConfig where
  probability := 1
  num_bits := 1
  fault_mask := 1
  byte_offset := 0
  clear_valid_bit := clear_valid_bit
  ptw_ecc := false
  first_tick := 0
  last_tick := 0
  max_faults := 0
  uniform := fun _ => 0

/-- An entry that was empty before its valid bits are cleared is counted as a spurious fault; a page that loses its lowest
bit is invalid for the walker, and counted as benign. -/
theorem spurious_miscounted :
    (let r := doLongDescriptor (init (everyFetch true) id) (leaf 0) 0
     (leaf 0).type = .Invalid ∧ r.2.numSpuriousFaults = 1) ∧
    (let r := doLongDescriptor (init (everyFetch false) id) (leaf 3) 0
     (leaf 3).type = .Page ∧ r.1 = leaf 2 ∧ r.1.type = .Invalid ∧ r.2.numSpuriousFaults = 0 ∧
      r.2.numBenignFlips = 1) := by
  decide +kernel

/-! ### Runs -/

def Miscounts (s : CHAOSPTW cfg) (f : Fetch) : Prop :=
  ∃ v, faulty? s f.now f.desc.data = some v ∧ Miscounted f.desc { f.desc with data := v }

def spuriousWalks : CHAOSPTW cfg → List Fetch → Nat
  | _, [] => 0
  | s, f :: fs => (if Spurious f.desc (doLongDescriptor s f.desc f.now).1 then 1 else 0) + spuriousWalks (step s f) fs

theorem step_numSpuriousFaults {s : CHAOSPTW cfg} {f : Fetch} (h : ¬Miscounts s f) :
    (step s f).numSpuriousFaults =
      s.numSpuriousFaults + if Spurious f.desc (doLongDescriptor s f.desc f.now).1 then 1 else 0 := by
  obtain ⟨hnone, hsome⟩ := numSpuriousFaults_step s f.desc f.now
  unfold step
  cases hfault : faulty? s f.now f.desc.data with
  | none =>
    obtain ⟨hd, hs⟩ := hnone hfault
    rw [hd, hs, if_neg fun hspur : Spurious f.desc f.desc => hspur.1 hspur.2]
    rfl
  | some v =>
    obtain ⟨hd, hs⟩ := hsome v hfault
    rw [hd, hs]
    have hiff := (validBits_eq_zero_iff_spurious f.desc { f.desc with data := v }).2 fun hm => h ⟨v, hfault, hm⟩
    simp only [hiff]

theorem run_numSpuriousFaults {s : CHAOSPTW cfg} {fs : List Fetch}
    (h : Along step (fun s f => ¬Miscounts s f) s fs) :
    (run s fs).numSpuriousFaults = s.numSpuriousFaults + spuriousWalks s fs := by
  induction fs generalizing s with
  | nil => rfl
  | cons f fs ih =>
    have htail := ih h.2
    rw [step_numSpuriousFaults h.1] at htail
    rw [spuriousWalks, ← Nat.add_assoc]
    exact htail

/-! ### Clearing the valid bits -/

theorem validBits_clear (v : BitVec 64) : validBits (v &&& ~~~3) = 0 := by
  rw [← longDescInvalid_iff, longDescInvalid, decide_eq_true_eq, BitVec.and_assoc, BitVec.and_comm (~~~3),
    BitVec.and_not_self]
  exact BitVec.and_zero

theorem not_miscounts_of_clear (hclear : cfg.clear_valid_bit = true) (s : CHAOSPTW cfg) {f : Fetch}
    (hvalid : f.desc.type ≠ .Invalid) : ¬Miscounts s f := by
  rintro ⟨v, hv, ⟨hinvalid, -⟩ | ⟨-, hmal⟩⟩
  · exact hvalid hinvalid
  · unfold faulty? at hv
    dsimp only at hv
    rw [if_pos hclear] at hv
    split at hv
    · cases hv
      exact not_malformed_of_validBits (validBits_clear f.desc.data) hmal
    · cases hv

/-- If the valid bits are cleared and all descriptors are valid before, the counter is right. -/
theorem run_numSpuriousFaults_of_clear (hclear : cfg.clear_valid_bit = true) (s : CHAOSPTW cfg) {fs : List Fetch}
    (hvalid : ∀ f ∈ fs, f.desc.type ≠ .Invalid) :
    (run s fs).numSpuriousFaults = s.numSpuriousFaults + spuriousWalks s fs := by
  refine run_numSpuriousFaults ?_
  induction fs generalizing s with
  | nil => trivial
  | cons f fs ih =>
    rw [List.forall_mem_cons] at hvalid
    exact ⟨not_miscounts_of_clear hclear s hvalid.1, ih (step s f) hvalid.2⟩

theorem two_pages_cleared : spuriousWalks (init (everyFetch true) id) [⟨leaf 3, 0⟩, ⟨leaf 3, 1⟩] = 2 := by
  have hrun : (run (init (everyFetch true) id) [⟨leaf 3, 0⟩, ⟨leaf 3, 1⟩]).numSpuriousFaults = _ :=
    run_numSpuriousFaults_of_clear rfl _ (by decide)
  rw [show (run (init (everyFetch true) id) [⟨leaf 3, 0⟩, ⟨leaf 3, 1⟩]).numSpuriousFaults = 2 by decide +kernel] at hrun
  exact (hrun.trans (Nat.zero_add _)).symm

end CHAOSPTW

end GemFI.Arm
