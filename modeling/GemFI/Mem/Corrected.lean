import GemFI.Mem.CHAOSCache
import GemFI.Mem.CHAOSMem

/-!
# Faults that the protection corrects

A fault of one bit under ECC is counted as corrected and its byte gets the old value back.  A stuck-at fault stays in
the table: the next check applies it to the byte.  So a corrected fault has no effect, for all program writes and
checks that may follow, exactly if it is not a stuck-at fault and the byte has no record of an earlier one
(`corrected_fault_harmless_iff`).  In the cache a check may also not reach the byte, if another valid block has the
same address and comes later in the tags.
-/

namespace GemFI.Mem

inductive Later (κ : Type) where
  | write (place : κ) (value : BitVec 8)
  | check (now : Nat)
  deriving DecidableEq, Repr

namespace Later

variable {κ : Type} [DecidableEq κ]

def view (x : κ) : Later κ → Option (Access (BitVec 8))
  | .write place value => if place = x then some (.write value) else none
  | .check _ => some .check

theorem exists_view (x : κ) (a : Access (BitVec 8)) : ∃ op : Later κ, op.view x = some a := by
  cases a with
  | write value => exact ⟨.write x value, by simp [view]⟩
  | check => exact ⟨.check 0, rfl⟩

/-- The last value that the program wrote to a place, or else the given one. -/
def lastWritten (x : κ) (ops : List (Later κ)) (old : BitVec 8) : BitVec 8 :=
  (ops.filterMap (view x)).foldl Access.written old

end Later

open Later

theorem ne_zero_of_corrected {mask : BitVec 8} (h : (∃ p, CHAOSMem.outcome p mask = .EccCorrected) ∨
    ∃ p, CHAOSCache.outcome p mask = .EccCorrected) : mask ≠ 0#8 := by
  rintro rfl
  rcases h with ⟨p, hp⟩ | ⟨p, hp⟩ <;> cases p <;> cases hp

/-! ### The memory -/

namespace CHAOSMem

variable {cfg : MemConfig}

def later (s : CHAOSMem cfg) : Later Nat → CHAOSMem cfg
  | .write addr data => write s addr data
  | .check now => checkPermanent s now

theorem holds_written_iff (s : CHAOSMem cfg) (addr : Nat) :
    (∀ ops, (ops.foldl later s).memory addr = lastWritten addr ops (s.memory addr)) ↔
      ∀ b, checked (s.permanent_faults.lookup addr) b = b := by
  -- writes and checks keep the table
  refine Access.holds_written_iff (f := fun t : CHAOSMem cfg => t.memory addr)
    (I := fun t => t.permanent_faults = s.permanent_faults) (fun t op ht => ?_) (exists_view addr) rfl
  cases op with
  | write place value =>
    refine ⟨ht, ?_⟩
    by_cases hplace : place = addr
    · simp [later, write, view, hplace, Access.apply]
    · have hne : addr ≠ place := fun h => hplace h.symm
      simp [later, write, view, hplace, Function.update_of_ne hne]
  | check now =>
    refine ⟨(checkPermanent_table t now).1.trans ht, ?_⟩
    change (checkPermanent t now).memory addr = checked (s.permanent_faults.lookup addr) (t.memory addr)
    rw [checkPermanent_memory, ht]
    rfl

theorem corrected_iff (s : CHAOSMem cfg) (addr : Nat) (mask : BitVec 8) (ty : FaultType)
    (h : (s.injectByte addr mask ty).numEccCorrected = s.numEccCorrected + 1) :
    (∀ ops, (ops.foldl later (s.injectByte addr mask ty)).memory addr = lastWritten addr ops (s.memory addr)) ↔
      ty.force mask = none ∧ ∀ fault ∈ s.permanent_faults.lookup addr, fault.Idle := by
  obtain ⟨hmem, htable, -, hecc⟩ := s.injectByte_spec addr mask ty
  have hout : outcome cfg.protection_model mask = .EccCorrected := by
    by_contra hne
    rw [hecc, if_neg hne] at h
    omega
  have hold : (s.injectByte addr mask ty).memory addr = s.memory addr := by
    rw [hmem, if_pos hout, Function.update_self]
  rw [← checked_record_iff s.permanent_faults addr ty (ne_zero_of_corrected (.inl ⟨_, hout⟩)), ← htable,
    ← holds_written_iff, hold]

end CHAOSMem

/-! ### The cache -/

namespace CHAOSCache

variable {cfg : CacheConfig}

def later (s : CHAOSCache cfg) : Later (Pos cfg.toGeometry × Nat) → CHAOSCache cfg
  | .write place value => { s with cache := s.cache.store place.1 place.2 value }
  | .check _ => checkPermanent s

theorem holds_written_iff (s : CHAOSCache cfg) (blk : Pos cfg.toGeometry) (off : Nat) :
    (∀ ops, (ops.foldl later s).cache.data blk off = lastWritten (blk, off) ops (s.cache.data blk off)) ↔
      ∀ b, checked (s.recordAt blk off) b = b := by
  -- writes and checks keep the tags and the table
  refine Access.holds_written_iff (f := fun t : CHAOSCache cfg => t.cache.data blk off)
    (I := fun t => t.cache.entry = s.cache.entry ∧ t.permanent_faults = s.permanent_faults) (fun t op ht => ?_)
    (exists_view (blk, off)) ⟨rfl, rfl⟩
  cases op with
  | write place value =>
    refine ⟨ht, ?_⟩
    obtain ⟨p, i⟩ := place
    by_cases hplace : p = blk ∧ i = off
    · obtain ⟨rfl, rfl⟩ := hplace
      simp [later, Cache.store_data, view, Access.apply]
    · have hne : ¬(blk = p ∧ off = i) := fun h => hplace ⟨h.1.symm, h.2.symm⟩
      simp [later, Cache.store_data, view, hplace, hne]
  | check now =>
    obtain ⟨hentry, htable⟩ := checkPermanent_table t
    refine ⟨⟨hentry.trans ht.1, htable.trans ht.2⟩, ?_⟩
    have hrecord : t.recordAt blk off = s.recordAt blk off := by
      obtain ⟨haddr, hlast⟩ := Cache.addr_congr ht.1
      rw [recordAt, recordAt, haddr, hlast, ht.2]
    change (checkPermanent t).cache.data blk off = checked (s.recordAt blk off) (t.cache.data blk off)
    rw [checkPermanent_data, hrecord]

theorem corrected_iff (s : CHAOSCache cfg) (blk : Pos cfg.toGeometry) (ty : FaultType) (mask : BitVec 8) (off : Nat)
    (h : (s.corruptByte blk (s.findPartner blk) ty mask off).numEccCorrected = s.numEccCorrected + 1) :
    (∀ ops, (ops.foldl later (s.corruptByte blk (s.findPartner blk) ty mask off)).cache.data blk off =
        lastWritten (blk, off) ops (s.cache.data blk off)) ↔
      (s.cache.lastAt (s.cache.regenerateBlkAddr blk) = some blk →
        ty.force mask = none ∧
          ∀ fault ∈ s.permanent_faults.lookup (s.cache.regenerateBlkAddr blk, off), fault.Idle) := by
  obtain ⟨hentry, hdata, htable, hecc⟩ := s.corruptByte_spec blk ty mask off
  have hout : outcome cfg.protection_model mask = .EccCorrected := by
    by_contra hne
    rw [hecc, if_neg hne] at h
    omega
  rw [if_pos hout] at hdata
  obtain ⟨haddr, hlast⟩ := Cache.addr_congr hentry
  rw [← hdata, holds_written_iff, recordAt, haddr, hlast, htable]
  by_cases hhome : s.cache.lastAt (s.cache.regenerateBlkAddr blk) = some blk
  · rw [if_pos hhome, checked_record_iff _ _ _ (ne_zero_of_corrected (.inr ⟨_, hout⟩))]
    simp [hhome]
  · simp [hhome, checked]

end CHAOSCache

/-! ### Both injectors -/

/-- A fault that is counted as corrected has no effect, whatever the program writes and however often the table is
checked, exactly if it is not a stuck-at fault and no record of an earlier one holds a bit of the byte; in the cache also
if a check ends with another block of the address. -/
theorem corrected_fault_harmless_iff (ty : FaultType) (mask : BitVec 8) {mem : MemConfig} (s : CHAOSMem mem) (addr : Nat)
    {cfg : CacheConfig} (c : CHAOSCache cfg) (blk : Pos cfg.toGeometry) (off : Nat) :
    ((s.injectByte addr mask ty).numEccCorrected = s.numEccCorrected + 1 →
      ((∀ ops, (ops.foldl CHAOSMem.later (s.injectByte addr mask ty)).memory addr =
          lastWritten addr ops (s.memory addr)) ↔
        (ty ≠ .StuckAtZero ∧ ty ≠ .StuckAtOne) ∧ ∀ fault ∈ s.permanent_faults.lookup addr, fault.Idle)) ∧
    ((c.corruptByte blk (c.findPartner blk) ty mask off).numEccCorrected = c.numEccCorrected + 1 →
      ((∀ ops, (ops.foldl CHAOSCache.later (c.corruptByte blk (c.findPartner blk) ty mask off)).cache.data blk off =
          lastWritten (blk, off) ops (c.cache.data blk off)) ↔
        (c.cache.lastAt (c.cache.regenerateBlkAddr blk) = some blk →
          (ty ≠ .StuckAtZero ∧ ty ≠ .StuckAtOne) ∧
            ∀ fault ∈ c.permanent_faults.lookup (c.cache.regenerateBlkAddr blk, off), fault.Idle))) := by
  rw [← force_eq_none_iff]
  exact ⟨s.corrected_iff addr mask ty, c.corrected_iff blk ty mask off⟩

def secdedByte : MemConfig := { oneByte with protection_model := .secded }

def secdedBlock : CacheConfig := { oneBlock with protection_model := .SECDED, fault_type_enum := .StuckAtOne }

def secdedPos : Pos secdedBlock.toGeometry := (⟨0, by decide⟩, ⟨0, by decide⟩)

def secdedLine : CHAOSCache secdedBlock :=
  .run (.init secdedBlock (.empty _) fun _ => 0) [.fill secdedPos ⟨0, false⟩ fun _ => 0]

/-- A bit flip is corrected for good. -/
theorem corrected_fault_harmless_iff_bitFlip :
    let s : CHAOSMem secdedByte := .init secdedByte (fun _ => 0#8) fun _ => 0
    let c := secdedLine
    (s.injectByte 0 1#8 .BitFlip).numEccCorrected = 1 ∧
    (∀ ops, (ops.foldl CHAOSMem.later (s.injectByte 0 1#8 .BitFlip)).memory 0 = lastWritten 0 ops (s.memory 0)) ∧
    (c.corruptByte secdedPos (c.findPartner secdedPos) .BitFlip 1#8 2).numEccCorrected = 1 ∧
    (∀ ops, (ops.foldl CHAOSCache.later
        (c.corruptByte secdedPos (c.findPartner secdedPos) .BitFlip 1#8 2)).cache.data secdedPos 2 =
      lastWritten (secdedPos, 2) ops (c.cache.data secdedPos 2)) := by
  intro s c
  have hs : s.permanent_faults.lookup 0 = none := by decide
  have hc : c.permanent_faults.lookup (c.cache.regenerateBlkAddr secdedPos, 2) = none := by decide
  obtain ⟨hmem, hcache⟩ := corrected_fault_harmless_iff .BitFlip 1#8 s 0 c secdedPos 2
  refine ⟨by decide, ?_, by decide, ?_⟩
  · exact (hmem (by decide)).2 ⟨by decide, by simp [hs]⟩
  · exact (hcache (by decide)).2 fun _ => ⟨by decide, by simp [hc]⟩

/-- A stuck-at-one fault of bit 0 is corrected, and the next check raises the bit; in the memory and in the cache. -/
theorem corrected_stuck_bit_returns :
    let s := CHAOSMem.run (.init secdedByte (fun _ => 0#8) fun _ => 0) [.attack]
    let c := secdedLine.step .attack
    (s.numEccCorrected = 1 ∧ s.memory 0 = 0#8 ∧ (s.later (.check 0)).memory 0 = 1#8) ∧
    c.numEccCorrected = 1 ∧ c.cache.data secdedPos 0 = 0#8 ∧ (c.later (.check 0)).cache.data secdedPos 0 = 1#8 := by
  decide

end GemFI.Mem
