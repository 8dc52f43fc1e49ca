import GemFI.Lib.BitSet
import GemFI.Reg.Fault
import Mathlib.Algebra.Order.Field.Rat

/-!
# The injector CHAOSArmTLB

`TLB::lookup` hands the entry that it has hit to `maybeCorrupt`.  A fault in the page frame number puts in the frame
of another entry, adds an offset or works on the bits of a mask; the parity may then find the fault and throw the
entry away.

`TlbEntry` has the fields that the injector reads or writes; an entry is known by its position in the table, which
stands for its address.  Probabilities and samples are rational numbers, counters have no bound, and the log is left
out.
-/

namespace GemFI.Arm

open Mem (Rng FaultType)

/-! ### The table -/

structure TlbEntry where
  pfn : BitVec 64
  size : BitVec 64
  asid : BitVec 16
  vmid : BitVec 16
  innerAttrs : BitVec 8
  ap : BitVec 8
  xn : Bool
  valid : Bool
  deriving DecidableEq, Repr

def TlbEntry.invalidate (e : TlbEntry) : TlbEntry := { e with valid := false }

/-! ### The injector -/

/-- The field that the parameter names; every other text acts as `other`. -/
inductive TargetField where
  | pfn | ap | xn | attridx | ng | asid | other
  deriving DecidableEq, Repr

inductive PfnSelectMode where
  | bit_flip | mapped_page
  deriving DecidableEq, Repr

inductive TlbProtection where
  | None | ParityInterleaved
  deriving DecidableEq, Repr

structure TlbConfig where
  probability : ℚ
  fault_type_enum : FaultType
  fault_mask : BitVec 64
  num_bits_to_change : Int
  target_field : TargetField
  pfn_offset : BitVec 64
  pfn_select_mode : PfnSelectMode
  protection_model : TlbProtection
  first_tick : Nat
  last_tick : Nat
  max_faults : Nat
  /-- The sample of the uniform distribution that is made of a draw. -/
  uniform : Nat → ℚ
  random_fault_distribution : Nat → Fin 3

structure CHAOSArmTLB (cfg : TlbConfig) where
  rng : Rng
  faults_injected_count : Nat := 0
  numFaultsInjected : Nat := 0
  numBitFlips : Nat := 0
  numStuckAtZero : Nat := 0
  numStuckAtOne : Nat := 0
  numParityDetectedInvalidated : Nat := 0
  numParitySilentEscape : Nat := 0

/-- A fault in the page frame number.  An offset of 0 and an empty mask are no faults. -/
inductive PfnFault where
  | mappedPage (donor_pfn : BitVec 64)
  | offset (pfn_offset : BitVec 64) (hoffset : pfn_offset ≠ 0)
  | masked (chosen : FaultType) (mask : BitVec 64) (hmask : mask ≠ 0)

def PfnFault.apply : PfnFault → BitVec 64 → BitVec 64
  | .mappedPage donor_pfn, _ => donor_pfn
  | .offset pfn_offset _, pfn => pfn + pfn_offset
  | .masked chosen mask _, pfn => Reg.faulty chosen mask pfn

namespace CHAOSArmTLB

variable {cfg : TlbConfig}

def init (cfg : TlbConfig) (draw : Nat → Nat) : CHAOSArmTLB cfg := { rng := { draw := draw } }

/-- A fault is possible in the tick: the injector is on, the window is open and the budget is not used up. -/
def Open (s : CHAOSArmTLB cfg) (now : Nat) : Prop :=
  0 < cfg.probability ∧ cfg.first_tick ≤ now ∧ (cfg.last_tick = 0 ∨ now ≤ cfg.last_tick) ∧
  (cfg.max_faults = 0 ∨ s.faults_injected_count < cfg.max_faults)

instance (s : CHAOSArmTLB cfg) (now : Nat) : Decidable (Open s now) := inferInstanceAs (Decidable (_ ∧ _))

def gate (s : CHAOSArmTLB cfg) (now : Nat) : Bool × CHAOSArmTLB cfg :=
  if Open s now then (decide (cfg.uniform s.rng.next.1 < cfg.probability), { s with rng := s.rng.next.2 })
  else (false, s)

def countInjected (s : CHAOSArmTLB cfg) : CHAOSArmTLB cfg :=
  { s with numFaultsInjected := s.numFaultsInjected + 1, faults_injected_count := s.faults_injected_count + 1 }

def countType (s : CHAOSArmTLB cfg) : PfnFault → CHAOSArmTLB cfg
  | .masked .StuckAtZero _ _ => { s with numStuckAtZero := s.numStuckAtZero + 1 }
  | .masked .StuckAtOne _ _ => { s with numStuckAtOne := s.numStuckAtOne + 1 }
  | .masked .BitFlip _ _ => { s with numBitFlips := s.numBitFlips + 1 }
  | _ => s

/-- The parity finds a single wrong bit of the frame: the frame is put back and the entry is invalidated.  The first
component says whether the new frame has survived. -/
def applyProtectionModel (s : CHAOSArmTLB cfg) (entry : TlbEntry) (old_pfn new_pfn : BitVec 64) :
    Bool × TlbEntry × CHAOSArmTLB cfg :=
  if cfg.protection_model ≠ .ParityInterleaved then (true, entry, s)
  else
    let bits := ones (old_pfn ^^^ new_pfn)
    if bits = 1 then
      (false, { entry with pfn := old_pfn }.invalidate,
        { s with numParityDetectedInvalidated := s.numParityDetectedInvalidated + 1 })
    else (true, entry, { s with numParitySilentEscape := s.numParitySilentEscape + 1 })

def candPfn (table : List TlbEntry) (self : Nat) (entry : TlbEntry) : List (BitVec 64) :=
  (table.zipIdx.filter fun e => e.1.valid && e.2 != self && e.1.size == entry.size).map fun e => e.1.pfn

def pickMappedPagePfn (rng : Rng) (table : List TlbEntry) (self : Nat) (entry : TlbEntry) :
    Option (BitVec 64) × Rng :=
  let cand_pfn := candPfn table self entry
  if cand_pfn.isEmpty then (none, rng)
  else (cand_pfn[(rng.below cand_pfn.length).1]?, (rng.below cand_pfn.length).2)

def generateRandomMask (rng : Rng) (bits_to_change : Int) : BitVec 64 × Rng :=
  rng.setBits 64 bits_to_change.toNat 0#64

def chooseMask (cfg : TlbConfig) (rng : Rng) : BitVec 64 × Rng :=
  if cfg.fault_mask ≠ 0 then (cfg.fault_mask, rng) else generateRandomMask rng cfg.num_bits_to_change

/-- The fault in the page frame number, if there is one.  The frame of another entry takes precedence over the offset,
and without another entry there is no fault. -/
def choosePfnFault (s : CHAOSArmTLB cfg) (table : List TlbEntry) (self : Nat) (entry : TlbEntry) :
    Option PfnFault × Rng :=
  if cfg.pfn_select_mode = .mapped_page ∧ cfg.target_field = .pfn then
    let (donor, rng) := pickMappedPagePfn s.rng table self entry
    (donor.map .mappedPage, rng)
  else if hoffset : cfg.pfn_offset ≠ 0 ∧ cfg.target_field = .pfn then
    (some (.offset cfg.pfn_offset hoffset.1), s.rng)
  else
    let chosen := cfg.fault_type_enum.choose cfg.random_fault_distribution s.rng
    let mask := chooseMask cfg chosen.2
    if hmask : mask.1 = 0 then (none, mask.2) else (some (.masked chosen.1 mask.1 hmask), mask.2)

def corruptPfn (s : CHAOSArmTLB cfg) (entry : TlbEntry) (fault : PfnFault) : TlbEntry × CHAOSArmTLB cfg :=
  let new_pfn := fault.apply entry.pfn
  (applyProtectionModel (countInjected (countType s fault)) { entry with pfn := new_pfn } entry.pfn new_pfn).2

def corruptFrame (s : CHAOSArmTLB cfg) (table : List TlbEntry) (self : Nat) (entry : TlbEntry) :
    TlbEntry × CHAOSArmTLB cfg :=
  match choosePfnFault s table self entry with
  | (none, rng) => (entry, { s with rng := rng })
  | (some fault, rng) => corruptPfn { s with rng := rng } entry fault

/-- What is flipped in another field: the low bits of the configured mask, or one of the first `n` bits. -/
def fieldMask (s : CHAOSArmTLB cfg) (w n : Nat) : BitVec w × Rng :=
  if cfg.fault_mask ≠ 0 then (cfg.fault_mask.setWidth w, s.rng)
  else (1#w <<< (s.rng.below n).1, (s.rng.below n).2)

def corruptEntry (s : CHAOSArmTLB cfg) (table : List TlbEntry) (self : Nat) (entry : TlbEntry) :
    TlbEntry × CHAOSArmTLB cfg :=
  match cfg.target_field with
  | .ap =>
    let (mask, rng) := fieldMask s 8 3
    ({ entry with ap := entry.ap ^^^ mask }, countInjected { s with rng := rng })
  | .xn => ({ entry with xn := !entry.xn }, countInjected s)
  | .attridx =>
    let (mask, rng) := fieldMask s 8 8
    ({ entry with innerAttrs := entry.innerAttrs ^^^ mask }, countInjected { s with rng := rng })
  | .ng => ({ entry with vmid := entry.vmid ^^^ 1 }, countInjected s)
  | .asid =>
    let (mask, rng) := fieldMask s 16 16
    ({ entry with asid := entry.asid ^^^ mask }, countInjected { s with rng := rng })
  | .pfn | .other => corruptFrame s table self entry

/-- The entry is the one at the position `self`; there is none after the end, which is the null pointer. -/
def maybeCorrupt (s : CHAOSArmTLB cfg) (table : List TlbEntry) (self now : Nat) :
    List TlbEntry × CHAOSArmTLB cfg :=
  match table[self]? with
  | none => (table, s)
  | some entry =>
    let (pass, s) := gate s now
    if !pass then (table, s)
    else
      let r := corruptEntry s table self entry
      (table.set self r.1, r.2)

end CHAOSArmTLB

/-! ### The hook -/

structure Tlb (cfg : TlbConfig) where
  table : List TlbEntry
  chaosTLB : CHAOSArmTLB cfg

/-- What happens to the table: a lookup that matches the entry at a position, unless it is invalid, or an entry that is
put in, flushed or changed by the rest of the simulator. -/
inductive TlbEvent where
  | lookup (self now : Nat)
  | insert (self : Nat) (entry : TlbEntry)
  deriving DecidableEq, Repr

namespace Tlb

variable {cfg : TlbConfig}

/-- `TLB::lookup`: only a valid entry is hit, and a hit goes through the injector. -/
def lookup (t : Tlb cfg) (self now : Nat) : Tlb cfg :=
  match t.table[self]? with
  | some entry =>
    if entry.valid then
      let r := t.chaosTLB.maybeCorrupt t.table self now
      ⟨r.1, r.2⟩
    else t
  | none => t

def step (t : Tlb cfg) : TlbEvent → Tlb cfg
  | .lookup self now => lookup t self now
  | .insert self entry => { t with table := t.table.set self entry }

def run (t : Tlb cfg) (es : List TlbEvent) : Tlb cfg := es.foldl step t

end Tlb

end GemFI.Arm
