import GemFI.Lib.Bytes
import GemFI.Mem.Fault
import Mathlib.Algebra.Order.Field.Rat

/-!
# The injector CHAOSPTW

`doLongDescriptor` hands the injector the descriptor that it has just fetched, and `corruptDescriptor` may change its
bytes before the walker looks at the type: it clears the valid bits, or flips bits of one byte, unless the ECC
corrects a single flip.

`LongDescriptor` has the fields that its type depends on; `corruptDescriptor` is modelled for a buffer of up to eight
bytes.  Probabilities and samples are rational numbers, counters have no bound, and the log is left out.
-/

namespace GemFI.Arm

open Mem (Rng popcount)
open Bytes

/-! ### The table walker -/

inductive LookupLevel where
  | L0 | L1 | L2 | L3
  deriving DecidableEq, Repr

inductive GrainSize where
  | Grain4KB | Grain16KB | Grain64KB | ReservedGrain
  deriving DecidableEq, Repr

inductive EntryType where
  | Invalid | Table | Block | Page
  deriving DecidableEq, Repr

/-- A descriptor of the long format, with the lookup that it was fetched for. -/
structure LongDescriptor where
  data : BitVec 64
  lookupLevel : LookupLevel
  grainSize : GrainSize
  physAddrRange : Nat
  deriving DecidableEq, Repr

/-- `bits(data, 1, 0)`. -/
def validBits (data : BitVec 64) : BitVec 2 := data.setWidth 2

namespace LongDescriptor

/-- The type of the entry.  In AArch64, blocks are not allowed at level 0 for the 4 KiB granule and at level 1 for the 16
and 64 KiB granules, the latter unless physical addresses have 52 bits. -/
def type (d : LongDescriptor) : EntryType :=
  if validBits d.data = 1 then
    match d.grainSize with
    | .Grain4KB => if d.lookupLevel = .L0 ∨ d.lookupLevel = .L3 then .Invalid else .Block
    | .Grain16KB => if d.lookupLevel = .L2 then .Block else .Invalid
    | .Grain64KB =>
      if (d.lookupLevel = .L1 ∧ d.physAddrRange = 52) ∨ d.lookupLevel = .L2 then .Block else .Invalid
    | .ReservedGrain => .Invalid
  else if validBits d.data = 3 then
    if d.lookupLevel = .L3 then .Page else .Table
  else .Invalid

end LongDescriptor

/-! ### The injector -/

abbrev Byte := BitVec 8

structure PtwConfig where
  probability : ℚ
  num_bits : Int
  fault_mask : BitVec 64
  byte_offset : Int
  clear_valid_bit : Bool
  ptw_ecc : Bool
  first_tick : Nat
  last_tick : Nat
  max_faults : Nat
  uniform : Nat → ℚ

structure CHAOSPTW (cfg : PtwConfig) where
  rng : Rng
  faults_injected_count : Nat := 0
  numFaultsInjected : Nat := 0
  numSpuriousFaults : Nat := 0
  numBenignFlips : Nat := 0
  numEccCorrected : Nat := 0

def value (data : List Byte) : BitVec 64 := littleEndian 64 (fun b => data.getD b 0) data.length

def longDescInvalid (v : BitVec 64) : Bool := v &&& 3 = 0

def shortDescInvalid (v : BitVec 32) : Bool := v &&& 1 = 0

namespace CHAOSPTW

variable {cfg : PtwConfig}

def init (cfg : PtwConfig) (draw : Nat → Nat) : CHAOSPTW cfg := { rng := { draw := draw } }

def Open (s : CHAOSPTW cfg) (now : Nat) : Prop :=
  0 < cfg.probability ∧ cfg.first_tick ≤ now ∧ (cfg.last_tick = 0 ∨ now ≤ cfg.last_tick) ∧
  (cfg.max_faults = 0 ∨ s.faults_injected_count < cfg.max_faults)

instance (s : CHAOSPTW cfg) (now : Nat) : Decidable (Open s now) := inferInstanceAs (Decidable (_ ∧ _))

def gate (s : CHAOSPTW cfg) (now : Nat) : Bool × CHAOSPTW cfg :=
  if Open s now then (decide (cfg.uniform s.rng.next.1 < cfg.probability), { s with rng := s.rng.next.2 })
  else (false, s)

def becameInvalid (data : List Byte) : Bool :=
  if data.length = 8 then longDescInvalid (value data) else shortDescInvalid ((value data).setWidth 32)

def count (s : CHAOSPTW cfg) (became_invalid : Bool) : CHAOSPTW cfg :=
  let s : CHAOSPTW cfg := { s with
    numFaultsInjected := s.numFaultsInjected + 1
    faults_injected_count := s.faults_injected_count + 1 }
  if became_invalid then { s with numSpuriousFaults := s.numSpuriousFaults + 1 }
  else { s with numBenignFlips := s.numBenignFlips + 1 }

/-- The bytes without the valid bits: two bits of a long descriptor, one of a short one. -/
def clearValid (data : List Byte) : List Byte :=
  let clear_mask : BitVec 64 := if data.length = 8 then 3 else 1
  (List.range data.length).map (byteOf (value data &&& ~~~clear_mask))

def chooseOffset (s : CHAOSPTW cfg) (size : Nat) : Nat × Rng :=
  let (off, rng) : Int × Rng :=
    if cfg.byte_offset < 0 then ((s.rng.below size).1, (s.rng.below size).2) else (cfg.byte_offset, s.rng)
  ((if (size : Int) ≤ off then (size : Int) - 1 else off).toNat, rng)

def chooseMask (cfg : PtwConfig) (rng : Rng) : Byte × Rng :=
  if cfg.fault_mask ≠ 0 then (cfg.fault_mask.setWidth 8, rng) else rng.generateRandomMask cfg.num_bits 8

def flipBits (s : CHAOSPTW cfg) (data : List Byte) : List Byte × CHAOSPTW cfg :=
  let (off, rng) := chooseOffset s data.length
  let (mask, rng) := chooseMask cfg rng
  let s : CHAOSPTW cfg := { s with rng := rng }
  if mask = 0 then (data, s)
  else if cfg.ptw_ecc ∧ popcount mask < 2 then (data, { s with numEccCorrected := s.numEccCorrected + 1 })
  else
    let data := data.modify off (· ^^^ mask)
    (data, count s (becameInvalid data))

def corruptDescriptor (s : CHAOSPTW cfg) (data : List Byte) (now : Nat) : List Byte × CHAOSPTW cfg :=
  let (pass, s) := gate s now
  if !pass then (data, s)
  else if data.length = 0 then (data, s)
  else if cfg.clear_valid_bit then (clearValid data, count s (becameInvalid (clearValid data)))
  else flipBits s data

/-! ### The hook -/

def rawBytes (data : BitVec 64) : List Byte := (List.range 8).map (byteOf data)

/-- The part of `doLongDescriptor` up to the look at the type: the descriptor that the walker goes on with. -/
def doLongDescriptor (s : CHAOSPTW cfg) (d : LongDescriptor) (now : Nat) : LongDescriptor × CHAOSPTW cfg :=
  let r := corruptDescriptor s (rawBytes d.data) now
  ({ d with data := value r.1 }, r.2)

structure Fetch where
  desc : LongDescriptor
  now : Nat
  deriving DecidableEq, Repr

def step (s : CHAOSPTW cfg) (f : Fetch) : CHAOSPTW cfg := (doLongDescriptor s f.desc f.now).2

def run (s : CHAOSPTW cfg) (fs : List Fetch) : CHAOSPTW cfg := fs.foldl step s

end CHAOSPTW

end GemFI.Arm
