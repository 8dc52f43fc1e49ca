import GemFI.Lib.Ring
import GemFI.Reg.Fault
import GemFI.Lib.Bytes
import Mathlib.Algebra.Order.Field.Rat

/-!
# The injector CHAOSLSQFwd

The injector sits on the path from the store queue to a load.  `pickSource` may replace the data of the store by that
of a forwarding in its history, a ring of eight entries, and `corrupt` may then change the data that is delivered: as
a whole (a structural fault) or bit by bit.  Both ask the same gate, and both count on the same budget.

The data of a forwarding is a list of bytes, as long as the load; the pointer of the store is never null.  `forward`
is the part of `LSQUnit::read` for a load that a store covers.  For the statements an entry has the number of its
forwarding, and the forwardings are listed.  Probabilities and samples are rational numbers, and counters have no
bound.
-/

namespace GemFI.Lsq

open Mem (Rng FaultType)
open Bytes

inductive StructuralFault where
  | None | ByteLaneSkew | AllZero
  deriving DecidableEq, Repr

inductive SourceFault where
  | None | FwdSourceSub | StaleLineReplay | PhaseOffset
  deriving DecidableEq, Repr

structure FwdConfig where
  probability : ℚ
  fault_type_enum : FaultType
  fault_mask : BitVec 64
  mask_width : Int
  structural_fault_enum : StructuralFault
  source_fault_enum : SourceFault
  phase_offset : Int
  skew_bytes : Int
  num_bits_to_change : Int
  byte_offset : Int
  first_clock : Nat
  last_clock : Nat
  max_faults : Nat
  uniform : Nat → ℚ
  random_fault_distribution : Nat → Fin 3

abbrev Byte := BitVec 8

structure Forwarding where
  data : List Byte
  /-- The store is one of zeros, which has no data. -/
  isAllZeros : Bool := false
  now : Nat := 0
  deriving DecidableEq, Repr

namespace Forwarding

def size (f : Forwarding) : Nat := f.data.length

def bytes (f : Forwarding) : List Byte := if f.isAllZeros then List.replicate f.size 0 else f.data

end Forwarding

def HIST_CAP : Nat := 8

def HIST_BYTES : Nat := 64

structure HistEntry where
  data : List Byte := []
  size : Nat := 0
  valid : Bool := false
  event : Nat := 0
  deriving DecidableEq, Repr

structure CHAOSLSQFwd (cfg : FwdConfig) where
  hist : Ring HistEntry HIST_CAP := { slot := fun _ => {} }
  rng : Rng
  faults_injected_count : Nat := 0
  numFaultsInjected : Nat := 0
  numBitFlips : Nat := 0
  numStuckAtZero : Nat := 0
  numStuckAtOne : Nat := 0
  numStructuralByteLaneSkew : Nat := 0
  numStructuralAllZero : Nat := 0
  numFwdSourceSub : Nat := 0
  numStaleLineReplay : Nat := 0
  numPhaseOffset : Nat := 0
  past : List Forwarding := []

namespace CHAOSLSQFwd

variable {cfg : FwdConfig}

def init (cfg : FwdConfig) (draw : Nat → Nat) : CHAOSLSQFwd cfg := { rng := { draw := draw } }

/-! ### The gate -/

def Open (s : CHAOSLSQFwd cfg) (now : Nat) : Prop :=
  0 < cfg.probability ∧ cfg.first_clock ≤ now ∧ (cfg.last_clock = 0 ∨ now ≤ cfg.last_clock) ∧
  (cfg.max_faults = 0 ∨ s.faults_injected_count < cfg.max_faults)

instance (s : CHAOSLSQFwd cfg) (now : Nat) : Decidable (Open s now) := inferInstanceAs (Decidable (_ ∧ _))

def gate (s : CHAOSLSQFwd cfg) (now : Nat) : Bool × CHAOSLSQFwd cfg :=
  if Open s now then (decide (cfg.uniform s.rng.next.1 < cfg.probability), { s with rng := s.rng.next.2 })
  else (false, s)

def countInjected (s : CHAOSLSQFwd cfg) : CHAOSLSQFwd cfg :=
  { s with numFaultsInjected := s.numFaultsInjected + 1, faults_injected_count := s.faults_injected_count + 1 }

/-! ### The source -/

/-- The data of the forwarding goes into the next entry of the history, over the first bytes of what is there. -/
def record (s : CHAOSLSQFwd cfg) (f : Forwarding) : CHAOSLSQFwd cfg :=
  if 0 < f.size ∧ f.size ≤ HIST_BYTES then
    { s with hist := s.hist.write fun e =>
        { data := f.data ++ e.data.drop f.size, size := f.size, valid := true, event := s.past.length } }
  else s

def start_depth (cfg : FwdConfig) : Int := if cfg.source_fault_enum = .PhaseOffset then cfg.phase_offset else 0

/-- The entries in the order of the search: from `start_depth` to the depth of the oldest one. -/
def searched (s : CHAOSLSQFwd cfg) : List HistEntry :=
  (List.range (HIST_CAP - start_depth cfg).toNat).map fun (j : Nat) => s.hist.slot (s.hist.back (start_depth cfg + j))

def findStale (s : CHAOSLSQFwd cfg) (size : Nat) : Option HistEntry :=
  s.searched.find? fun e => e.valid && decide (size ≤ e.size)

def countSource (s : CHAOSLSQFwd cfg) : CHAOSLSQFwd cfg :=
  let s := countInjected s
  match cfg.source_fault_enum with
  | .FwdSourceSub => { s with numFwdSourceSub := s.numFwdSourceSub + 1 }
  | .StaleLineReplay => { s with numStaleLineReplay := s.numStaleLineReplay + 1 }
  | _ => { s with numPhaseOffset := s.numPhaseOffset + 1 }

/-- The state after the gate of `pickSource`, and the entry that replaces the data, if any. -/
def chosen (s : CHAOSLSQFwd cfg) (f : Forwarding) : Option HistEntry × CHAOSLSQFwd cfg :=
  let s := record s f
  if cfg.source_fault_enum = .None then (none, s)
  else
    let (pass, s) := gate s f.now
    if pass then (findStale s f.size, s) else (none, s)

def pickSource (s : CHAOSLSQFwd cfg) (f : Forwarding) : List Byte × CHAOSLSQFwd cfg :=
  match chosen s f with
  | (none, s) => (f.data, s)
  | (some stale, s) => (stale.data.take f.size, countSource s)

/-! ### The data -/

/-- The rotation of the byte lanes; lane `n` gets the byte of lane `n + k`. -/
def rotate (data : List Byte) (k : Nat) : List Byte :=
  (List.range data.length).map fun n => data.getD ((n + k) % data.length) 0

/-- The number of lanes to rotate by: the configured one, or one from 1 to 7; at least 1 and less than the size. -/
def skewOf (s : CHAOSLSQFwd cfg) (size : Nat) : Nat × Rng :=
  let (k, rng) : Int × Rng :=
    if cfg.skew_bytes = 0 then (1 + (s.rng.below 7).1, (s.rng.below 7).2) else (cfg.skew_bytes, s.rng)
  let k := if k < 1 then 1 else k
  ((if (size : Int) ≤ k then (size : Int) - 1 else k).toNat, rng)

def applyStructuralFault (s : CHAOSLSQFwd cfg) (data : List Byte) : List Byte × CHAOSLSQFwd cfg :=
  if data.length = 0 then (data, s)
  else
    match cfg.structural_fault_enum with
    | .ByteLaneSkew =>
      let (k, rng) := skewOf s data.length
      (rotate data k, countInjected { s with
        rng := rng, numStructuralByteLaneSkew := s.numStructuralByteLaneSkew + 1 })
    | .AllZero =>
      (List.replicate data.length 0, countInjected { s with numStructuralAllZero := s.numStructuralAllZero + 1 })
    | .None => (data, countInjected s)

def generateRandomMask (s : CHAOSLSQFwd cfg) : BitVec 64 × Rng :=
  let span := if 64 < cfg.mask_width * 8 then 64 else cfg.mask_width * 8
  s.rng.setBits span.toNat cfg.num_bits_to_change.toNat 0#64

def chooseOffset (s : CHAOSLSQFwd cfg) (size : Nat) : Nat × Rng :=
  let (off, rng) : Int × Rng :=
    if cfg.byte_offset < 0 then ((s.rng.below size).1, (s.rng.below size).2) else (cfg.byte_offset, s.rng)
  ((if (size : Int) ≤ off then (size : Int) - 1 else off).toNat, rng)

def windowWidth (cfg : FwdConfig) (off size : Nat) : Nat :=
  let width := if cfg.mask_width < 1 then 1 else cfg.mask_width
  let width := if 8 < width then 8 else width
  let width := if (size : Int) < off + width then (size : Int) - off else width
  (if width < 1 then 1 else width).toNat

def widthMask (mask : BitVec 64) (width : Nat) : BitVec 64 :=
  if 8 ≤ width then mask else mask &&& ((1#64 <<< (8 * width)) - 1#64)

def putWindow (data : List Byte) (off width : Nat) (win_val : BitVec 64) : List Byte :=
  (List.range width).foldl (fun data b => data.set (off + b) (byteOf win_val b)) data

def countType (s : CHAOSLSQFwd cfg) : FaultType → CHAOSLSQFwd cfg
  | .StuckAtZero => { s with numStuckAtZero := s.numStuckAtZero + 1 }
  | .StuckAtOne => { s with numStuckAtOne := s.numStuckAtOne + 1 }
  | .BitFlip => { s with numBitFlips := s.numBitFlips + 1 }
  | .Random => s

def bitFaults (s : CHAOSLSQFwd cfg) : Nat := s.numBitFlips + s.numStuckAtZero + s.numStuckAtOne

/-- The bit-level path of `corrupt`: the byte, the mask and the type are drawn in this order. -/
def corruptBits (s : CHAOSLSQFwd cfg) (data : List Byte) : List Byte × CHAOSLSQFwd cfg :=
  let (off, rng) := chooseOffset s data.length
  let s : CHAOSLSQFwd cfg := { s with rng := rng }
  let width := windowWidth cfg off data.length
  let (mask, rng) := if cfg.fault_mask ≠ 0 then (cfg.fault_mask, s.rng) else generateRandomMask s
  let (ty, rng) := cfg.fault_type_enum.choose cfg.random_fault_distribution rng
  let win_val := littleEndian 64 (fun b => data.getD (off + b) 0) width
  (putWindow data off width (Reg.faulty ty (widthMask mask width) win_val),
    countInjected (countType { s with rng := rng } ty))

def corrupt (s : CHAOSLSQFwd cfg) (data : List Byte) (now : Nat) : List Byte × CHAOSLSQFwd cfg :=
  let (pass, s) := gate s now
  if !pass then (data, s)
  else if data.length = 0 then (data, s)
  else if cfg.structural_fault_enum ≠ .None then applyStructuralFault s data
  else corruptBits s data

/-! ### The load-store queue -/

/-- The source of the copy to the load; a store of zeros is not shown to the injector. -/
def source (s : CHAOSLSQFwd cfg) (f : Forwarding) : List Byte × CHAOSLSQFwd cfg :=
  if f.isAllZeros then (f.bytes, s) else pickSource s f

/-- The forwarding in `LSQUnit::read`, with the data that the load gets.  The injector is attached if its probability is
positive. -/
def read (s : CHAOSLSQFwd cfg) (f : Forwarding) : List Byte × CHAOSLSQFwd cfg :=
  if 0 < cfg.probability then
    let src := source s f
    corrupt src.2 src.1 f.now
  else (f.bytes, s)

def forward (s : CHAOSLSQFwd cfg) (f : Forwarding) : CHAOSLSQFwd cfg :=
  { (read s f).2 with past := s.past ++ [f] }

end CHAOSLSQFwd

end GemFI.Lsq
