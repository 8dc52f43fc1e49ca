import GemFI.Lib.Bytes
import GemFI.Mem.Fault

/-!
# Faults of a register

What the register injectors have in common: the processor with its threads and its clock, and the faults.  The fault
types are those of the memory injectors; masks and values have 64 bits.
-/

namespace GemFI.Reg

open Mem (FaultType)
open Bytes

/-! ### The processor -/

/-- The processor and the parameters of the attacks.  The probability is not 0, or nothing would be scheduled. -/
structure InjectorConfig where
  numThreads : Nat
  hasContext : Nat → Bool
  hasIsa : Nat → Bool
  clockPeriod : Nat
  clockPeriod_pos : 0 < clockPeriod
  first_clock : Nat
  last_clock : Nat
  max_faults : Nat
  /-- The number of cycles that the geometric distribution makes of a draw. -/
  inter_fault_cycles_dist : Nat → Nat

namespace InjectorConfig

variable (cfg : InjectorConfig)

def clockEdge (now delay : Nat) : Nat := now + cfg.clockPeriod * delay

def curCycle (now : Nat) : Nat := now / cfg.clockPeriod

def active (halted : Nat → Bool) (tid : Nat) : Bool := cfg.hasContext tid && !halted tid

def anyActive (halted : Nat → Bool) : Bool := (List.range cfg.numThreads).any (cfg.active halted)

end InjectorConfig

/-! ### Values -/

def faulty (ty : FaultType) (mask val : BitVec 64) : BitVec 64 :=
  match ty with
  | .StuckAtZero => val &&& ~~~mask
  | .StuckAtOne => val ||| mask
  | .BitFlip => val ^^^ mask
  | .Random => val

def stuckForce (ty : FaultType) (mask : BitVec 64) : Option (Force 64) :=
  match ty with
  | .StuckAtZero => some ⟨mask, false⟩
  | .StuckAtOne => some ⟨mask, true⟩
  | _ => none

structure PermanentFault where
  fault_type : FaultType
  mask : BitVec 64
  update : Bool
  deriving DecidableEq, Repr

/-- The value after `checkPermanent` has applied the record to it. -/
def PermanentFault.reapply (fault : PermanentFault) (val : BitVec 64) : BitVec 64 :=
  match fault.fault_type with
  | .StuckAtZero => val &&& ~~~fault.mask
  | .StuckAtOne => val ||| fault.mask
  | _ => val

theorem getLsbD_faulty (ty : FaultType) (mask val : BitVec 64) {i : Nat} (hi : i < 64) :
    (faulty ty mask val).getLsbD i = if mask.getLsbD i then ty.faultBit (val.getLsbD i) else val.getLsbD i := by
  cases ty <;>
    simp only [faulty, FaultType.faultBit, BitVec.getLsbD_xor, BitVec.getLsbD_and, BitVec.getLsbD_or,
      BitVec.getLsbD_not, hi] <;>
    cases mask.getLsbD i <;> simp

theorem getLsbD_faulty_window (ty : FaultType) {mask window_mask : BitVec 64} (buf : Nat → BitVec 8) {n : Nat}
    (hn : n ≤ 8) (hmask : ∀ j, window_mask.getLsbD j = (mask.getLsbD j && decide (j < 8 * n))) (j : Nat) :
    (littleEndian 64 (byteOf (faulty ty window_mask (littleEndian 64 buf n))) n).getLsbD j =
      if j < 8 * n ∧ mask.getLsbD j = true then ty.faultBit ((littleEndian 64 buf n).getLsbD j)
      else (littleEndian 64 buf n).getLsbD j := by
  rw [getLsbD_littleEndian_byteOf]
  by_cases hj : j < 8 * n
  · rw [decide_eq_true hj, Bool.true_and, getLsbD_faulty _ _ _ (by omega), hmask, decide_eq_true hj, Bool.and_true]
    simp only [hj, true_and]
  · simp [hj, getLsbD_littleEndian]

theorem faulty_eq_apply {ty : FaultType} {mask : BitVec 64} {f : Force 64} (h : stuckForce ty mask = some f)
    (val : BitVec 64) : faulty ty mask val = f.apply val := by
  cases ty <;> simp only [stuckForce, Option.some.injEq, reduceCtorEq] at h <;> subst h <;> rfl

theorem reapply_eq_apply {fault : PermanentFault} {f : Force 64}
    (h : stuckForce fault.fault_type fault.mask = some f) (val : BitVec 64) : fault.reapply val = f.apply val := by
  obtain ⟨ty, mask, update⟩ := fault
  cases ty <;> simp only [stuckForce, Option.some.injEq, reduceCtorEq] at h <;> subst h <;> rfl

theorem stuckForce_mask {ty : FaultType} {mask : BitVec 64} {f : Force 64} (h : stuckForce ty mask = some f) :
    f.mask = mask := by
  cases ty <;> simp only [stuckForce, Option.some.injEq, reduceCtorEq] at h <;> subst h <;> rfl

theorem apply_apply (f : Force 64) (val : BitVec 64) : f.apply (f.apply val) = f.apply val := by
  refine BitVec.eq_of_getLsbD_eq fun i _ => ?_
  rw [Force.getLsbD_apply, Force.getLsbD_apply]
  split <;> rfl

end GemFI.Reg
