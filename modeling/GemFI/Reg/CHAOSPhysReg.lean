import GemFI.Lib.Clock
import GemFI.Lib.Run
import GemFI.Lib.Timer
import GemFI.Reg.PhysRegFile
import Mathlib.Data.List.Sort

/-!
# The injector CHAOSPhysReg

An attack resolves a physical register for every active thread and corrupts it: a scalar register as a whole, a vector
register in one lane.  A stuck-at fault is entered in a table keyed by thread and index, without the class; one in a
scalar register also becomes the stuck target of the register file.  `checkPermanent` applies the table once more to
the integer file.

The rename maps are those of the program, already flattened; the log, the liveness probe that only feeds it, and the
polling of the read trace are left out.  The list of the injections is kept for the statements.
-/

namespace GemFI.Reg

open Mem (Rng FaultType)
open Bytes PhysRegFile

inductive Mode where
  | Phys | ArchFrontend | ArchCommit
  deriving DecidableEq, Repr

inductive RegClassSel where
  | Integer | FloatingPoint | Vector | Both
  deriving DecidableEq, Repr

structure PhysRegConfig extends InjectorConfig where
  numPhysRegs : RegClassType → Nat
  numArchRegs : Nat → RegClassType → Nat
  vecRegBytes : Nat
  fi_mode : Mode
  target_phys_idx : Int
  target_arch_idx : Int
  reg_target_class : RegClassSel
  vec_lane_width : Int
  vec_lane_offset : Int
  num_bits_to_change : Int
  fault_type_enum : FaultType
  fault_mask : BitVec 64
  trigger_value_mask : BitVec 64
  trigger_value_pattern : BitVec 64

/-- An injection: the register, the type, and the mask with the bit of the register where it starts. -/
structure Injected where
  slot : Slot
  fault_type : FaultType
  first : Nat
  mask : BitVec 64
  deriving DecidableEq, Repr

abbrev RenameMap := Nat → RegClassType → Nat → Option Nat

/-- The map `permanent_faults`, in the order of its keys: thread and index. -/
abbrev FaultMap := List ((Nat × Nat) × PermanentFault)

structure CHAOSPhysReg (cfg : PhysRegConfig) where
  regFile : PhysRegFile cfg.vecRegBytes
  frontRenameMap : RenameMap := fun _ _ _ => none
  commitRenameMap : RenameMap := fun _ _ _ => none
  halted : Nat → Bool := fun _ => false
  rng : Rng
  permanent_faults : FaultMap := []
  faults_injected_count : Nat := 0
  numFaultsInjected : Nat := 0
  numBitFlips : Nat := 0
  numStuckAtZero : Nat := 0
  numStuckAtOne : Nat := 0
  numPermanentFaults : Nat := 0
  attackEvent : Option Pending := none
  periodicCheck : Option Pending := none
  injections : List Injected := []

namespace CHAOSPhysReg

variable {cfg : PhysRegConfig}

def scheduleAttackEvent (s : CHAOSPhysReg cfg) (now delay : Nat) : CHAOSPhysReg cfg :=
  { s with attackEvent := Pending.schedule s.attackEvent (cfg.clockEdge now delay) }

def scheduleCheckPermanentFault (s : CHAOSPhysReg cfg) (now delay : Nat) : CHAOSPhysReg cfg :=
  { s with periodicCheck := Pending.schedule s.periodicCheck (cfg.clockEdge now delay) }

def unscheduleAttackEvent (s : CHAOSPhysReg cfg) : CHAOSPhysReg cfg :=
  { s with attackEvent := Pending.squash s.attackEvent, periodicCheck := Pending.squash s.periodicCheck }

/-- The injector as the constructor leaves it, at tick 0, with a register file that has no target and no trace. -/
def init (cfg : PhysRegConfig) (reg : ScalarClass → Nat → BitVec 64) (vecReg : Nat → Nat → BitVec 8)
    (draw : Nat → Nat) : CHAOSPhysReg cfg :=
  let s : CHAOSPhysReg cfg := { regFile := { reg := reg, vecReg := vecReg }, rng := { draw := draw } }
  let raw := s.rng.next
  let s := scheduleAttackEvent { s with rng := raw.2 } 0 (cfg.first_clock + cfg.inter_fault_cycles_dist raw.1)
  scheduleCheckPermanentFault s 0 (cfg.first_clock + 1)

/-! ### The target -/

def chooseClass (cfg : PhysRegConfig) (rng : Rng) : RegClassType × Rng :=
  match cfg.reg_target_class with
  | .Integer => (.scalar .IntRegClass, rng)
  | .FloatingPoint => (.scalar .FloatRegClass, rng)
  | .Vector => (.VecRegClass, rng)
  | .Both =>
    match (rng.below 3).1 with
    | 0 => (.scalar .IntRegClass, (rng.below 3).2)
    | 1 => (.scalar .FloatRegClass, (rng.below 3).2)
    | _ => (.VecRegClass, (rng.below 3).2)

/-- The directed physical register, or a random one; none if the class has no such register. -/
def physTarget (cfg : PhysRegConfig) (target_class : RegClassType) (rng : Rng) : Option Nat × Rng :=
  let n := cfg.numPhysRegs target_class
  if n = 0 then (none, rng)
  else
    let chosen := if 0 ≤ cfg.target_phys_idx then (cfg.target_phys_idx.toNat, rng) else rng.below n
    if n ≤ chosen.1 then (none, chosen.2) else (some chosen.1, chosen.2)

def archTarget (cfg : PhysRegConfig) (map : RenameMap) (tid : Nat) (target_class : RegClassType) : Option Nat :=
  if !cfg.hasContext tid || !cfg.hasIsa tid then none
  else if cfg.numArchRegs tid target_class = 0 then none
  else if cfg.target_arch_idx < 0 ∨ (cfg.numArchRegs tid target_class : Int) ≤ cfg.target_arch_idx then none
  else map tid target_class cfg.target_arch_idx.toNat

def chooseTarget (s : CHAOSPhysReg cfg) (tid : Nat) : Option Slot × Rng :=
  let cls := chooseClass cfg s.rng
  let idx :=
    match cfg.fi_mode with
    | .Phys => physTarget cfg cls.1 cls.2
    | .ArchFrontend => (archTarget cfg s.frontRenameMap tid cls.1, cls.2)
    | .ArchCommit => (archTarget cfg s.commitRenameMap tid cls.1, cls.2)
  (idx.1.map fun i => (cls.1, i), idx.2)

/-- The type of the fault.  The distribution of the random type never gets its weights: it always gives the first
type, without a draw. -/
def chosenType (cfg : PhysRegConfig) : FaultType :=
  if cfg.fault_type_enum = .Random then .BitFlip else cfg.fault_type_enum

def generateRandomMask (rng : Rng) (bits_to_change : Int) (len : Nat) : BitVec 64 × Rng :=
  rng.setBits len bits_to_change.toNat 0#64

def drawMask (cfg : PhysRegConfig) (rng : Rng) : BitVec 64 × Rng :=
  if cfg.fault_mask ≠ 0#64 then (cfg.fault_mask, rng) else generateRandomMask rng cfg.num_bits_to_change 64

/-! ### One fault -/

def keyLe (a b : (Nat × Nat) × PermanentFault) : Prop := a.1.1 < b.1.1 ∨ (a.1.1 = b.1.1 ∧ a.1.2 ≤ b.1.2)

instance : DecidableRel keyLe := fun a b => inferInstanceAs (Decidable (a.1.1 < b.1.1 ∨ (a.1.1 = b.1.1 ∧ a.1.2 ≤ b.1.2)))

def record (faults : FaultMap) (key : Nat × Nat) (ty : FaultType) (mask : BitVec 64) : FaultMap :=
  match ty with
  | .StuckAtZero | .StuckAtOne => (faults.filter fun e => e.1 ≠ key).orderedInsert keyLe (key, ⟨ty, mask, true⟩)
  | _ => faults

def countFault (s : CHAOSPhysReg cfg) (key : Nat × Nat) (ty : FaultType) (mask : BitVec 64) : CHAOSPhysReg cfg :=
  let s := { s with permanent_faults := record s.permanent_faults key ty mask }
  match ty with
  | .StuckAtZero =>
    { s with numStuckAtZero := s.numStuckAtZero + 1, numPermanentFaults := s.numPermanentFaults + 1 }
  | .StuckAtOne => { s with numStuckAtOne := s.numStuckAtOne + 1, numPermanentFaults := s.numPermanentFaults + 1 }
  | .BitFlip => { s with numBitFlips := s.numBitFlips + 1 }
  | .Random => s

def finish (s : CHAOSPhysReg cfg) (f : Injected) : CHAOSPhysReg cfg :=
  { s with
    regFile := s.regFile.setReadTraceTarget f.slot
    numFaultsInjected := s.numFaultsInjected + 1
    faults_injected_count := s.faults_injected_count + 1
    injections := s.injections ++ [f] }

def arm {n : Nat} (r : PhysRegFile n) (cls : ScalarClass) (idx : Nat) (ty : FaultType) (mask : BitVec 64) :
    PhysRegFile n :=
  match ty with
  | .StuckAtZero => r.setStuckTarget ⟨.scalar cls, idx, mask, false⟩
  | .StuckAtOne => r.setStuckTarget ⟨.scalar cls, idx, mask, true⟩
  | _ => r

/-- The value of the register does not have the pattern that triggers the fault. -/
def triggerMiss (cfg : PhysRegConfig) (val : BitVec 64) : Prop :=
  cfg.trigger_value_mask ≠ 0#64 ∧ val &&& cfg.trigger_value_mask ≠ cfg.trigger_value_pattern

instance (val : BitVec 64) : Decidable (triggerMiss cfg val) := inferInstanceAs (Decidable (_ ∧ _))

def injectScalar (s : CHAOSPhysReg cfg) (tid : Nat) (cls : ScalarClass) (idx : Nat) (ty : FaultType)
    (mask : BitVec 64) : CHAOSPhysReg cfg :=
  let read := s.regFile.getReg cls idx
  if triggerMiss cfg read.1 then { s with regFile := read.2 }
  else
    let r := (arm read.2 cls idx ty mask).setReg cls idx (faulty ty mask read.1)
    finish { countFault s (tid, idx) ty mask with regFile := r } ⟨(.scalar cls, idx), ty, 0, mask⟩

def laneBytes (cfg : PhysRegConfig) : Nat :=
  if cfg.vec_lane_width = 8 then 1
  else if cfg.vec_lane_width = 16 then 2
  else if cfg.vec_lane_width = 64 then 8
  else 4

def chooseLane (cfg : PhysRegConfig) (rng : Rng) : Nat × Rng :=
  let max_lanes := max (max cfg.vecRegBytes 8 / laneBytes cfg) 1
  if 0 ≤ cfg.vec_lane_offset ∧ cfg.vec_lane_offset < max_lanes then (cfg.vec_lane_offset.toNat, rng)
  else rng.below max_lanes

def laneMask (cfg : PhysRegConfig) (mask : BitVec 64) : BitVec 64 :=
  if 8 * laneBytes cfg < 64 then mask &&& ((1#64 <<< (8 * laneBytes cfg)) - 1#64) else mask

def putLane (buf : Nat → BitVec 8) (start bytes : Nat) (lane_val : BitVec 64) (b : Nat) : BitVec 8 :=
  if start ≤ b ∧ b < start + bytes then byteOf lane_val (b - start) else buf b

def injectVector (s : CHAOSPhysReg cfg) (tid idx : Nat) (ty : FaultType) (mask : BitVec 64) : CHAOSPhysReg cfg :=
  let read := s.regFile.getVec idx
  let lane := chooseLane cfg s.rng
  let start := lane.1 * laneBytes cfg
  let lane_val := littleEndian 64 (fun b => read.1 (start + b)) (laneBytes cfg)
  let lane_mask := laneMask cfg mask
  let buf := putLane read.1 start (laneBytes cfg) (faulty ty lane_mask lane_val)
  finish { countFault { s with rng := lane.2 } (tid, idx) ty mask with
    regFile := read.2.setRegBuf .VecRegClass idx buf } ⟨(.VecRegClass, idx), ty, 8 * start, lane_mask⟩

def processFault (s : CHAOSPhysReg cfg) (tid : Nat) : CHAOSPhysReg cfg :=
  let target := chooseTarget s tid
  match target.1 with
  | none => { s with rng := target.2 }
  | some slot =>
    let mask := drawMask cfg target.2
    match slot.1 with
    | .scalar cls => injectScalar { s with rng := mask.2 } tid cls slot.2 (chosenType cfg) mask.1
    | .VecRegClass => injectVector { s with rng := mask.2 } tid slot.2 (chosenType cfg) mask.1

/-! ### The handlers -/

def attackThread (s : CHAOSPhysReg cfg) (tid : Nat) : CHAOSPhysReg cfg :=
  if cfg.active s.halted tid then processFault s tid else s

def attackThreads (s : CHAOSPhysReg cfg) : CHAOSPhysReg cfg := (List.range cfg.numThreads).foldl attackThread s

def Spent (s : CHAOSPhysReg cfg) : Prop := cfg.max_faults ≠ 0 ∧ cfg.max_faults ≤ s.faults_injected_count

instance (s : CHAOSPhysReg cfg) : Decidable (Spent s) := inferInstanceAs (Decidable (_ ∧ _))

/-- The rest of `attackCheck`: the next attack is scheduled, or both events are squashed. -/
def reschedule (s : CHAOSPhysReg cfg) (now : Nat) : CHAOSPhysReg cfg :=
  if Spent s then unscheduleAttackEvent s
  else if cfg.anyActive s.halted then
    let raw := s.rng.next
    let next := cfg.inter_fault_cycles_dist raw.1
    let s := { s with rng := raw.2 }
    if cfg.last_clock = 0 ∨ next + cfg.curCycle now ≤ cfg.last_clock then scheduleAttackEvent s now next else s
  else unscheduleAttackEvent s

def attackCheck (s : CHAOSPhysReg cfg) (now : Nat) : CHAOSPhysReg cfg := reschedule (attackThreads s) now

/-- The entries that `checkPermanent` applies: to the integer register of their index, whatever their class was. -/
def pending (cfg : PhysRegConfig) (e : (Nat × Nat) × PermanentFault) : Bool :=
  e.2.update && decide (e.1.2 < cfg.numPhysRegs (.scalar .IntRegClass))

def reapplyEntry {n : Nat} (r : PhysRegFile n) (e : (Nat × Nat) × PermanentFault) : PhysRegFile n :=
  let read := r.getReg .IntRegClass e.1.2
  read.2.setReg .IntRegClass e.1.2 (e.2.reapply read.1)

def checkEntry (now : Nat) (s : CHAOSPhysReg cfg) (e : (Nat × Nat) × PermanentFault) : CHAOSPhysReg cfg :=
  if pending cfg e then scheduleCheckPermanentFault { s with regFile := reapplyEntry s.regFile e } now 1 else s

/-- An entry that has been applied is not applied again. -/
def clearUpdate (cfg : PhysRegConfig) (e : (Nat × Nat) × PermanentFault) : (Nat × Nat) × PermanentFault :=
  if pending cfg e then (e.1, { e.2 with update := false }) else e

def checkPermanent (s : CHAOSPhysReg cfg) (now : Nat) : CHAOSPhysReg cfg :=
  { s.permanent_faults.foldl (checkEntry now) s with
    permanent_faults := s.permanent_faults.map (clearUpdate cfg) }

/-! ### Runs -/

/-- The events of a run: the handlers, the accesses of the program, its renaming, and the state of its threads. -/
inductive Event where
  | attack
  | check
  | op (op : RegOp)
  | rename (front commit : RenameMap)
  | setHalted (tid : Nat) (halted : Bool)

protected def access (s : CHAOSPhysReg cfg) (op : RegOp) : CHAOSPhysReg cfg :=
  { s with regFile := s.regFile.access op }

protected def accesses (s : CHAOSPhysReg cfg) (ops : List RegOp) : CHAOSPhysReg cfg := ops.foldl CHAOSPhysReg.access s

/-- A handler runs when its event is in the queue and not squashed. -/
def step (s : CHAOSPhysReg cfg) : Event → CHAOSPhysReg cfg
  | .attack =>
    match s.attackEvent with
    | none => s
    | some p =>
      let s := { s with attackEvent := none }
      if p.squashed then s else attackCheck s p.tick
  | .check =>
    match s.periodicCheck with
    | none => s
    | some p =>
      let s := { s with periodicCheck := none }
      if p.squashed then s else checkPermanent s p.tick
  | .op op => s.access op
  | .rename front commit => { s with frontRenameMap := front, commitRenameMap := commit }
  | .setHalted tid halted => { s with halted := Function.update s.halted tid halted }

def run (s : CHAOSPhysReg cfg) (es : List Event) : CHAOSPhysReg cfg := es.foldl step s

def timing (cfg : PhysRegConfig) : Timing (CHAOSPhysReg cfg) Event where
  step := step
  enabled s now
    | .attack => Pending.isAt s.attackEvent now
    | .check => Pending.isAt s.periodicCheck now
    | _ => true
  due s now := Pending.isAt s.attackEvent now || Pending.isAt s.periodicCheck now

/-! ### What the handlers do to the registers, the table and the log -/

structure SameCore (s t : CHAOSPhysReg cfg) : Prop where
  regs : SameRegs s.regFile t.regFile
  table : t.permanent_faults = s.permanent_faults
  log : t.injections = s.injections

variable (s : CHAOSPhysReg cfg)

theorem countFault_frame (key : Nat × Nat) (ty : FaultType) (mask : BitVec 64) :
    (countFault s key ty mask).permanent_faults = record s.permanent_faults key ty mask ∧
    (countFault s key ty mask).injections = s.injections ∧
    (countFault s key ty mask).faults_injected_count = s.faults_injected_count ∧
    (countFault s key ty mask).halted = s.halted ∧ (countFault s key ty mask).attackEvent = s.attackEvent ∧
    (countFault s key ty mask).periodicCheck = s.periodicCheck := by
  cases ty <;> exact ⟨rfl, rfl, rfl, rfl, rfl, rfl⟩

def armedBy (stuck : Option StuckTarget) (cls : ScalarClass) (idx : Nat) (ty : FaultType) (mask : BitVec 64) :
    Option StuckTarget :=
  match stuckForce ty mask with
  | none => stuck
  | some f => some ⟨.scalar cls, idx, f.mask, f.one⟩

theorem arm_spec {n : Nat} (r : PhysRegFile n) (cls : ScalarClass) (idx : Nat) (ty : FaultType) (mask : BitVec 64) :
    (arm r cls idx ty mask).reg = r.reg ∧ (arm r cls idx ty mask).vecReg = r.vecReg ∧
    (arm r cls idx ty mask).stuck = armedBy r.stuck cls idx ty mask := by
  cases ty <;> exact ⟨rfl, rfl, rfl⟩

theorem injectScalar_spec {s : CHAOSPhysReg cfg} {cls : ScalarClass} {idx : Nat}
    (hhit : ¬triggerMiss cfg (s.regFile.reg cls idx)) (tid : Nat) (ty : FaultType) (mask : BitVec 64) :
    (injectScalar s tid cls idx ty mask).injections = s.injections ++ [⟨(.scalar cls, idx), ty, 0, mask⟩] ∧
    (injectScalar s tid cls idx ty mask).permanent_faults = record s.permanent_faults (tid, idx) ty mask ∧
    (injectScalar s tid cls idx ty mask).regFile.vecReg = s.regFile.vecReg ∧
    (injectScalar s tid cls idx ty mask).regFile.stuck = armedBy s.regFile.stuck cls idx ty mask ∧
    (injectScalar s tid cls idx ty mask).regFile.reg =
      ((arm s.regFile cls idx ty mask).setReg cls idx (faulty ty mask (s.regFile.reg cls idx))).reg := by
  obtain ⟨hreg, hvec, hstuck⟩ := s.regFile.countRead_same (.scalar cls, idx)
  obtain ⟨areg, avec, astuck⟩ := arm_spec (s.regFile.countRead (.scalar cls, idx)) cls idx ty mask
  obtain ⟨breg, -, bstuck⟩ := arm_spec s.regFile cls idx ty mask
  obtain ⟨ctable, clog, -⟩ := s.countFault_frame (tid, idx) ty mask
  obtain ⟨fvec, fstuck⟩ := (arm (s.regFile.countRead (.scalar cls, idx)) cls idx ty mask).setReg_frame cls idx
    (faulty ty mask (s.regFile.reg cls idx))
  have heq : injectScalar s tid cls idx ty mask = finish { countFault s (tid, idx) ty mask with
      regFile := (arm (s.regFile.countRead (.scalar cls, idx)) cls idx ty mask).setReg cls idx
        (faulty ty mask (s.regFile.reg cls idx)) } ⟨(.scalar cls, idx), ty, 0, mask⟩ := if_neg hhit
  rw [heq]
  refine ⟨congrArg (· ++ _) clog, ctable, fvec.trans (avec.trans hvec), fstuck.trans (by rw [astuck, hstuck]), ?_⟩
  funext c i
  refine (setReg_reg ..).trans ((setReg_reg ..).trans ?_).symm
  rw [areg, breg, hreg, stick_congr (astuck.trans ((congrArg (armedBy · cls idx ty mask) hstuck).trans bstuck.symm))]

theorem injectVector_spec (tid idx : Nat) (ty : FaultType) (mask : BitVec 64) :
    ∃ start buf, (injectVector s tid idx ty mask).injections =
        s.injections ++ [⟨(.VecRegClass, idx), ty, 8 * start, laneMask cfg mask⟩] ∧
      (injectVector s tid idx ty mask).permanent_faults = record s.permanent_faults (tid, idx) ty mask ∧
      (injectVector s tid idx ty mask).regFile.reg = s.regFile.reg ∧
      (injectVector s tid idx ty mask).regFile.stuck = s.regFile.stuck ∧
      (injectVector s tid idx ty mask).regFile.vecReg = (s.regFile.storeVec idx buf).vecReg ∧
      buf = putLane (s.regFile.getVec idx).1 start (laneBytes cfg) (faulty ty (laneMask cfg mask)
        (littleEndian 64 (fun b => (s.regFile.getVec idx).1 (start + b)) (laneBytes cfg))) ∧
      start = (chooseLane cfg s.rng).1 * laneBytes cfg := by
  obtain ⟨hreg, hvec, hstuck⟩ := s.regFile.countRead_same (.VecRegClass, idx)
  obtain ⟨s', hs'⟩ : ∃ s' : CHAOSPhysReg cfg, s' = { s with rng := (chooseLane cfg s.rng).2 } := ⟨_, rfl⟩
  obtain ⟨ctable, clog, -⟩ := s'.countFault_frame (tid, idx) ty mask
  obtain ⟨start, hstart⟩ : ∃ start, start = (chooseLane cfg s.rng).1 * laneBytes cfg := ⟨_, rfl⟩
  obtain ⟨buf, hbuf⟩ : ∃ buf, buf = putLane (s.regFile.getVec idx).1 start (laneBytes cfg)
    (faulty ty (laneMask cfg mask)
      (littleEndian 64 (fun b => (s.regFile.getVec idx).1 (start + b)) (laneBytes cfg))) := ⟨_, rfl⟩
  obtain ⟨vreg, vvec, vstuck⟩ := (s.regFile.countRead (.VecRegClass, idx)).setVec_frame idx buf
  have heq : injectVector s tid idx ty mask = finish { countFault s' (tid, idx) ty mask with
      regFile := (s.regFile.countRead (.VecRegClass, idx)).setRegBuf .VecRegClass idx buf }
      ⟨(.VecRegClass, idx), ty, 8 * start, laneMask cfg mask⟩ := by
    rw [hs', hbuf, hstart]
    rfl
  rw [hs'] at ctable clog
  refine ⟨start, buf, ?_⟩
  rw [heq, hs']
  exact ⟨congrArg (· ++ _) clog, ctable, vreg.trans hreg, vstuck.trans hstuck,
    vvec.trans (by simp only [storeVec, hvec]), hbuf, hstart⟩

theorem laneBytes_cases (cfg : PhysRegConfig) :
    laneBytes cfg = 1 ∨ laneBytes cfg = 2 ∨ laneBytes cfg = 4 ∨ laneBytes cfg = 8 := by
  unfold laneBytes
  repeat' split
  all_goals simp

theorem getLsbD_laneMask (cfg : PhysRegConfig) (mask : BitVec 64) (i : Nat) :
    (laneMask cfg mask).getLsbD i = (mask.getLsbD i && decide (i < 8 * laneBytes cfg)) := by
  unfold laneMask
  split
  · rename_i hlane
    rw [BitVec.getLsbD_and, getLsbD_shiftOne_sub_one hlane]
  · rename_i hlane
    by_cases hi : i < 64
    · rw [decide_eq_true (by omega), Bool.and_true]
    · rw [BitVec.getLsbD_of_ge _ _ (by omega), Bool.false_and]

theorem checkPermanent_spec (now : Nat) :
    (checkPermanent s now).regFile = (s.permanent_faults.filter (pending cfg)).foldl reapplyEntry s.regFile ∧
    (checkPermanent s now).permanent_faults = s.permanent_faults.map (clearUpdate cfg) ∧
    (checkPermanent s now).injections = s.injections ∧
    (checkPermanent s now).faults_injected_count = s.faults_injected_count ∧
    (checkPermanent s now).attackEvent = s.attackEvent := by
  have hloop : ∀ (l : FaultMap) (t : CHAOSPhysReg cfg),
      (l.foldl (checkEntry now) t).regFile = (l.filter (pending cfg)).foldl reapplyEntry t.regFile ∧
      (l.foldl (checkEntry now) t).injections = t.injections ∧
      (l.foldl (checkEntry now) t).faults_injected_count = t.faults_injected_count ∧
      (l.foldl (checkEntry now) t).attackEvent = t.attackEvent := by
    intro l
    induction l with
    | nil => exact fun t => ⟨rfl, rfl, rfl, rfl⟩
    | cons e l ih =>
      intro t
      obtain ⟨h1, h2, h3, h4⟩ := ih (checkEntry now t e)
      rw [List.foldl_cons, h1, h2, h3, h4]
      cases hpending : pending cfg e <;> simp [checkEntry, hpending, scheduleCheckPermanentFault]
  obtain ⟨h1, h2, h3, h4⟩ := hloop s.permanent_faults s
  exact ⟨h1, rfl, h2, h3, h4⟩

theorem processFault_keeps {J : CHAOSPhysReg cfg → Prop} (hcore : ∀ s t, SameCore s t → J s → J t)
    (hscalar : ∀ s tid cls idx ty mask, ¬triggerMiss cfg (s.regFile.reg cls idx) → J s →
      J (injectScalar s tid cls idx ty mask))
    (hvector : ∀ s tid idx ty mask, J s → J (injectVector s tid idx ty mask))
    {s : CHAOSPhysReg cfg} (h : J s) (tid : Nat) : J (processFault s tid) := by
  have hrng : ∀ rng, J { s with rng := rng } := fun rng => hcore s _ ⟨⟨rfl, rfl, rfl⟩, rfl, rfl⟩ h
  unfold processFault
  dsimp only
  split
  · exact hrng _
  · split
    · rename_i slot _ _ cls _
      by_cases hmiss : triggerMiss cfg (s.regFile.reg cls slot.2)
      · -- only the read is counted
        refine hcore s _ ?_ h
        have heq : injectScalar { s with rng := (drawMask cfg (s.chooseTarget tid).2).2 } tid cls slot.2
            (chosenType cfg) (drawMask cfg (s.chooseTarget tid).2).1 = { s with
          rng := (drawMask cfg (s.chooseTarget tid).2).2
          regFile := s.regFile.countRead (.scalar cls, slot.2) } := if_pos hmiss
        rw [heq]
        exact ⟨s.regFile.countRead_same _, rfl, rfl⟩
      · exact hscalar _ tid cls slot.2 _ _ hmiss (hrng _)
    · exact hvector _ tid _ _ _ (hrng _)

theorem run_keeps {J : CHAOSPhysReg cfg → Prop} (hcore : ∀ s t, SameCore s t → J s → J t)
    (hscalar : ∀ s tid cls idx ty mask, ¬triggerMiss cfg (s.regFile.reg cls idx) → J s →
      J (injectScalar s tid cls idx ty mask))
    (hvector : ∀ s tid idx ty mask, J s → J (injectVector s tid idx ty mask))
    (hcheck : ∀ s now, J s → J (checkPermanent s now)) (haccess : ∀ s op, J s → J (s.access op))
    {s : CHAOSPhysReg cfg} (h : J s) (es : List Event) : J (run s es) := by
  have hattack : ∀ s now, J s → J (attackCheck s now) := by
    intro s now h
    have hthreads : J (attackThreads s) := by
      refine List.foldlRecOn (motive := J) _ attackThread h fun t ht tid _ => ?_
      unfold attackThread
      split
      · exact processFault_keeps hcore hscalar hvector ht tid
      · exact ht
    refine hcore _ _ ?_ hthreads
    unfold attackCheck reschedule
    dsimp only
    repeat' split
    all_goals exact ⟨⟨rfl, rfl, rfl⟩, rfl, rfl⟩
  refine List.foldlRecOn (motive := J) es step h fun t ht e _ => ?_
  cases e with
  | attack =>
    dsimp only [step]
    split
    · exact ht
    · have hnone : J { t with attackEvent := none } := hcore t _ ⟨⟨rfl, rfl, rfl⟩, rfl, rfl⟩ ht
      split
      · exact hnone
      · exact hattack _ _ hnone
  | check =>
    dsimp only [step]
    split
    · exact ht
    · have hnone : J { t with periodicCheck := none } := hcore t _ ⟨⟨rfl, rfl, rfl⟩, rfl, rfl⟩ ht
      split
      · exact hnone
      · exact hcheck _ _ hnone
  | op op => exact haccess t op ht
  | rename front commit => exact hcore t _ ⟨⟨rfl, rfl, rfl⟩, rfl, rfl⟩ ht
  | setHalted tid halted => exact hcore t _ ⟨⟨rfl, rfl, rfl⟩, rfl, rfl⟩ ht

/-! ### What the attack does to the count and the queue -/

/-- The thread has a target, and the value of a scalar register does not fail to trigger the fault: a fault is counted. -/
def targetHit (s : CHAOSPhysReg cfg) (tid : Nat) : Bool :=
  (chooseTarget s tid).1.any fun slot =>
    match slot.1 with
    | .scalar cls => !decide (triggerMiss cfg (s.regFile.reg cls slot.2))
    | .VecRegClass => true

theorem processFault_queue (tid : Nat) :
    (processFault s tid).halted = s.halted ∧ (processFault s tid).attackEvent = s.attackEvent ∧
    (processFault s tid).faults_injected_count = s.faults_injected_count + (targetHit s tid).toNat := by
  have hfinish : ∀ (t : CHAOSPhysReg cfg) key ty mask (r : PhysRegFile cfg.vecRegBytes) f,
      (finish { countFault t key ty mask with regFile := r } f).halted = t.halted ∧
      (finish { countFault t key ty mask with regFile := r } f).attackEvent = t.attackEvent ∧
      (finish { countFault t key ty mask with regFile := r } f).faults_injected_count = t.faults_injected_count + 1 := by
    intro t key ty mask r f
    obtain ⟨-, -, hcount, hhalted, hattack, -⟩ := t.countFault_frame key ty mask
    exact ⟨hhalted, hattack, congrArg (· + 1) hcount⟩
  have hscalar : ∀ (t : CHAOSPhysReg cfg) cls idx ty mask,
      (injectScalar t tid cls idx ty mask).halted = t.halted ∧
      (injectScalar t tid cls idx ty mask).attackEvent = t.attackEvent ∧
      (injectScalar t tid cls idx ty mask).faults_injected_count =
        t.faults_injected_count + (!decide (triggerMiss cfg (t.regFile.reg cls idx))).toNat := by
    intro t cls idx ty mask
    by_cases hmiss : triggerMiss cfg (t.regFile.reg cls idx)
    · rw [decide_eq_true hmiss, injectScalar, if_pos (show triggerMiss cfg (t.regFile.getReg cls idx).1 from hmiss)]
      exact ⟨rfl, rfl, rfl⟩
    · rw [decide_eq_false hmiss, injectScalar, if_neg (show ¬triggerMiss cfg (t.regFile.getReg cls idx).1 from hmiss)]
      exact hfinish t _ _ _ _ _
  unfold processFault targetHit
  dsimp only
  cases htarget : (chooseTarget s tid).1 with
  | none => exact ⟨rfl, rfl, rfl⟩
  | some slot =>
    obtain ⟨cls | _, idx⟩ := slot
    · exact hscalar _ cls idx _ _
    · exact hfinish { s with rng := (chooseLane cfg (drawMask cfg (chooseTarget s tid).2).2).2 } _ _ _ _ _

def hit (s : CHAOSPhysReg cfg) (tid : Nat) : Bool := cfg.active s.halted tid && targetHit s tid

def hits (s : CHAOSPhysReg cfg) : Nat := countAlong hit attackThread s (List.range cfg.numThreads)

theorem attackThreads_queue :
    (attackThreads s).halted = s.halted ∧ (attackThreads s).attackEvent = s.attackEvent ∧
    (attackThreads s).faults_injected_count = s.faults_injected_count + hits s := by
  have hkeep : (attackThreads s).halted = s.halted ∧ (attackThreads s).attackEvent = s.attackEvent := by
    refine List.foldlRecOn (motive := fun t : CHAOSPhysReg cfg => t.halted = s.halted ∧ t.attackEvent = s.attackEvent) _
      attackThread ⟨rfl, rfl⟩ fun t ht tid _ => ?_
    obtain ⟨hhalted, hattack, -⟩ := processFault_queue t tid
    unfold attackThread
    split
    · exact ⟨hhalted.trans ht.1, hattack.trans ht.2⟩
    · exact ht
  refine ⟨hkeep.1, hkeep.2, foldl_countAlong (fun t tid => ?_) s _⟩
  unfold attackThread hit
  cases cfg.active t.halted tid with
  | false => rfl
  | true => exact (processFault_queue t tid).2.2

def nextDelay (s : CHAOSPhysReg cfg) : Nat := cfg.inter_fault_cycles_dist (attackThreads s).rng.next.1

def Reschedules (s : CHAOSPhysReg cfg) (now : Nat) : Prop :=
  ¬Spent (attackThreads s) ∧ cfg.anyActive s.halted = true ∧
    (cfg.last_clock = 0 ∨ nextDelay s + cfg.curCycle now ≤ cfg.last_clock)

instance (s : CHAOSPhysReg cfg) (now : Nat) : Decidable (Reschedules s now) := inferInstanceAs (Decidable (_ ∧ _))

private theorem reschedule_spec {s : CHAOSPhysReg cfg} (hevent : s.attackEvent = none) (now : Nat) :
    (reschedule s now).faults_injected_count = s.faults_injected_count ∧
    (reschedule s now).attackEvent =
      if ¬Spent s ∧ cfg.anyActive s.halted = true ∧ (cfg.last_clock = 0 ∨
          cfg.inter_fault_cycles_dist s.rng.next.1 + cfg.curCycle now ≤ cfg.last_clock) then
        some { tick := cfg.clockEdge now (cfg.inter_fault_cycles_dist s.rng.next.1) }
      else none := by
  unfold reschedule
  dsimp only
  split
  · rename_i hspent
    rw [if_neg fun h => h.1 hspent]
    exact ⟨rfl, by simp [unscheduleAttackEvent, hevent, Pending.squash]⟩
  · rename_i hspent
    split
    · rename_i hactive
      split
      · rename_i hlast
        rw [if_pos ⟨hspent, hactive, hlast⟩]
        exact ⟨rfl, by simp [scheduleAttackEvent, hevent]⟩
      · rename_i hlast
        rw [if_neg fun h => hlast h.2.2]
        exact ⟨rfl, hevent⟩
    · rename_i hactive
      rw [if_neg fun h => hactive h.2.1]
      exact ⟨rfl, by simp [unscheduleAttackEvent, hevent, Pending.squash]⟩

theorem attackCheck_spec {s : CHAOSPhysReg cfg} (hevent : s.attackEvent = none) (now : Nat) :
    (attackCheck s now).faults_injected_count = (attackThreads s).faults_injected_count ∧
    (attackCheck s now).attackEvent =
      if Reschedules s now then some { tick := cfg.clockEdge now (nextDelay s) } else none := by
  obtain ⟨hhalted, hattack, -⟩ := attackThreads_queue s
  obtain ⟨hcount, hnext⟩ := reschedule_spec (hattack.trans hevent) now
  rw [hhalted] at hnext
  exact ⟨hcount, hnext⟩

/-! ### Steps -/

def handling (s : CHAOSPhysReg cfg) : CHAOSPhysReg cfg := { s with attackEvent := none }

theorem step_attack_spec {s : CHAOSPhysReg cfg} {p : Pending} (hp : s.attackEvent = some p) :
    (step s .attack).faults_injected_count = s.faults_injected_count + (if p.squashed then 0 else hits (handling s)) ∧
    (step s .attack).attackEvent =
      (if p.squashed = false ∧ Reschedules (handling s) p.tick then
        some { tick := cfg.clockEdge p.tick (nextDelay (handling s)) }
      else none) ∧
    ∀ q, (step s .attack).attackEvent = some q → ¬Spent (step s .attack) := by
  have hstep : step s .attack = if p.squashed then handling s else attackCheck (handling s) p.tick := by
    dsimp only [step]
    rw [hp]
    rfl
  obtain ⟨hcount, hnext⟩ := attackCheck_spec (s := handling s) rfl p.tick
  refine Pending.handled faults_injected_count attackEvent Spent (handling s) hstep rfl ?_ hnext fun hre hspent => ?_
  · rw [hcount, (attackThreads_queue _).2.2]
  · unfold Spent at hspent
    rw [hcount] at hspent
    exact hre.1 hspent

theorem step_frame {e : Event} (he : e ≠ .attack) :
    (step s e).faults_injected_count = s.faults_injected_count ∧ (step s e).attackEvent = s.attackEvent := by
  cases e with
  | attack => exact absurd rfl he
  | check =>
    dsimp only [step]
    split
    · exact ⟨rfl, rfl⟩
    · rename_i p _
      split
      · exact ⟨rfl, rfl⟩
      · obtain ⟨-, -, -, hcount, hattack⟩ := checkPermanent_spec { s with periodicCheck := none } p.tick
        exact ⟨hcount, hattack⟩
  | op op => exact ⟨rfl, rfl⟩
  | rename front commit => exact ⟨rfl, rfl⟩
  | setHalted tid halted => exact ⟨rfl, rfl⟩

end CHAOSPhysReg

/-- One thread, four registers in each class, and stuck-at-one faults of bit 0 in random integer registers. -/
def fourRegs : PhysRegConfig :=
  { numThreads := 1, hasContext := fun _ => true, hasIsa := fun _ => true, clockPeriod := 1
    clockPeriod_pos := Nat.one_pos, first_clock := 0, last_clock := 0, max_faults := 2
    inter_fault_cycles_dist := fun _ => 0, numPhysRegs := fun _ => 4, numArchRegs := fun _ _ => 4, vecRegBytes := 16
    fi_mode := .Phys, target_phys_idx := -1, target_arch_idx := 0, reg_target_class := .Integer, vec_lane_width := 32
    vec_lane_offset := 0, num_bits_to_change := 1, fault_type_enum := .StuckAtOne, fault_mask := 1
    trigger_value_mask := 0, trigger_value_pattern := 0 }

end GemFI.Reg
