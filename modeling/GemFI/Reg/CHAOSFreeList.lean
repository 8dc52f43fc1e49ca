import GemFI.Lib.Clock
import GemFI.Reg.CHAOSPhysReg

/-!
# The injector CHAOSFreeList

An attack puts a physical register that is in use on the free list of its class: the directed one, or one that the rename
map of the thread has for a random architectural register.  In the mode `PopWrong` a register is taken from the list at
once.  An attack on a register that is free is rejected.

The log is left out.  A directed index is taken to exist: the source does not check it.
-/

namespace GemFI.Reg

open Mem (Rng)

namespace CHAOSFreeList

inductive Mode where
  | MarkFree | PopWrong
  deriving DecidableEq, Repr

inductive RegClassSel where
  | Integer | FloatingPoint | Vector
  deriving DecidableEq, Repr

def RegClassSel.target_class : RegClassSel → RegClassType
  | .Integer => .scalar .IntRegClass
  | .FloatingPoint => .scalar .FloatRegClass
  | .Vector => .VecRegClass

end CHAOSFreeList

structure FreeListConfig extends InjectorConfig where
  /-- The registers that the ISA of a thread has in a class; 0 if it does not have the class. -/
  numArchRegs : Nat → RegClassType → Nat
  fi_mode : CHAOSFreeList.Mode
  reg_target_class : CHAOSFreeList.RegClassSel
  target_phys_idx : Int

/-- The injector with the free lists and the rename map of the processor.  The first register of a list is the next one
that is allocated. -/
structure CHAOSFreeList (cfg : FreeListConfig) where
  freeRegs : RegClassType → List Nat
  frontRenameMap : RenameMap
  halted : Nat → Bool := fun _ => false
  rng : Rng
  faults_injected_count : Nat := 0
  numFaultsInjected : Nat := 0
  numMarkFree : Nat := 0
  numPopWrong : Nat := 0
  numLegalityRejects : Nat := 0
  attackEvent : Option Nat := none

namespace CHAOSFreeList

variable {cfg : FreeListConfig}

def scheduleAttackEvent (s : CHAOSFreeList cfg) (now delay : Nat) : CHAOSFreeList cfg :=
  if s.attackEvent.isNone then { s with attackEvent := some (cfg.clockEdge now delay) } else s

def startup (cfg : FreeListConfig) (freeRegs : RegClassType → List Nat) (frontRenameMap : RenameMap)
    (draw : Nat → Nat) : CHAOSFreeList cfg :=
  let s : CHAOSFreeList cfg := { freeRegs := freeRegs, frontRenameMap := frontRenameMap, rng := { draw := draw } }
  let raw := s.rng.next
  scheduleAttackEvent { s with rng := raw.2 } 0 (cfg.first_clock + cfg.inter_fault_cycles_dist raw.1)

/-! ### One fault -/

/-- The search for a mapped register that is not free: at most `tries` random architectural registers. -/
def scan (s : CHAOSFreeList cfg) (tid : Nat) (cls : RegClassType) : Nat → Rng → Option Nat × Rng
  | 0, rng => (none, rng)
  | tries + 1, rng =>
    let cand := rng.below (cfg.numArchRegs tid cls)
    match s.frontRenameMap tid cls cand.1 with
    | none => scan s tid cls tries cand.2
    | some pp => if pp ∈ s.freeRegs cls then scan s tid cls tries cand.2 else (some pp, cand.2)

def chooseTarget (s : CHAOSFreeList cfg) (tid : Nat) (cls : RegClassType) : Option Nat × Rng :=
  if 0 ≤ cfg.target_phys_idx then (some cfg.target_phys_idx.toNat, s.rng)
  else scan s tid cls (cfg.numArchRegs tid cls) s.rng

def addReg (s : CHAOSFreeList cfg) (cls : RegClassType) (phys : Nat) : CHAOSFreeList cfg :=
  { s with freeRegs := Function.update s.freeRegs cls (s.freeRegs cls ++ [phys]), numMarkFree := s.numMarkFree + 1 }

/-- In the mode `PopWrong` the first register of the list is allocated. -/
def popWrong (s : CHAOSFreeList cfg) (cls : RegClassType) : CHAOSFreeList cfg :=
  if cfg.fi_mode = .PopWrong ∧ 0 < (s.freeRegs cls).length then
    { s with freeRegs := Function.update s.freeRegs cls (s.freeRegs cls).tail, numPopWrong := s.numPopWrong + 1 }
  else s

def Spent (s : CHAOSFreeList cfg) : Prop := cfg.max_faults ≠ 0 ∧ cfg.max_faults ≤ s.faults_injected_count

instance (s : CHAOSFreeList cfg) : Decidable (Spent s) := inferInstanceAs (Decidable (_ ∧ _))

def processFault (s : CHAOSFreeList cfg) (tid : Nat) : CHAOSFreeList cfg :=
  let cls := cfg.reg_target_class.target_class
  if Spent s then s
  else if !cfg.hasContext tid || !cfg.hasIsa tid then s
  else if cfg.numArchRegs tid cls = 0 then s
  else
    let target := chooseTarget s tid cls
    let s : CHAOSFreeList cfg := { s with rng := target.2 }
    match target.1 with
    | none => { s with numLegalityRejects := s.numLegalityRejects + 1 }
    | some phys =>
      if phys ∈ s.freeRegs cls then { s with numLegalityRejects := s.numLegalityRejects + 1 }
      else
        let s := popWrong (addReg s cls phys) cls
        { s with
          numFaultsInjected := s.numFaultsInjected + 1, faults_injected_count := s.faults_injected_count + 1 }

/-! ### The handler -/

def attackThread (s : CHAOSFreeList cfg) (tid : Nat) : CHAOSFreeList cfg :=
  if cfg.active s.halted tid then processFault s tid else s

def attackThreads (s : CHAOSFreeList cfg) : CHAOSFreeList cfg := (List.range cfg.numThreads).foldl attackThread s

def reschedule (s : CHAOSFreeList cfg) (now : Nat) : CHAOSFreeList cfg :=
  if cfg.max_faults = 0 ∨ s.faults_injected_count < cfg.max_faults then
    let raw := s.rng.next
    let next := cfg.inter_fault_cycles_dist raw.1
    let s := { s with rng := raw.2 }
    if cfg.last_clock = 0 ∨ cfg.curCycle now + next ≤ cfg.last_clock then scheduleAttackEvent s now next else s
  else s

def attackCheck (s : CHAOSFreeList cfg) (now : Nat) : CHAOSFreeList cfg := reschedule (attackThreads s) now

/-! ### Runs -/

inductive Event where
  | attack
  | rename (front : RenameMap) (freeRegs : RegClassType → List Nat)
  | setHalted (tid : Nat) (halted : Bool)

def step (s : CHAOSFreeList cfg) : Event → CHAOSFreeList cfg
  | .attack =>
    match s.attackEvent with
    | none => s
    | some now => attackCheck { s with attackEvent := none } now
  | .rename front freeRegs => { s with frontRenameMap := front, freeRegs := freeRegs }
  | .setHalted tid halted => { s with halted := Function.update s.halted tid halted }

def timing (cfg : FreeListConfig) : Timing (CHAOSFreeList cfg) Event where
  step := step
  enabled s now
    | .attack => s.attackEvent = some now
    | _ => true
  due s now := s.attackEvent = some now

/-! ### What the attack does to the queue -/

theorem processFault_event (s : CHAOSFreeList cfg) (tid : Nat) : (processFault s tid).attackEvent = s.attackEvent := by
  have hpop : ∀ (t : CHAOSFreeList cfg) cls, (popWrong t cls).attackEvent = t.attackEvent := by
    intro t cls
    unfold popWrong
    split <;> rfl
  unfold processFault
  dsimp only
  split
  · rfl
  · split
    · rfl
    · split
      · rfl
      · split
        · rfl
        · split
          · rfl
          · exact hpop _ _

theorem attackThreads_event (s : CHAOSFreeList cfg) : (attackThreads s).attackEvent = s.attackEvent := by
  refine List.foldlRecOn _ attackThread (motive := fun t : CHAOSFreeList cfg => t.attackEvent = s.attackEvent) rfl
    fun t ht tid _ => ?_
  unfold attackThread
  split
  · exact (processFault_event t tid).trans ht
  · exact ht

def handling (s : CHAOSFreeList cfg) : CHAOSFreeList cfg := { s with attackEvent := none }

def nextDelay (s : CHAOSFreeList cfg) : Nat := cfg.inter_fault_cycles_dist (attackThreads s).rng.next.1

def Reschedules (s : CHAOSFreeList cfg) (now : Nat) : Prop :=
  (cfg.max_faults = 0 ∨ (attackThreads s).faults_injected_count < cfg.max_faults) ∧
    (cfg.last_clock = 0 ∨ cfg.curCycle now + nextDelay s ≤ cfg.last_clock)

instance (s : CHAOSFreeList cfg) (now : Nat) : Decidable (Reschedules s now) := inferInstanceAs (Decidable (_ ∧ _))

private theorem reschedule_event {s : CHAOSFreeList cfg} (hevent : s.attackEvent = none) (now : Nat) :
    (reschedule s now).attackEvent =
      if (cfg.max_faults = 0 ∨ s.faults_injected_count < cfg.max_faults) ∧ (cfg.last_clock = 0 ∨
          cfg.curCycle now + cfg.inter_fault_cycles_dist s.rng.next.1 ≤ cfg.last_clock) then
        some (cfg.clockEdge now (cfg.inter_fault_cycles_dist s.rng.next.1))
      else none := by
  unfold reschedule
  dsimp only
  split
  · rename_i hleft
    split
    · rename_i hlast
      rw [if_pos ⟨hleft, hlast⟩]
      simp [scheduleAttackEvent, hevent]
    · rename_i hlast
      rw [if_neg fun h => hlast h.2]
      exact hevent
  · rename_i hleft
    rw [if_neg fun h => hleft h.1]
    exact hevent

theorem step_attack_event {s : CHAOSFreeList cfg} {now : Nat} (hnow : s.attackEvent = some now) :
    (step s .attack).attackEvent =
      if Reschedules (handling s) now then some (cfg.clockEdge now (nextDelay (handling s))) else none := by
  have hstep : step s .attack = reschedule (attackThreads (handling s)) now := by
    dsimp only [step]
    rw [hnow]
    rfl
  rw [hstep]
  exact reschedule_event (attackThreads_event (handling s)) now

end CHAOSFreeList

/-- One thread with one integer register in use, the physical register 0, and the register 1 on the free list. -/
def oneInUse : FreeListConfig :=
  { numThreads := 1, hasContext := fun _ => true, hasIsa := fun _ => true, clockPeriod := 1
    clockPeriod_pos := Nat.one_pos, first_clock := 0, last_clock := 0, max_faults := 0
    inter_fault_cycles_dist := fun n => n, numArchRegs := fun _ _ => 1, fi_mode := .MarkFree
    reg_target_class := .Integer, target_phys_idx := -1 }

end GemFI.Reg
