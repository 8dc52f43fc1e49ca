import GemFI.Lib.Table
import GemFI.Reg.CHAOSFreeList

/-!
# The injector CHAOSRenameMap

An attack redirects an architectural register of a thread, the directed one or one of those that are mapped: the index
of its physical register is changed under a mask, or the mapping of another register, the donor, is taken over.  In
the mode `F4FieldStuck` the wrong mapping is entered in a table, which `checkPermanent` applies to the rename map
again.  An attack without a target, a donor or a legal index is rejected.  After a fault the register file counts the
reads of the wrong register, and `readTraceCheck` reports the count.

The rename map is the front one, already flattened.  Of the log only the redirections and the reported counts are
kept.
-/

namespace GemFI.Reg

open Mem (Rng)
open PhysRegFile (RegOp)

namespace CHAOSRenameMap

inductive Mode where
  | MapBitFlip | F5Substitute | F4FieldStuck
  deriving DecidableEq, Repr

abbrev RegClassSel := CHAOSFreeList.RegClassSel

structure ArchReg where
  tid : Nat
  cls : RegClassType
  arch_idx : Nat
  deriving DecidableEq, Repr

structure Redirected where
  arch : ArchReg
  old_phys_idx : Nat
  new_phys_idx : Nat
  mask : BitVec 64
  deriving DecidableEq, Repr

def Redirected.slot (r : Redirected) : Slot := (r.arch.cls, r.new_phys_idx)

end CHAOSRenameMap

open CHAOSRenameMap (ArchReg Redirected)

structure RenameMapConfig extends InjectorConfig where
  numPhysRegs : RegClassType → Nat
  numArchRegs : Nat → RegClassType → Nat
  vecRegBytes : Nat
  fi_mode : CHAOSRenameMap.Mode
  reg_target_class : CHAOSRenameMap.RegClassSel
  target_arch_idx : Int
  fault_mask : BitVec 64

def RenameMapConfig.target_class (cfg : RenameMapConfig) : RegClassType := cfg.reg_target_class.target_class

structure CHAOSRenameMap (cfg : RenameMapConfig) where
  regFile : PhysRegFile cfg.vecRegBytes
  frontRenameMap : RenameMap
  halted : Nat → Bool := fun _ => false
  rng : Rng
  /-- The physical registers of the stuck mappings, by thread and architectural register. -/
  stuck_mappings : AList (fun _ : Nat × Nat => Nat) := ∅
  faults_injected_count : Nat := 0
  numFaultsInjected : Nat := 0
  numMapBitFlips : Nat := 0
  numF5Substitutes : Nat := 0
  numF4FieldStuck : Nat := 0
  numLegalityRejects : Nat := 0
  attackEvent : Option Nat := none
  periodicCheck : Option Nat := none
  readTraceEvent : Option Nat := none
  log : List Redirected := []
  reports : List Nat := []

namespace CHAOSRenameMap

variable {cfg : RenameMapConfig}

def scheduleAttackEvent (s : CHAOSRenameMap cfg) (now delay : Nat) : CHAOSRenameMap cfg :=
  if s.attackEvent.isNone then { s with attackEvent := some (cfg.clockEdge now delay) } else s

def startup (cfg : RenameMapConfig) (regFile : PhysRegFile cfg.vecRegBytes) (frontRenameMap : RenameMap)
    (draw : Nat → Nat) : CHAOSRenameMap cfg :=
  let s : CHAOSRenameMap cfg := { regFile := regFile, frontRenameMap := frontRenameMap, rng := { draw := draw } }
  let raw := s.rng.next
  let s := scheduleAttackEvent { s with rng := raw.2 } 0 (cfg.first_clock + cfg.inter_fault_cycles_dist raw.1)
  if cfg.fi_mode = .F4FieldStuck then { s with periodicCheck := some (cfg.clockEdge 0 (cfg.first_clock + 1)) } else s

/-! ### One fault -/

def lookup (s : CHAOSRenameMap cfg) (tid arch_idx : Nat) : Option Nat := s.frontRenameMap tid cfg.target_class arch_idx

def mapped (s : CHAOSRenameMap cfg) (tid : Nat) : List Nat :=
  (List.range (cfg.numArchRegs tid cfg.target_class)).filter fun cand => (s.lookup tid cand).isSome

/-- The directed register if the class has it, or a random one of those that are mapped. -/
def chooseArch (s : CHAOSRenameMap cfg) (tid : Nat) : Option Nat × Rng :=
  if 0 ≤ cfg.target_arch_idx ∧ cfg.target_arch_idx < cfg.numArchRegs tid cfg.target_class then
    (some cfg.target_arch_idx.toNat, s.rng)
  else if s.mapped tid = [] then (none, s.rng)
  else
    let i := s.rng.below (s.mapped tid).length
    ((s.mapped tid)[i.1]?, i.2)

def chooseMask (s : CHAOSRenameMap cfg) : BitVec 64 × Rng :=
  if cfg.fault_mask = 0 then (1#64 <<< (s.rng.below 8).1, (s.rng.below 8).2) else (cfg.fault_mask, s.rng)

/-- The index after the flip, as an `int`. -/
def flipIdx (old_phys_idx : Nat) (mask : BitVec 64) : Int := (BitVec.ofNat 32 old_phys_idx ^^^ mask.setWidth 32).toInt

/-- The search for a donor: at most `tries` random architectural registers. -/
def findDonor (s : CHAOSRenameMap cfg) (tid arch_idx old_phys_idx : Nat) : Nat → Rng → Option Nat × Rng
  | 0, rng => (none, rng)
  | tries + 1, rng =>
    let cand := rng.below (cfg.numArchRegs tid cfg.target_class)
    if cand.1 = arch_idx then findDonor s tid arch_idx old_phys_idx tries cand.2
    else
      match s.lookup tid cand.1 with
      | none => findDonor s tid arch_idx old_phys_idx tries cand.2
      | some pp =>
        if pp ≠ old_phys_idx then (some pp, cand.2) else findDonor s tid arch_idx old_phys_idx tries cand.2

def chooseNew (s : CHAOSRenameMap cfg) (tid arch_idx old_phys_idx : Nat) : Option (Nat × BitVec 64) × Rng :=
  match cfg.fi_mode with
  | .MapBitFlip =>
    let (mask, rng) := chooseMask s
    let new_phys_idx := flipIdx old_phys_idx mask
    if new_phys_idx < 0 ∨ (cfg.numPhysRegs cfg.target_class : Int) ≤ new_phys_idx then (none, rng)
    else (some (new_phys_idx.toNat, mask), rng)
  | .F5Substitute | .F4FieldStuck =>
    let (donor_phys, rng) := findDonor s tid arch_idx old_phys_idx (cfg.numArchRegs tid cfg.target_class) s.rng
    (donor_phys.map fun pp => (pp, 0), rng)

def setEntry (s : CHAOSRenameMap cfg) (tid arch_idx phys_idx : Nat) : CHAOSRenameMap cfg :=
  { s with
    frontRenameMap := fun t c a =>
      if t = tid ∧ c = cfg.target_class ∧ a = arch_idx then some phys_idx else s.frontRenameMap t c a }

def countMode (s : CHAOSRenameMap cfg) (tid arch_idx phys_idx : Nat) : CHAOSRenameMap cfg :=
  match cfg.fi_mode with
  | .MapBitFlip => { s with numMapBitFlips := s.numMapBitFlips + 1 }
  | .F5Substitute => { s with numF5Substitutes := s.numF5Substitutes + 1 }
  | .F4FieldStuck =>
    { s with
      stuck_mappings := s.stuck_mappings.insert (tid, arch_idx) phys_idx, numF4FieldStuck := s.numF4FieldStuck + 1 }

def arm (s : CHAOSRenameMap cfg) (r : Redirected) (now : Nat) : CHAOSRenameMap cfg :=
  if r.new_phys_idx ≠ r.old_phys_idx then
    { s with
      regFile := s.regFile.setReadTraceTarget r.slot
      readTraceEvent := if s.readTraceEvent.isNone then some (cfg.clockEdge now 50) else s.readTraceEvent }
  else s

def inject (s : CHAOSRenameMap cfg) (r : Redirected) (now : Nat) : CHAOSRenameMap cfg :=
  let s := countMode (setEntry s r.arch.tid r.arch.arch_idx r.new_phys_idx) r.arch.tid r.arch.arch_idx r.new_phys_idx
  arm { s with
    numFaultsInjected := s.numFaultsInjected + 1, faults_injected_count := s.faults_injected_count + 1
    log := s.log ++ [r] } r now

def reject (s : CHAOSRenameMap cfg) : CHAOSRenameMap cfg := { s with numLegalityRejects := s.numLegalityRejects + 1 }

def Spent (s : CHAOSRenameMap cfg) : Prop := cfg.max_faults ≠ 0 ∧ cfg.max_faults ≤ s.faults_injected_count

instance (s : CHAOSRenameMap cfg) : Decidable (Spent s) := inferInstanceAs (Decidable (_ ∧ _))

def processFault (s : CHAOSRenameMap cfg) (tid now : Nat) : CHAOSRenameMap cfg :=
  if Spent s then s
  else if !cfg.hasContext tid || !cfg.hasIsa tid then s
  else if cfg.numArchRegs tid cfg.target_class = 0 then reject s
  else
    let arch := chooseArch s tid
    let s : CHAOSRenameMap cfg := { s with rng := arch.2 }
    match arch.1 with
    | none => reject s
    | some arch_idx =>
      match s.lookup tid arch_idx with
      | none => reject s
      | some old_phys_idx =>
        let target := chooseNew s tid arch_idx old_phys_idx
        let s : CHAOSRenameMap cfg := { s with rng := target.2 }
        match target.1 with
        | none => reject s
        | some (new_phys_idx, mask) =>
          inject s ⟨⟨tid, cfg.target_class, arch_idx⟩, old_phys_idx, new_phys_idx, mask⟩ now

/-! ### The handlers -/

def attackThread (now : Nat) (s : CHAOSRenameMap cfg) (tid : Nat) : CHAOSRenameMap cfg :=
  if cfg.active s.halted tid then processFault s tid now else s

def attackThreads (s : CHAOSRenameMap cfg) (now : Nat) : CHAOSRenameMap cfg :=
  (List.range cfg.numThreads).foldl (attackThread now) s

/-- The rest of `attackCheck`; if no fault was injected, the next attack is in a later cycle. -/
def reschedule (s : CHAOSRenameMap cfg) (before now : Nat) : CHAOSRenameMap cfg :=
  if cfg.max_faults = 0 ∨ s.faults_injected_count < cfg.max_faults then
    let raw := s.rng.next
    let next := cfg.inter_fault_cycles_dist raw.1
    let next := if s.faults_injected_count = before then max next 1 else next
    let s := { s with rng := raw.2 }
    if cfg.last_clock = 0 ∨ cfg.curCycle now + next ≤ cfg.last_clock then scheduleAttackEvent s now next else s
  else s

def attackCheck (s : CHAOSRenameMap cfg) (now : Nat) : CHAOSRenameMap cfg :=
  reschedule (attackThreads s now) s.faults_injected_count now

/-- A report of the count; when all threads have halted the trace ends. -/
def readTraceCheck (s : CHAOSRenameMap cfg) (now : Nat) : CHAOSRenameMap cfg :=
  let s := { s with reports := s.reports ++ [s.regFile.reads_before_overwrite] }
  if cfg.anyActive s.halted then { s with readTraceEvent := some (cfg.clockEdge now 5000) }
  else { s with regFile := s.regFile.clearReadTraceTarget }

/-- The entry of the rename map for a stuck mapping, if the ISA of thread 0 has the register. -/
def place (cfg : RenameMapConfig) (key : Nat × Nat) : Option (Nat × RegClassType × Nat) :=
  if key.2 < cfg.numArchRegs 0 cfg.target_class then some (key.1, cfg.target_class, key.2) else none

def pin (s : CHAOSRenameMap cfg) : RenameMap :=
  let front := s.stuck_mappings.entries.foldl (Table.applyEntry (place cfg) fun phys _ => some phys)
    fun x => s.frontRenameMap x.1 x.2.1 x.2.2
  fun tid cls arch_idx => front (tid, cls, arch_idx)

def checkPermanent (s : CHAOSRenameMap cfg) (now : Nat) : CHAOSRenameMap cfg :=
  let s := if cfg.hasContext 0 && cfg.hasIsa 0 then { s with frontRenameMap := pin s } else s
  { s with periodicCheck := some (cfg.clockEdge now (cfg.curCycle now + 100000)) }

/-! ### Runs -/

/-- The events of a run: the handlers, the accesses and the renaming of the program, and the state of its threads.  An
access has the architectural register that it is for, if any. -/
inductive Event where
  | attack
  | check
  | poll
  | access (source : Option ArchReg) (op : RegOp)
  | rename (front : RenameMap)
  | setHalted (tid : Nat) (halted : Bool)

def step (s : CHAOSRenameMap cfg) : Event → CHAOSRenameMap cfg
  | .attack =>
    match s.attackEvent with
    | none => s
    | some now => attackCheck { s with attackEvent := none } now
  | .check =>
    match s.periodicCheck with
    | none => s
    | some now => checkPermanent { s with periodicCheck := none } now
  | .poll =>
    match s.readTraceEvent with
    | none => s
    | some now => readTraceCheck { s with readTraceEvent := none } now
  | .access _ op => { s with regFile := s.regFile.access op }
  | .rename front => { s with frontRenameMap := front }
  | .setHalted tid halted => { s with halted := Function.update s.halted tid halted }

def timing (cfg : RenameMapConfig) : Timing (CHAOSRenameMap cfg) Event where
  step := step
  enabled s now
    | .attack => s.attackEvent = some now
    | .check => s.periodicCheck = some now
    | .poll => s.readTraceEvent = some now
    | _ => true
  due s now := s.attackEvent = some now ∨ s.periodicCheck = some now ∨ s.readTraceEvent = some now

/-! ### What a fault does -/

theorem processFault_cases (s : CHAOSRenameMap cfg) (tid now : Nat) :
    (∃ rng n, processFault s tid now = { s with rng := rng, numLegalityRejects := n }) ∨
    (∃ rng r, processFault s tid now = inject { s with rng := rng } r now ∧ r.arch.tid = tid ∧
      r.arch.cls = cfg.target_class ∧ s.lookup tid r.arch.arch_idx = some r.old_phys_idx) := by
  unfold processFault
  dsimp only
  split
  · exact Or.inl ⟨_, _, rfl⟩
  · split
    · exact Or.inl ⟨_, _, rfl⟩
    · split
      · exact Or.inl ⟨_, _, rfl⟩
      · split
        · exact Or.inl ⟨_, _, rfl⟩
        · rename_i arch_idx _
          split
          · exact Or.inl ⟨_, _, rfl⟩
          · rename_i old_phys_idx hold
            split
            · exact Or.inl ⟨_, _, rfl⟩
            · exact Or.inr ⟨_, _, rfl, rfl, rfl, hold⟩

theorem inject_frame (s : CHAOSRenameMap cfg) (r : Redirected) (now : Nat) :
    (inject s r now).log = s.log ++ [r] ∧ (inject s r now).attackEvent = s.attackEvent ∧
    (inject s r now).periodicCheck = s.periodicCheck := by
  unfold inject arm countMode
  dsimp only
  cases cfg.fi_mode <;> split <;> exact ⟨rfl, rfl, rfl⟩

theorem inject_trace (s : CHAOSRenameMap cfg) {r : Redirected} (now : Nat) (hne : r.new_phys_idx ≠ r.old_phys_idx) :
    (inject s r now).regFile.trace = some r.slot ∧ (inject s r now).regFile.trace_overwritten = false ∧
    (inject s r now).regFile.reads_before_overwrite = 0 := by
  unfold inject arm
  dsimp only
  rw [if_pos hne]
  exact ⟨rfl, rfl, rfl⟩

theorem redirect_trace {s : CHAOSRenameMap cfg} {tid now : Nat} {r : Redirected}
    (h : (processFault s tid now).log = s.log ++ [r]) (hne : r.new_phys_idx ≠ r.old_phys_idx) :
    (processFault s tid now).regFile.trace = some r.slot ∧
    (processFault s tid now).regFile.trace_overwritten = false ∧
    (processFault s tid now).regFile.reads_before_overwrite = 0 := by
  rcases processFault_cases s tid now with ⟨rng, n, heq⟩ | ⟨rng, q, heq, -⟩
  · rw [heq] at h
    have hlength := congrArg List.length h
    simp at hlength
  · rw [heq] at h ⊢
    have hlog := (inject_frame { s with rng := rng } q now).1
    obtain rfl : q = r := List.singleton_inj.1 (List.append_cancel_left (hlog.symm.trans h))
    exact inject_trace _ now hne

/-- A thread with two architectural registers and four physical ones; the register 0 is attacked at once, with the
lowest bit as the mask. -/
def twoArchRegs (fi_mode : Mode) (reg_target_class : RegClassSel) : RenameMapConfig where
  numThreads := 1
  hasContext := fun _ => true
  hasIsa := fun _ => true
  clockPeriod := 1
  clockPeriod_pos := Nat.one_pos
  first_clock := 0
  last_clock := 0
  max_faults := 1
  inter_fault_cycles_dist := fun _ => 0
  numPhysRegs := fun _ => 4
  numArchRegs := fun _ _ => 2
  vecRegBytes := 16
  fi_mode := fi_mode
  reg_target_class := reg_target_class
  target_arch_idx := 0
  fault_mask := 1

/-- The registers hold 0, and the architectural register has the physical one of the same index. -/
def twoMapped (cfg : RenameMapConfig) : CHAOSRenameMap cfg :=
  startup cfg { reg := fun _ _ => 0, vecReg := fun _ _ => 0 } (fun _ _ a => if a < 2 then some a else none) fun _ => 1

end CHAOSRenameMap

end GemFI.Reg
