import GemFI.Lib.Clock
import GemFI.Lib.Run
import GemFI.Lib.Table
import GemFI.Lib.Timer
import GemFI.Reg.PhysRegFile

/-!
# The injector CHAOSReg

An attack corrupts an architectural register of every active thread; if a PC target is set, only of the threads that are
at this PC.  The stuck-at faults are recorded in a table, and `checkPermanent` applies it to the registers again: every
entry that it applies schedules the next check.  `unscheduleAttackEvent` squashes both events.

The log is left out, and so are the exceptions that only it reports.
-/

namespace GemFI.Reg

open Mem (Rng FaultType)

inductive TargetClass where
  | Both | Integer | FloatingPoint
  deriving DecidableEq, Repr

abbrev RegId := ScalarClass × Nat

structure RegConfig extends InjectorConfig where
  numRegs : Nat → ScalarClass → Nat
  bitsToChange : Int
  max_reg_idx : Nat
  target_reg_idx : Int
  fault_type_enum : FaultType
  fault_mask : BitVec 64
  random_fault_distribution : Nat → Fin 3
  cycles_permament_fault_check : Nat
  reg_target_class_enum : TargetClass
  PC_target : BitVec 64
  maskRounds : Nat

structure CHAOSReg (cfg : RegConfig) where
  regs : Nat × RegId → BitVec 64
  pc : Nat → BitVec 64 := fun _ => 0
  halted : Nat → Bool := fun _ => false
  rng : Rng
  num_bits_to_change : Int := cfg.bitsToChange
  permanent_faults : AList (fun _ : Nat × RegId => PermanentFault) := ∅
  faults_injected_count : Nat := 0
  numFaultsInjected : Nat := 0
  numBitFlips : Nat := 0
  numStuckAtZero : Nat := 0
  numStuckAtOne : Nat := 0
  numPermanentFaults : Nat := 0
  attackEvent : Option Pending := none
  periodicCheck : Option Pending := none

namespace CHAOSReg

variable {cfg : RegConfig}

def scheduleAttackEvent (s : CHAOSReg cfg) (now delay : Nat) : CHAOSReg cfg :=
  { s with attackEvent := Pending.schedule s.attackEvent (cfg.clockEdge now delay) }

def scheduleCheckPermanentFault (s : CHAOSReg cfg) (now delay : Nat) : CHAOSReg cfg :=
  { s with periodicCheck := Pending.schedule s.periodicCheck (cfg.clockEdge now delay) }

def unscheduleAttackEvent (s : CHAOSReg cfg) : CHAOSReg cfg :=
  { s with attackEvent := Pending.squash s.attackEvent, periodicCheck := Pending.squash s.periodicCheck }

/-- A sample of `inter_fault_cycles_dist`.  A PC target sets the probability to 1, and then every sample is 0. -/
def interFaultCycles (cfg : RegConfig) (raw : Nat) : Nat :=
  if cfg.PC_target ≠ 0#64 then 0 else cfg.inter_fault_cycles_dist raw

/-- The number of bits; a random one of 1 to 32 if it is -1. -/
def drawBits (cfg : RegConfig) (rng : Rng) : Int × Rng :=
  if cfg.bitsToChange = -1 then (((rng.below 32).1 + 1 : Nat), (rng.below 32).2) else (cfg.bitsToChange, rng)

def init (cfg : RegConfig) (regs : Nat × RegId → BitVec 64) (draw : Nat → Nat) : CHAOSReg cfg :=
  let bits := drawBits cfg { draw := draw }
  let raw := bits.2.next
  let s : CHAOSReg cfg := { regs := regs, rng := raw.2, num_bits_to_change := bits.1 }
  let s := scheduleAttackEvent s 0 (cfg.first_clock + interFaultCycles cfg raw.1)
  scheduleCheckPermanentFault s 0 (cfg.first_clock + cfg.cycles_permament_fault_check)

/-! ### The target -/

/-- The class that is attacked; none if it has no registers. -/
def chooseClass (cfg : RegConfig) (tid : Nat) (rng : Rng) : Option ScalarClass × Rng :=
  let intRegs := cfg.numRegs tid .IntRegClass
  let floatRegs := cfg.numRegs tid .FloatRegClass
  match cfg.reg_target_class_enum with
  | .Both =>
    if intRegs = 0 ∧ floatRegs = 0 then (none, rng)
    else if 0 < intRegs ∧ floatRegs = 0 then (some .IntRegClass, rng)
    else if intRegs = 0 ∧ 0 < floatRegs then (some .FloatRegClass, rng)
    else (some (if rng.next.1 % 2 = 0 then .IntRegClass else .FloatRegClass), rng.next.2)
  | .Integer => (if intRegs = 0 then none else some .IntRegClass, rng)
  | .FloatingPoint => (if floatRegs = 0 then none else some .FloatRegClass, rng)

def chooseReg (cfg : RegConfig) (tid : Nat) (cls : ScalarClass) (rng : Rng) : Nat × Rng :=
  let num_regs := cfg.numRegs tid cls
  let upper := if 0 < cfg.max_reg_idx ∧ cfg.max_reg_idx < num_regs then cfg.max_reg_idx - 1 else num_regs - 1
  if 0 ≤ cfg.target_reg_idx ∧ cfg.target_reg_idx < num_regs then (cfg.target_reg_idx.toNat, rng)
  else rng.below (upper + 1)

/-- The loop of `generateRandomMask64`: bits that are set already are rejected. -/
def placeBits (len : Nat) : Nat → Nat → Rng → BitVec 64 → BitVec 64 × Rng
  | 0, _, rng, mask => (mask, rng)
  | _ + 1, 0, rng, mask => (mask, rng)
  | rounds + 1, n + 1, rng, mask =>
    let bit := 1#64 <<< (rng.below len).1
    if mask &&& bit = 0#64 then placeBits len rounds n (rng.below len).2 (mask ||| bit)
    else placeBits len rounds (n + 1) (rng.below len).2 mask

def generateRandomMask64 (cfg : RegConfig) (rng : Rng) (bits_to_change : Int) (len : Nat) : BitVec 64 × Rng :=
  if len = 0 ∨ bits_to_change ≤ 0 then (0#64, rng)
  else placeBits len cfg.maskRounds (min bits_to_change.toNat len) rng 0#64

def drawMask (s : CHAOSReg cfg) (rng : Rng) : BitVec 64 × Rng :=
  if cfg.fault_mask ≠ 0#64 then (cfg.fault_mask, rng) else generateRandomMask64 cfg rng s.num_bits_to_change 64

/-! ### One fault -/

def record (faults : AList (fun _ : Nat × RegId => PermanentFault)) (key : Nat × RegId) (ty : FaultType)
    (mask : BitVec 64) : AList (fun _ : Nat × RegId => PermanentFault) :=
  match ty with
  | .StuckAtZero | .StuckAtOne => faults.insert key ⟨ty, mask, true⟩
  | _ => faults

def countFault (s : CHAOSReg cfg) (key : Nat × RegId) (ty : FaultType) (mask : BitVec 64) : CHAOSReg cfg :=
  let s := { s with permanent_faults := record s.permanent_faults key ty mask }
  match ty with
  | .StuckAtZero =>
    { s with numStuckAtZero := s.numStuckAtZero + 1, numPermanentFaults := s.numPermanentFaults + 1 }
  | .StuckAtOne => { s with numStuckAtOne := s.numStuckAtOne + 1, numPermanentFaults := s.numPermanentFaults + 1 }
  | .BitFlip => { s with numBitFlips := s.numBitFlips + 1 }
  | .Random => s

def inject (s : CHAOSReg cfg) (key : Nat × RegId) (ty : FaultType) (mask : BitVec 64) : CHAOSReg cfg :=
  { countFault s key ty mask with
    regs := Function.update s.regs key (faulty ty mask (s.regs key))
    numFaultsInjected := s.numFaultsInjected + 1
    faults_injected_count := s.faults_injected_count + 1 }

/-- A fault in a register of the thread; the zero register is left alone and not counted. -/
def processFault (s : CHAOSReg cfg) (tid : Nat) : CHAOSReg cfg :=
  if !cfg.hasContext tid || !cfg.hasIsa tid then s
  else
    let cls := chooseClass cfg tid s.rng
    match cls.1 with
    | none => { s with rng := cls.2 }
    | some c =>
      let reg := chooseReg cfg tid c cls.2
      let mask := drawMask s reg.2
      if c = .IntRegClass ∧ reg.1 = 31 then { s with rng := mask.2 }
      else
        let ty := cfg.fault_type_enum.choose cfg.random_fault_distribution mask.2
        inject { s with rng := ty.2 } (tid, c, reg.1) ty.1 mask.1

/-! ### The handlers -/

def attacked (s : CHAOSReg cfg) (tid : Nat) : Bool :=
  cfg.active s.halted tid && (decide (cfg.PC_target = 0#64) || decide (cfg.PC_target = s.pc tid))

def attackThread (s : CHAOSReg cfg) (tid : Nat) : CHAOSReg cfg := if attacked s tid then processFault s tid else s

def attackThreads (s : CHAOSReg cfg) : CHAOSReg cfg := (List.range cfg.numThreads).foldl attackThread s

def Spent (s : CHAOSReg cfg) : Prop := cfg.max_faults ≠ 0 ∧ cfg.max_faults ≤ s.faults_injected_count

instance (s : CHAOSReg cfg) : Decidable (Spent s) := inferInstanceAs (Decidable (_ ∧ _))

def reschedule (s : CHAOSReg cfg) (now : Nat) : CHAOSReg cfg :=
  if cfg.anyActive s.halted then
    if Spent s then unscheduleAttackEvent s
    else
      let raw := s.rng.next
      let next := interFaultCycles cfg raw.1
      let s := { s with rng := raw.2 }
      if cfg.last_clock = 0 ∨ next + cfg.curCycle now ≤ cfg.last_clock then scheduleAttackEvent s now next else s
  else unscheduleAttackEvent s

def attackCheck (s : CHAOSReg cfg) (now : Nat) : CHAOSReg cfg := reschedule (attackThreads s) now

def applies (cfg : RegConfig) (e : Sigma fun _ : Nat × RegId => PermanentFault) : Bool :=
  e.2.update && cfg.hasContext e.1.1

def checkEntry (now : Nat) (s : CHAOSReg cfg) (e : Sigma fun _ : Nat × RegId => PermanentFault) : CHAOSReg cfg :=
  if applies cfg e then
    scheduleCheckPermanentFault { s with regs := Function.update s.regs e.1 (e.2.reapply (s.regs e.1)) } now
      cfg.cycles_permament_fault_check
  else s

def checkPermanent (s : CHAOSReg cfg) (now : Nat) : CHAOSReg cfg :=
  s.permanent_faults.entries.foldl (checkEntry now) s

/-! ### Runs -/

inductive Event where
  | attack
  | check
  | write (key : Nat × RegId) (val : BitVec 64)
  | setPc (tid : Nat) (pc : BitVec 64)
  | setHalted (tid : Nat) (halted : Bool)

def step (s : CHAOSReg cfg) : Event → CHAOSReg cfg
  | .attack =>
    match s.attackEvent with
    | none => s
    | some p =>
      let s := { s with attackEvent := none }
      if p.squashed then s else attackCheck s p.tick
  | .check =>
    match s.periodicCheck with
    | none => s
    | some p =>
      let s := { s with periodicCheck := none }
      if p.squashed then s else checkPermanent s p.tick
  | .write key val => { s with regs := Function.update s.regs key val }
  | .setPc tid pc => { s with pc := Function.update s.pc tid pc }
  | .setHalted tid halted => { s with halted := Function.update s.halted tid halted }

def timing (cfg : RegConfig) : Timing (CHAOSReg cfg) Event where
  step := step
  enabled s now
    | .attack => Pending.isAt s.attackEvent now
    | .check => Pending.isAt s.periodicCheck now
    | _ => true
  due s now := Pending.isAt s.attackEvent now || Pending.isAt s.periodicCheck now

/-! ### What the handlers do to the table and the queue -/

structure Faulted (n : Nat) (s t : CHAOSReg cfg) : Prop where
  halted : t.halted = s.halted
  pc : t.pc = s.pc
  attackEvent : t.attackEvent = s.attackEvent
  periodicCheck : t.periodicCheck = s.periodicCheck
  count_ge : s.faults_injected_count ≤ t.faults_injected_count
  table : ∀ key fault, t.permanent_faults.lookup key = some fault →
    s.permanent_faults.lookup key = some fault ∨ (0 < n ∧ fault.update = true ∧ cfg.hasContext key.1 = true)
  grows : ∀ key, (s.permanent_faults.lookup key).isSome → (t.permanent_faults.lookup key).isSome

variable (s : CHAOSReg cfg)

theorem Faulted.of_rng (rng : Rng) (n : Nat) : Faulted n s { s with rng := rng } :=
  ⟨rfl, rfl, rfl, rfl, Nat.le_refl _, fun _ _ h => Or.inl h, fun _ h => h⟩

theorem Faulted.trans {n m : Nat} {s t u : CHAOSReg cfg} (h : Faulted n s t) (h' : Faulted m t u) :
    Faulted (n + m) s u where
  halted := h'.halted.trans h.halted
  pc := h'.pc.trans h.pc
  attackEvent := h'.attackEvent.trans h.attackEvent
  periodicCheck := h'.periodicCheck.trans h.periodicCheck
  count_ge := Nat.le_trans h.count_ge h'.count_ge
  table := by
    intro key fault hf
    rcases h'.table key fault hf with hold | ⟨hm, hnew⟩
    · rcases h.table key fault hold with hold | ⟨hn, hnew⟩
      · exact Or.inl hold
      · exact Or.inr ⟨by omega, hnew⟩
    · exact Or.inr ⟨by omega, hnew⟩
  grows := fun key hsome => h'.grows key (h.grows key hsome)

theorem lookup_record {faults : AList (fun _ : Nat × RegId => PermanentFault)} {key k : Nat × RegId} {ty : FaultType}
    {mask : BitVec 64} {fault : PermanentFault} (h : (record faults key ty mask).lookup k = some fault) :
    faults.lookup k = some fault ∨ (fault.update = true ∧ k = key) := by
  have hinsert : (faults.insert key ⟨ty, mask, true⟩).lookup k = some fault →
      faults.lookup k = some fault ∨ (fault.update = true ∧ k = key) := by
    intro hk
    by_cases heq : k = key
    · rw [heq, AList.lookup_insert] at hk
      rw [← Option.some.inj hk]
      exact Or.inr ⟨rfl, heq⟩
    · rw [AList.lookup_insert_ne heq] at hk
      exact Or.inl hk
  cases ty with
  | StuckAtZero => exact hinsert h
  | StuckAtOne => exact hinsert h
  | BitFlip => exact Or.inl h
  | Random => exact Or.inl h

theorem lookup_record_isSome {faults : AList (fun _ : Nat × RegId => PermanentFault)} {k : Nat × RegId}
    (h : (faults.lookup k).isSome) (key : Nat × RegId) (ty : FaultType) (mask : BitVec 64) :
    ((record faults key ty mask).lookup k).isSome := by
  have hinsert : ((faults.insert key ⟨ty, mask, true⟩).lookup k).isSome := by
    by_cases heq : k = key
    · rw [heq, AList.lookup_insert]
      rfl
    · rw [AList.lookup_insert_ne heq]
      exact h
  cases ty with
  | StuckAtZero => exact hinsert
  | StuckAtOne => exact hinsert
  | BitFlip => exact h
  | Random => exact h

theorem inject_faulted {tid : Nat} (hcontext : cfg.hasContext tid = true) (s : CHAOSReg cfg) (reg : RegId)
    (ty : FaultType) (mask : BitVec 64) : Faulted 1 s (inject s (tid, reg) ty mask) := by
  have hframe : (inject s (tid, reg) ty mask).permanent_faults = record s.permanent_faults (tid, reg) ty mask ∧
      (inject s (tid, reg) ty mask).halted = s.halted ∧ (inject s (tid, reg) ty mask).pc = s.pc ∧
      (inject s (tid, reg) ty mask).attackEvent = s.attackEvent ∧
      (inject s (tid, reg) ty mask).periodicCheck = s.periodicCheck := by
    cases ty <;> exact ⟨rfl, rfl, rfl, rfl, rfl⟩
  obtain ⟨htable, hhalted, hpc, hattack, hcheck⟩ := hframe
  refine ⟨hhalted, hpc, hattack, hcheck, Nat.le_succ _, fun key fault hf => ?_, fun key hsome => ?_⟩
  · rw [htable] at hf
    rcases lookup_record hf with hold | ⟨hupdate, rfl⟩
    · exact Or.inl hold
    · exact Or.inr ⟨Nat.one_pos, hupdate, hcontext⟩
  · rw [htable]
    exact lookup_record_isSome hsome _ _ _

theorem processFault_faulted (tid : Nat) : Faulted 1 s (processFault s tid) := by
  unfold processFault
  split
  · exact Faulted.of_rng s s.rng 1
  · rename_i hctx
    have hcontext : cfg.hasContext tid = true := by
      cases h : cfg.hasContext tid <;> simp [h] at hctx ⊢
    dsimp only
    split
    · exact Faulted.of_rng s _ 1
    · split
      · exact Faulted.of_rng s _ 1
      · have hrng := fun rng => Faulted.of_rng s rng 0
        exact (hrng _).trans (inject_faulted hcontext _ _ _ _)

def targets (s : CHAOSReg cfg) : Nat := (List.range cfg.numThreads).countP (attacked s)

theorem attackThreads_faulted : Faulted (targets s) s (attackThreads s) := by
  have hloop : ∀ (l : List Nat) (t : CHAOSReg cfg), t.halted = s.halted → t.pc = s.pc →
      Faulted (l.countP (attacked s)) t (l.foldl attackThread t) := by
    intro l
    induction l with
    | nil => exact fun t _ _ => Faulted.of_rng t t.rng 0
    | cons tid l ih =>
      intro t hhalted hpc
      have hattacked : attacked t tid = attacked s tid := by
        unfold attacked
        rw [hhalted, hpc]
      rw [List.foldl_cons, List.countP_cons]
      unfold attackThread
      rw [hattacked]
      cases attacked s tid with
      | false => exact ih t hhalted hpc
      | true =>
        have hfault := processFault_faulted t tid
        have hrest := ih (processFault t tid) (hfault.halted.trans hhalted) (hfault.pc.trans hpc)
        have hboth := hfault.trans hrest
        rw [Nat.add_comm] at hboth
        exact hboth
  exact hloop _ s rfl rfl

/-- The thread is attacked and has a register of the class, which is not the zero register: a fault is counted. -/
def hit (s : CHAOSReg cfg) (tid : Nat) : Bool :=
  let cls := chooseClass cfg tid s.rng
  attacked s tid && cfg.hasContext tid && cfg.hasIsa tid &&
    cls.1.any fun c => !decide (c = .IntRegClass ∧ (chooseReg cfg tid c cls.2).1 = 31)

/-- The faults of an attack: each thread is looked at in the state that the faults in the threads before it leave. -/
def hits (s : CHAOSReg cfg) : Nat := countAlong hit attackThread s (List.range cfg.numThreads)

theorem count_attackThreads : (attackThreads s).faults_injected_count = s.faults_injected_count + hits s := by
  refine foldl_countAlong (fun t tid => ?_) s _
  unfold attackThread hit
  cases hattacked : attacked t tid with
  | false => simp
  | true =>
    rw [if_pos rfl, processFault]
    cases hctx : (cfg.hasContext tid && cfg.hasIsa tid) with
    | false =>
      have hnot : (!cfg.hasContext tid || !cfg.hasIsa tid) = true := by rw [← Bool.not_and, hctx]; rfl
      simp [hnot, hctx]
    | true =>
      have hnot : (!cfg.hasContext tid || !cfg.hasIsa tid) = false := by rw [← Bool.not_and, hctx]; rfl
      simp only [hnot, Bool.false_eq_true, ↓reduceIte, Bool.true_and, hctx]
      cases hcls : (chooseClass cfg tid t.rng).1 with
      | none => rfl
      | some c =>
        dsimp only [Option.any_some]
        split
        · rename_i hzero
          rw [decide_eq_true hzero]
          rfl
        · rename_i hzero
          rw [decide_eq_false hzero]
          rfl

theorem anyActive_of_targets {s : CHAOSReg cfg} (h : 0 < targets s) : cfg.anyActive s.halted = true := by
  obtain ⟨tid, hmem, hattacked⟩ := List.countP_pos_iff.1 h
  exact List.any_eq_true.2 ⟨tid, hmem, (Bool.and_eq_true_iff.1 hattacked).1⟩

def nextDelay (s : CHAOSReg cfg) : Nat := interFaultCycles cfg (attackThreads s).rng.next.1

def Reschedules (s : CHAOSReg cfg) (now : Nat) : Prop :=
  cfg.anyActive s.halted = true ∧ ¬Spent (attackThreads s) ∧
    (cfg.last_clock = 0 ∨ nextDelay s + cfg.curCycle now ≤ cfg.last_clock)

instance (s : CHAOSReg cfg) (now : Nat) : Decidable (Reschedules s now) := inferInstanceAs (Decidable (_ ∧ _))

private theorem reschedule_frame (now : Nat) :
    (reschedule s now).permanent_faults = s.permanent_faults ∧
    (reschedule s now).faults_injected_count = s.faults_injected_count ∧ (reschedule s now).halted = s.halted := by
  unfold reschedule
  dsimp only
  repeat' split
  all_goals exact ⟨rfl, rfl, rfl⟩

private theorem reschedule_queue {s : CHAOSReg cfg} (hevent : s.attackEvent = none) (now : Nat) :
    (reschedule s now).attackEvent =
      (if cfg.anyActive s.halted = true ∧ ¬Spent s ∧ (cfg.last_clock = 0 ∨
          interFaultCycles cfg s.rng.next.1 + cfg.curCycle now ≤ cfg.last_clock) then
        some { tick := cfg.clockEdge now (interFaultCycles cfg s.rng.next.1) }
      else none) ∧
    (reschedule s now).periodicCheck =
      if cfg.anyActive s.halted = true ∧ ¬Spent s then s.periodicCheck else Pending.squash s.periodicCheck := by
  unfold reschedule
  dsimp only
  split
  · rename_i hactive
    split
    · rename_i hspent
      rw [if_neg fun h => h.2.1 hspent, if_neg fun h => h.2 hspent]
      simp [unscheduleAttackEvent, hevent, Pending.squash]
    · rename_i hspent
      rw [if_pos (⟨hactive, hspent⟩ : _ ∧ ¬Spent s)]
      split
      · rename_i hlast
        rw [if_pos ⟨hactive, hspent, hlast⟩]
        simp [scheduleAttackEvent, hevent]
      · rename_i hlast
        rw [if_neg fun h => hlast h.2.2]
        exact ⟨hevent, rfl⟩
  · rename_i hactive
    rw [if_neg fun h => hactive h.1, if_neg fun h => hactive h.1]
    simp [unscheduleAttackEvent, hevent, Pending.squash]

theorem attackCheck_spec {s : CHAOSReg cfg} (hevent : s.attackEvent = none) (now : Nat) :
    (attackCheck s now).permanent_faults = (attackThreads s).permanent_faults ∧
    (attackCheck s now).faults_injected_count = (attackThreads s).faults_injected_count ∧
    (attackCheck s now).halted = s.halted ∧
    (attackCheck s now).attackEvent =
      (if Reschedules s now then some { tick := cfg.clockEdge now (nextDelay s) } else none) ∧
    (attackCheck s now).periodicCheck =
      if cfg.anyActive s.halted = true ∧ ¬Spent (attackThreads s) then s.periodicCheck
      else Pending.squash s.periodicCheck := by
  obtain ⟨hhalted, -, hattack, hcheck, -⟩ := attackThreads_faulted s
  obtain ⟨htable, hcount, hhalted'⟩ := reschedule_frame (attackThreads s) now
  obtain ⟨hnext, hkeep⟩ := reschedule_queue (hattack.trans hevent) now
  rw [hhalted] at hnext hkeep
  rw [hcheck] at hkeep
  exact ⟨htable, hcount, hhalted'.trans hhalted, hnext, hkeep⟩

theorem checkPermanent_regs (now : Nat) {key : Nat × RegId} {fault : PermanentFault}
    (hfault : s.permanent_faults.lookup key = some fault) (hupdate : fault.update = true)
    (hcontext : cfg.hasContext key.1 = true) : (checkPermanent s now).regs key = fault.reapply (s.regs key) := by
  have hloop : ∀ (l : List (Sigma fun _ : Nat × RegId => PermanentFault)) (t : CHAOSReg cfg),
      (l.foldl (checkEntry now) t).regs =
        l.foldl (Table.applyEntry (fun k => if cfg.hasContext k.1 then some k else none)
          fun f val => if f.update then f.reapply val else val) t.regs := by
    intro l
    induction l with
    | nil => exact fun t => rfl
    | cons e l ih =>
      intro t
      rw [List.foldl_cons, List.foldl_cons, ih]
      congr 1
      unfold checkEntry applies Table.applyEntry
      cases hctx : cfg.hasContext e.1.1 <;> cases hupd : e.2.update <;> simp [hctx, hupd, scheduleCheckPermanentFault]
  have hplace : ∀ k, (if cfg.hasContext k.1 then some k else none) = some key → k = key := by
    intro k hk
    split at hk
    · exact Option.some.inj hk
    · simp at hk
  unfold checkPermanent
  rw [hloop, Table.foldl_entries s.permanent_faults (k := key)
    (fun k k' hk hk' => (hplace k hk).trans (hplace k' hk').symm) (if_pos hcontext), hfault]
  simp [hupdate]

theorem checkPermanent_spec {s : CHAOSReg cfg} (hevent : s.periodicCheck = none) (now : Nat) :
    (checkPermanent s now).permanent_faults = s.permanent_faults ∧
    (checkPermanent s now).faults_injected_count = s.faults_injected_count ∧
    (checkPermanent s now).halted = s.halted ∧ (checkPermanent s now).attackEvent = s.attackEvent ∧
    (checkPermanent s now).periodicCheck =
      if s.permanent_faults.entries.any (applies cfg) then
        some { tick := cfg.clockEdge now cfg.cycles_permament_fault_check }
      else none := by
  have hloop : ∀ (l : List (Sigma fun _ : Nat × RegId => PermanentFault)) (t : CHAOSReg cfg),
      (l.foldl (checkEntry now) t).permanent_faults = t.permanent_faults ∧
      (l.foldl (checkEntry now) t).faults_injected_count = t.faults_injected_count ∧
      (l.foldl (checkEntry now) t).halted = t.halted ∧ (l.foldl (checkEntry now) t).attackEvent = t.attackEvent ∧
      (l.foldl (checkEntry now) t).periodicCheck =
        if l.any (applies cfg) then
          Pending.schedule t.periodicCheck (cfg.clockEdge now cfg.cycles_permament_fault_check)
        else t.periodicCheck := by
    intro l
    induction l with
    | nil => exact fun t => ⟨rfl, rfl, rfl, rfl, rfl⟩
    | cons e l ih =>
      intro t
      obtain ⟨h1, h2, h3, h4, h5⟩ := ih (checkEntry now t e)
      rw [List.foldl_cons, h1, h2, h3, h4, h5, List.any_cons]
      unfold checkEntry
      cases applies cfg e with
      | false => exact ⟨rfl, rfl, rfl, rfl, rfl⟩
      | true =>
        refine ⟨rfl, rfl, rfl, rfl, ?_⟩
        cases t.periodicCheck <;> cases l.any (applies cfg) <;> rfl
  obtain ⟨h1, h2, h3, h4, h5⟩ := hloop s.permanent_faults.entries s
  rw [hevent] at h5
  exact ⟨h1, h2, h3, h4, h5⟩

/-! ### Steps -/

def handling (s : CHAOSReg cfg) : CHAOSReg cfg := { s with attackEvent := none }

theorem step_attack_spec {s : CHAOSReg cfg} {p : Pending} (hp : s.attackEvent = some p) :
    (step s .attack).faults_injected_count = s.faults_injected_count + (if p.squashed then 0 else hits (handling s)) ∧
    (step s .attack).attackEvent =
      (if p.squashed = false ∧ Reschedules (handling s) p.tick then
        some { tick := cfg.clockEdge p.tick (nextDelay (handling s)) }
      else none) ∧
    ∀ q, (step s .attack).attackEvent = some q → ¬Spent (step s .attack) := by
  have hstep : step s .attack = if p.squashed then handling s else attackCheck (handling s) p.tick := by
    dsimp only [step]
    rw [hp]
    rfl
  obtain ⟨-, hcount, -, hnext, -⟩ := attackCheck_spec (s := handling s) rfl p.tick
  refine Pending.handled faults_injected_count attackEvent Spent (handling s) hstep rfl ?_ hnext fun hre hspent => ?_
  · rw [hcount, count_attackThreads]
  · unfold Spent at hspent
    rw [hcount] at hspent
    exact hre.2.1 hspent

theorem step_frame {e : Event} (he : e ≠ .attack) :
    (step s e).faults_injected_count = s.faults_injected_count ∧ (step s e).attackEvent = s.attackEvent := by
  cases e with
  | attack => exact absurd rfl he
  | check =>
    dsimp only [step]
    split
    · exact ⟨rfl, rfl⟩
    · rename_i p _
      split
      · exact ⟨rfl, rfl⟩
      · obtain ⟨-, hcount, -, hattack, -⟩ := checkPermanent_spec (s := { s with periodicCheck := none }) rfl p.tick
        exact ⟨hcount, hattack⟩
  | write key val => exact ⟨rfl, rfl⟩
  | setPc tid pc => exact ⟨rfl, rfl⟩
  | setHalted tid halted => exact ⟨rfl, rfl⟩

end CHAOSReg

/-- One thread with four registers in each class, stuck-at-one faults of bit 0 in integer register 2, a check in every
cycle, and a budget. -/
def oneThread (max_faults : Nat) : RegConfig :=
  { numThreads := 1, hasContext := fun _ => true, hasIsa := fun _ => true, clockPeriod := 1
    clockPeriod_pos := Nat.one_pos, first_clock := 0, last_clock := 0, max_faults := max_faults
    inter_fault_cycles_dist := fun n => n, numRegs := fun _ _ => 4, bitsToChange := 1, max_reg_idx := 0
    target_reg_idx := 2, fault_type_enum := .StuckAtOne, fault_mask := 1
    random_fault_distribution := Mem.firstType, cycles_permament_fault_check := 1
    reg_target_class_enum := .Integer, PC_target := 0, maskRounds := 64 }

end GemFI.Reg
