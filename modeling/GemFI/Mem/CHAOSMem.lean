import GemFI.Lib.Table
import GemFI.Mem.Fault

/-!
# The memory injector CHAOSMem

The attack handler corrupts one byte of memory and enters a stuck-at fault in a table; a periodic check applies the
table again.  `injectByte` is the handler from the read of the byte to its write, for a given address, mask and type;
`attackMemory` draws these and reschedules itself.

The configuration holds the values that the constructor has settled.  Of the log only the list of the injections is
kept.
-/

namespace GemFI.Mem

inductive AddrMode where
  | fixed | addr_map_sub
  deriving DecidableEq, Repr

inductive EccModel where
  | none | secded | ecc_logic_fault
  deriving DecidableEq, Repr

structure MemConfig where
  addr_mode : AddrMode
  addr_xor_mask : Nat
  protection_model : EccModel
  target_start : Nat
  target_end : Nat
  fault_type_enum : FaultType
  fault_mask : BitVec 8
  num_bits_to_change : Int
  max_faults : BitVec 64
  first_tick : Nat
  last_tick : Nat
  tick_to_clock_ratio : BitVec 32
  ticks_permament_fault_check : Nat
  random_fault_distribution : Nat → Fin 3
  inter_fault_tick_dist : Nat → BitVec 32

structure Injection where
  target_addr : Nat
  fault_type : FaultType
  mask : BitVec 8
  deriving DecidableEq, Repr

structure CHAOSMem (cfg : MemConfig) where
  memory : Nat → BitVec 8
  rng : Rng
  permanent_faults : AList (fun _ : Nat => PermanentFault) := ∅
  faults_injected_count : BitVec 64 := 0
  numFaultsInjected : Nat := 0
  numBitFlips : Nat := 0
  numStuckAtZero : Nat := 0
  numStuckAtOne : Nat := 0
  numPermanentFaults : Nat := 0
  numPermanentReapplies : Nat := 0
  numPermanentChecks : Nat := 0
  numEccCorrected : Nat := 0
  numDetectedContained : Nat := 0
  numLatent : Nat := 0
  numEccLogicMissed : Nat := 0
  attackEvent : Option Nat := none
  periodicCheck : Option Nat := none
  injections : List Injection := []

namespace CHAOSMem

variable {cfg : MemConfig}

def scheduleAttack (s : CHAOSMem cfg) (time : Nat) : CHAOSMem cfg :=
  if s.attackEvent.isNone then { s with attackEvent := some time } else s

def scheduleCheckPermanentFault (s : CHAOSMem cfg) (time : Nat) : CHAOSMem cfg :=
  if s.periodicCheck.isNone then { s with periodicCheck := some time } else s

def init (cfg : MemConfig) (memory : Nat → BitVec 8) (draw : Nat → Nat) : CHAOSMem cfg :=
  let s : CHAOSMem cfg := { memory := memory, rng := { draw := draw } }
  let (raw, rng) := s.rng.next
  let s := scheduleAttack { s with rng := rng }
    (cfg.first_tick + (cfg.inter_fault_tick_dist raw * cfg.tick_to_clock_ratio).toNat)
  scheduleCheckPermanentFault s (cfg.first_tick + cfg.ticks_permament_fault_check)

/-! ### One fault -/

def countFault (s : CHAOSMem cfg) (target_addr : Nat) (ty : FaultType) (mask : BitVec 8) : CHAOSMem cfg :=
  let s := { s with permanent_faults := record s.permanent_faults target_addr ty mask }
  match ty with
  | .StuckAtZero =>
    { s with numStuckAtZero := s.numStuckAtZero + 1, numPermanentFaults := s.numPermanentFaults + 1 }
  | .StuckAtOne => { s with numStuckAtOne := s.numStuckAtOne + 1, numPermanentFaults := s.numPermanentFaults + 1 }
  | .BitFlip => { s with numBitFlips := s.numBitFlips + 1 }
  | .Random => s

inductive Outcome where
  | unprotected | EccLogicMissed | EccCorrected | DetectedContained | Latent
  deriving DecidableEq, Repr

def outcome (protection_model : EccModel) (mask : BitVec 8) : Outcome :=
  if protection_model = .secded ∨ protection_model = .ecc_logic_fault then
    let bits := popcount mask
    if protection_model = .ecc_logic_fault ∧ bits = 1 then .EccLogicMissed
    else if bits = 1 then .EccCorrected
    else if bits = 2 then .DetectedContained
    else .Latent
  else .unprotected

def countOutcome (s : CHAOSMem cfg) : Outcome → CHAOSMem cfg
  | .unprotected => s
  | .EccLogicMissed => { s with numEccLogicMissed := s.numEccLogicMissed + 1 }
  | .EccCorrected => { s with numEccCorrected := s.numEccCorrected + 1 }
  | .DetectedContained => { s with numDetectedContained := s.numDetectedContained + 1 }
  | .Latent => { s with numLatent := s.numLatent + 1 }

/-- The body of the attack: read the byte, corrupt it, let the ECC model correct it, write it back. -/
def injectByte (s : CHAOSMem cfg) (target_addr : Nat) (mask : BitVec 8) (ty : FaultType) : CHAOSMem cfg :=
  let old_value := s.memory target_addr
  let s := countFault s target_addr ty mask
  let o := outcome cfg.protection_model mask
  let s := countOutcome s o
  let data := if o = .EccCorrected then old_value else ty.corrupt mask old_value
  { s with
    memory := Function.update s.memory target_addr data
    numFaultsInjected := s.numFaultsInjected + 1
    faults_injected_count := s.faults_injected_count + 1
    injections := s.injections ++ [⟨target_addr, ty, mask⟩] }

/-! ### The handlers -/

/-- The number of addresses that `uniform_int_distribution(target_start, target_end)` chooses from.  It is computed on 64
bits, so that a window whose end is before its start goes around the end of the address space. -/
def windowSize (cfg : MemConfig) : Nat := (cfg.target_end + 2 ^ 64 - cfg.target_start) % 2 ^ 64 + 1

def redirect (cfg : MemConfig) (target_addr : Nat) : Nat :=
  if cfg.addr_mode = .addr_map_sub then target_addr ^^^ cfg.addr_xor_mask else target_addr

def drawFault (s : CHAOSMem cfg) : Injection × Rng :=
  let offset := s.rng.below (windowSize cfg)
  let target_addr := redirect cfg ((cfg.target_start + offset.1) % 2 ^ 64)
  let mask :=
    if cfg.fault_mask ≠ 0#8 then (cfg.fault_mask, offset.2)
    else offset.2.generateRandomMask cfg.num_bits_to_change 8
  let ty := cfg.fault_type_enum.choose cfg.random_fault_distribution mask.2
  (⟨target_addr, ty.1, mask.1⟩, ty.2)

/-- The end of the attack: stop at the budget, or schedule the next one at least one cycle later. -/
def reschedule (s : CHAOSMem cfg) (now : Nat) : CHAOSMem cfg :=
  if cfg.max_faults ≠ 0 ∧ cfg.max_faults ≤ s.faults_injected_count then s
  else
    let (raw, rng) := s.rng.next
    let s := { s with rng := rng }
    let next_injection := now + nextDistance (cfg.inter_fault_tick_dist raw) cfg.tick_to_clock_ratio
    if next_injection ≤ cfg.last_tick ∨ cfg.last_tick = 0 then scheduleAttack s next_injection else s

def attackMemory (s : CHAOSMem cfg) (now : Nat) : CHAOSMem cfg :=
  let (f, rng) := drawFault s
  reschedule (injectByte { s with rng := rng } f.target_addr f.mask f.fault_type) now

def reapplyEntry (s : CHAOSMem cfg) (entry : Sigma fun _ : Nat => PermanentFault) : CHAOSMem cfg :=
  if !entry.2.update then s
  else
    { s with
      memory := Function.update s.memory entry.1 (entry.2.reapply (s.memory entry.1))
      numPermanentReapplies := s.numPermanentReapplies + 1 }

def checkPermanent (s : CHAOSMem cfg) (now : Nat) : CHAOSMem cfg :=
  let s := { s with numPermanentChecks := s.numPermanentChecks + 1 }
  let s := s.permanent_faults.entries.foldl reapplyEntry s
  scheduleCheckPermanentFault s (now + cfg.ticks_permament_fault_check)

def write (s : CHAOSMem cfg) (addr : Nat) (data : BitVec 8) : CHAOSMem cfg :=
  { s with memory := Function.update s.memory addr data }

/-! ### Runs -/

inductive Event where
  | attack
  | check
  | write (addr : Nat) (data : BitVec 8)
  deriving DecidableEq, Repr

def step (s : CHAOSMem cfg) : Event → CHAOSMem cfg
  | .attack =>
    match s.attackEvent with
    | none => s
    | some now => attackMemory { s with attackEvent := none } now
  | .check =>
    match s.periodicCheck with
    | none => s
    | some now => checkPermanent { s with periodicCheck := none } now
  | .write addr data => write s addr data

def run (s : CHAOSMem cfg) (es : List Event) : CHAOSMem cfg := es.foldl step s

/-! ### What the handlers do to memory and table -/

private theorem foldl_reapplyEntry (l : List (Sigma fun _ : Nat => PermanentFault)) (s : CHAOSMem cfg) :
    (l.foldl reapplyEntry s).memory = l.foldl (Table.applyEntry some PermanentFault.check) s.memory ∧
    (l.foldl reapplyEntry s).permanent_faults = s.permanent_faults ∧
    (l.foldl reapplyEntry s).injections = s.injections := by
  induction l generalizing s with
  | nil => exact ⟨rfl, rfl, rfl⟩
  | cons e l ih =>
    have hentry : (reapplyEntry s e).memory = Table.applyEntry some PermanentFault.check s.memory e ∧
        (reapplyEntry s e).permanent_faults = s.permanent_faults ∧ (reapplyEntry s e).injections = s.injections := by
      cases hu : e.2.update <;> simp [reapplyEntry, Table.applyEntry, PermanentFault.check, hu]
    obtain ⟨hm, hf, hi⟩ := ih (reapplyEntry s e)
    rw [List.foldl_cons, List.foldl_cons]
    exact ⟨by rw [hm, hentry.1], by rw [hf, hentry.2.1], by rw [hi, hentry.2.2]⟩

variable (s : CHAOSMem cfg)

theorem checkPermanent_memory (now addr : Nat) :
    (checkPermanent s now).memory addr =
      (s.permanent_faults.lookup addr).elim (s.memory addr) fun fault => fault.check (s.memory addr) := by
  obtain ⟨s', hs'⟩ : ∃ s' : CHAOSMem cfg, s' = { s with numPermanentChecks := s.numPermanentChecks + 1 } := ⟨_, rfl⟩
  have hmem : (checkPermanent s now).memory = (s.permanent_faults.entries.foldl reapplyEntry s').memory := by
    unfold checkPermanent scheduleCheckPermanentFault
    rw [hs']
    dsimp only
    split <;> rfl
  have hinj : ∀ k k' : Nat, some k = some addr → some k' = some addr → k = k' := by
    intro k k' hk hk'
    rw [Option.some.inj hk, Option.some.inj hk']
  rw [hmem, (foldl_reapplyEntry _ s').1, Table.foldl_entries s.permanent_faults hinj rfl, hs']

theorem checkPermanent_table (now : Nat) :
    (checkPermanent s now).permanent_faults = s.permanent_faults ∧
    (checkPermanent s now).injections = s.injections := by
  have h := (foldl_reapplyEntry s.permanent_faults.entries
    ({ s with numPermanentChecks := s.numPermanentChecks + 1 } : CHAOSMem cfg)).2
  unfold checkPermanent scheduleCheckPermanentFault
  dsimp only
  split
  · exact h
  · exact h

theorem injectByte_spec (addr : Nat) (mask : BitVec 8) (ty : FaultType) :
    (injectByte s addr mask ty).memory = Function.update s.memory addr
      (if outcome cfg.protection_model mask = .EccCorrected then s.memory addr else ty.corrupt mask (s.memory addr)) ∧
    (injectByte s addr mask ty).permanent_faults = record s.permanent_faults addr ty mask ∧
    (injectByte s addr mask ty).injections = s.injections ++ [⟨addr, ty, mask⟩] ∧
    (injectByte s addr mask ty).numEccCorrected =
      s.numEccCorrected + if outcome cfg.protection_model mask = .EccCorrected then 1 else 0 := by
  cases ty <;> cases ho : outcome cfg.protection_model mask <;> simp [injectByte, countFault, countOutcome, ho]

private theorem reschedule_frame (now : Nat) :
    (reschedule s now).memory = s.memory ∧ (reschedule s now).permanent_faults = s.permanent_faults ∧
    (reschedule s now).injections = s.injections ∧ (reschedule s now).periodicCheck = s.periodicCheck := by
  unfold reschedule scheduleAttack
  dsimp only
  repeat' split
  all_goals exact ⟨rfl, rfl, rfl, rfl⟩

theorem attackMemory_spec (now : Nat) :
    (attackMemory s now).memory = Function.update s.memory (drawFault s).1.target_addr
      (if outcome cfg.protection_model (drawFault s).1.mask = .EccCorrected then s.memory (drawFault s).1.target_addr
      else (drawFault s).1.fault_type.corrupt (drawFault s).1.mask (s.memory (drawFault s).1.target_addr)) ∧
    (attackMemory s now).permanent_faults =
      record s.permanent_faults (drawFault s).1.target_addr (drawFault s).1.fault_type (drawFault s).1.mask ∧
    (attackMemory s now).injections = s.injections ++ [(drawFault s).1] := by
  rcases hf : drawFault s with ⟨f, rng⟩
  obtain ⟨s', hs'⟩ : ∃ s' : CHAOSMem cfg, s' = { s with rng := rng } := ⟨_, rfl⟩
  have hattack : attackMemory s now = reschedule (injectByte s' f.target_addr f.mask f.fault_type) now := by
    unfold attackMemory
    rw [hf, hs']
  obtain ⟨hm, ht, hi, -⟩ := injectByte_spec s' f.target_addr f.mask f.fault_type
  obtain ⟨fm, ft, fi, -⟩ := reschedule_frame (injectByte s' f.target_addr f.mask f.fault_type) now
  refine ⟨?_, ?_, ?_⟩
  · rw [hattack, fm, hm, hs']
  · rw [hattack, ft, ht, hs']
  · rw [hattack, fi, hi, hs']

/-! ### What the handlers do to the event queue -/

private theorem injectByte_events (addr : Nat) (mask : BitVec 8) (ty : FaultType) :
    (injectByte s addr mask ty).attackEvent = s.attackEvent ∧
    (injectByte s addr mask ty).periodicCheck = s.periodicCheck ∧ (injectByte s addr mask ty).rng = s.rng ∧
    (injectByte s addr mask ty).faults_injected_count = s.faults_injected_count + 1 := by
  cases ty <;> cases ho : outcome cfg.protection_model mask <;> simp [injectByte, countFault, countOutcome, ho]

def nextAttack (s : CHAOSMem cfg) (now : Nat) : Option Nat :=
  let next_injection := now + nextDistance (cfg.inter_fault_tick_dist (drawFault s).2.next.1) cfg.tick_to_clock_ratio
  if cfg.max_faults ≠ 0 ∧ cfg.max_faults ≤ s.faults_injected_count + 1 then none
  else if next_injection ≤ cfg.last_tick ∨ cfg.last_tick = 0 then some next_injection
  else none

def delay (s : CHAOSMem cfg) : Nat :=
  nextDistance (cfg.inter_fault_tick_dist (drawFault s).2.next.1) cfg.tick_to_clock_ratio

theorem nextAttack_iff (now t : Nat) : nextAttack s now = some t ↔ (nextAttack s now).isSome ∧ t = now + delay s := by
  refine eq_some_iff_isSome (fun u hu => ?_) t
  unfold nextAttack at hu
  dsimp only at hu
  split at hu
  · simp at hu
  · split at hu
    · exact (Option.some.inj hu).symm
    · simp at hu

theorem attackMemory_events {s : CHAOSMem cfg} (hevent : s.attackEvent = none) (now : Nat) :
    (attackMemory s now).attackEvent = nextAttack s now ∧ (attackMemory s now).periodicCheck = s.periodicCheck := by
  rcases hf : drawFault s with ⟨f, rng⟩
  obtain ⟨t, ht⟩ : ∃ t, t = injectByte { s with rng := rng } f.target_addr f.mask f.fault_type := ⟨_, rfl⟩
  have hattack : attackMemory s now = reschedule t now := by
    unfold attackMemory
    rw [hf, ht]
  obtain ⟨hattackEvent, hcheck, hrng, hcount⟩ := injectByte_events { s with rng := rng } f.target_addr f.mask f.fault_type
  rw [← ht] at hattackEvent hcheck hrng hcount
  dsimp only at hattackEvent hcheck hrng hcount
  rw [hattack]
  refine ⟨?_, (reschedule_frame t now).2.2.2.trans hcheck⟩
  unfold reschedule nextAttack scheduleAttack
  dsimp only
  rw [hcount, hrng, hf, hattackEvent, hevent]
  split
  · rw [hattackEvent, hevent]
  · split
    · rfl
    · rfl

private theorem foldl_reapplyEntry_events (l : List (Sigma fun _ : Nat => PermanentFault)) (s : CHAOSMem cfg) :
    (l.foldl reapplyEntry s).attackEvent = s.attackEvent ∧ (l.foldl reapplyEntry s).periodicCheck = s.periodicCheck := by
  refine List.foldlRecOn l reapplyEntry
    (motive := fun t : CHAOSMem cfg => t.attackEvent = s.attackEvent ∧ t.periodicCheck = s.periodicCheck) ⟨rfl, rfl⟩ ?_
  intro t ht e _
  unfold reapplyEntry
  split <;> exact ht

theorem checkPermanent_events {s : CHAOSMem cfg} (hevent : s.periodicCheck = none) (now : Nat) :
    (checkPermanent s now).periodicCheck = some (now + cfg.ticks_permament_fault_check) ∧
    (checkPermanent s now).attackEvent = s.attackEvent := by
  obtain ⟨t, ht⟩ : ∃ t : CHAOSMem cfg, t = s.permanent_faults.entries.foldl reapplyEntry
    { s with numPermanentChecks := s.numPermanentChecks + 1 } := ⟨_, rfl⟩
  obtain ⟨hattack, hcheck⟩ := foldl_reapplyEntry_events s.permanent_faults.entries
    ({ s with numPermanentChecks := s.numPermanentChecks + 1 } : CHAOSMem cfg)
  rw [← ht] at hattack hcheck
  dsimp only at hattack hcheck
  unfold checkPermanent scheduleCheckPermanentFault
  dsimp only
  rw [← ht, hcheck, hevent]
  exact ⟨rfl, hattack⟩

end CHAOSMem

def oneByte : MemConfig :=
  { addr_mode := .fixed, addr_xor_mask := 0x1000, protection_model := .none, target_start := 0, target_end := 0,
    fault_type_enum := .StuckAtOne, fault_mask := 0, num_bits_to_change := 1, max_faults := 0, first_tick := 0,
    last_tick := 0, tick_to_clock_ratio := 1000, ticks_permament_fault_check := 1000,
    random_fault_distribution := firstType, inter_fault_tick_dist := fun _ => 0 }

end GemFI.Mem
