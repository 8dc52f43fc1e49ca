import GemFI.Reg.CHAOSPhysReg
import Mathlib.Data.List.Induction

/-!
# Stuck cells of the physical register file

A stuck-at fault in a scalar register arms the one stuck target of the register file, which forces its bits on every
later write (`stuck_target_run`).  The next stuck-at fault takes it over, and a fault in a vector register never arms
it.  So all cells that stuck-at faults have hit keep their values, whatever the program writes, exactly if the last
stuck-at fault of a scalar register covers them all (`stuck_cells_iff`).
-/

namespace GemFI.Reg

open Mem (FaultType)
open PhysRegFile CHAOSPhysReg

variable {cfg : PhysRegConfig} {s : CHAOSPhysReg cfg}

/-! ### One target -/

theorem injectScalar_mirrors {cls : ScalarClass} {idx : Nat} (hhit : ¬triggerMiss cfg (s.regFile.reg cls idx))
    (tid : Nat) {ty : FaultType} {mask : BitVec 64} {f : Force 64} (hf : stuckForce ty mask = some f) :
    Mirrors f cls idx (injectScalar s tid cls idx ty mask).regFile s.regFile.clearStuckTarget := by
  obtain ⟨-, -, hvec, hstuck, hreg⟩ := injectScalar_spec hhit tid ty mask
  obtain ⟨areg, -, astuck⟩ := arm_spec s.regFile cls idx ty mask
  have harmed : armedBy s.regFile.stuck cls idx ty mask = some ⟨.scalar cls, idx, f.mask, f.one⟩ := by
    simp only [armedBy, hf]
  have hstick : (arm s.regFile cls idx ty mask).stick cls idx (faulty ty mask (s.regFile.reg cls idx)) =
      f.apply (s.regFile.reg cls idx) := by
    rw [stick, astuck, harmed, faulty_eq_apply hf]
    simp only [and_self, ↓reduceIte]
    exact apply_apply f _
  refine ⟨?_, fun c i hne => ?_, hvec, hstuck.trans harmed, rfl⟩
  · rw [hreg, setReg_reg, if_pos ⟨rfl, rfl⟩, hstick]
    rfl
  · rw [hreg, setReg_reg, if_neg hne, areg]
    rfl

/-- After a stuck-at injection into a scalar register and any accesses, the bits of the mask hold the polarity, the other
bits of the register hold the last value written, and all other registers hold what they would without the target. -/
theorem stuck_target_run (s : CHAOSPhysReg cfg) (tid : Nat) (cls : ScalarClass) (idx : Nat) (ty : FaultType)
    (mask : BitVec 64) (hstuck : ty = .StuckAtZero ∨ ty = .StuckAtOne)
    (hhit : ¬triggerMiss cfg (s.regFile.reg cls idx)) (ops : List RegOp) :
    (∀ i < 64, (((injectScalar s tid cls idx ty mask).regFile.accesses ops).reg cls idx).getLsbD i =
      if mask.getLsbD i then decide (ty = .StuckAtOne)
      else (lastWritten cls idx ops (s.regFile.reg cls idx)).getLsbD i) ∧
    (∀ c i, ¬(c = cls ∧ i = idx) →
      ((injectScalar s tid cls idx ty mask).regFile.accesses ops).reg c i =
        (s.regFile.clearStuckTarget.accesses ops).reg c i) ∧
    ((injectScalar s tid cls idx ty mask).regFile.accesses ops).vecReg =
      (s.regFile.clearStuckTarget.accesses ops).vecReg := by
  obtain ⟨f, hf, hone⟩ : ∃ f, stuckForce ty mask = some f ∧ f.one = decide (ty = .StuckAtOne) := by
    rcases hstuck with rfl | rfl <;> exact ⟨_, rfl, rfl⟩
  have hrun := (injectScalar_mirrors hhit tid hf).run ops
  refine ⟨fun i _ => ?_, hrun.other, hrun.vec⟩
  rw [hrun.target, reg_eq_lastWritten rfl, Force.getLsbD_apply, stuckForce_mask hf, hone]
  rfl

/-- Register 2 holds a 1 in the stuck bit 0 when the program writes 4 to it, and register 3 takes 8 as it would anyway. -/
theorem stuck_target_run_sample :
    let s := init fourRegs (fun _ _ => 0) (fun _ _ => 0) fun _ => 0
    let ops : List RegOp := [.setReg .IntRegClass 2 4, .setReg .IntRegClass 3 8]
    let r := (injectScalar s 0 .IntRegClass 2 .StuckAtOne 1).regFile.accesses ops
    ¬triggerMiss fourRegs (s.regFile.reg .IntRegClass 2) ∧ (r.reg .IntRegClass 2).getLsbD 0 = true ∧
    (r.reg .IntRegClass 2).getLsbD 2 = true ∧ (r.reg .IntRegClass 2).getLsbD 3 = false ∧ r.reg .IntRegClass 3 = 8 := by
  intro s ops r
  have hhit : ¬triggerMiss fourRegs (s.regFile.reg .IntRegClass 2) := by decide
  obtain ⟨hbits, hother, -⟩ := stuck_target_run s 0 .IntRegClass 2 .StuckAtOne 1 (Or.inr rfl) hhit ops
  refine ⟨hhit, ?_, ?_, ?_, ?_⟩
  · rw [hbits 0 (by decide)]
    decide
  · rw [hbits 2 (by decide)]
    decide
  · rw [hbits 3 (by decide)]
    decide
  · rw [hother .IntRegClass 3 (by decide)]
    decide

/-! ### Cells -/

/-- The value that an injection holds a cell at: none if it is not a stuck-at fault of the cell. -/
def Injected.holds (vecRegBytes : Nat) (f : Injected) (slot : Slot) (i : Nat) : Option Bool :=
  if f.slot = slot ∧ f.first ≤ i ∧ i < width vecRegBytes slot.1 ∧ f.mask.getLsbD (i - f.first) = true then
    (stuckForce f.fault_type f.mask).map (·.one)
  else none

def latestValue (vecRegBytes : Nat) (fs : List Injected) (slot : Slot) (i : Nat) : Option Bool :=
  fs.reverse.findSome? fun f => f.holds vecRegBytes slot i

def Injected.arms (f : Injected) : Bool :=
  match f.slot.1 with
  | .scalar _ => (stuckForce f.fault_type f.mask).isSome
  | .VecRegClass => false

def armedFault (fs : List Injected) : Option Injected := (fs.filter Injected.arms).getLast?

def ArmedCovers (vecRegBytes : Nat) (fs : List Injected) : Prop :=
  ∀ slot i, (latestValue vecRegBytes fs slot i).isSome →
    ∃ a, armedFault fs = some a ∧ (a.holds vecRegBytes slot i).isSome

theorem latestValue_concat (n : Nat) (fs : List Injected) (f : Injected) (slot : Slot) (i : Nat) :
    latestValue n (fs ++ [f]) slot i = (f.holds n slot i).or (latestValue n fs slot i) := by
  unfold latestValue
  rw [List.reverse_append, List.reverse_singleton, List.singleton_append, List.findSome?_cons]
  cases f.holds n slot i <;> rfl

theorem armedFault_concat (fs : List Injected) (f : Injected) :
    armedFault (fs ++ [f]) = if f.arms then some f else armedFault fs := by
  unfold armedFault
  rw [List.filter_append]
  cases harms : f.arms <;> simp [harms]

variable {v : Bool} {i : Nat} {n : Nat} {fs : List Injected} {a : Injected} {slot : Slot}

theorem armedFault_arms (h : armedFault fs = some a) : a.arms = true :=
  (List.mem_filter.1 (List.mem_of_getLast? h)).2

theorem holds_isSome {f : Injected} (h : f.holds n slot i = some v) :
    f.slot = slot ∧ f.first ≤ i ∧ i < width n slot.1 ∧ f.mask.getLsbD (i - f.first) = true ∧
      ∃ force, stuckForce f.fault_type f.mask = some force ∧ force.one = v := by
  unfold Injected.holds at h
  split at h
  · rename_i hcover
    obtain ⟨force, hforce, hone⟩ := Option.map_eq_some_iff.1 h
    exact ⟨hcover.1, hcover.2.1, hcover.2.2.1, hcover.2.2.2, force, hforce, hone⟩
  · simp at h

theorem latestValue_of_armed (harmed : armedFault fs = some a) (hv : a.holds n slot i = some v) : latestValue n fs slot i = some v := by
  induction fs using List.reverseRecOn with
  | nil => simp [armedFault] at harmed
  | append_singleton fs f ih =>
    rw [armedFault_concat] at harmed
    rw [latestValue_concat]
    split at harmed
    · have heq := Option.some.inj harmed
      rw [heq, hv]
      rfl
    · rename_i hnot
      have hnone : f.holds n slot i = none := by
        -- a later stuck-at fault is one of a vector register
        cases hf : f.holds n slot i with
        | none => rfl
        | some w =>
          exfalso
          obtain ⟨hslot, -, -, -, force, hforce, -⟩ := holds_isSome hf
          obtain ⟨haslot, -⟩ := holds_isSome hv
          have harms := armedFault_arms harmed
          unfold Injected.arms at harms hnot
          rw [haslot, ← hslot] at harms
          cases hcls : f.slot.1 with
          | scalar c => simp [hcls, hforce] at hnot
          | VecRegClass => simp [hcls] at harms
      rw [hnone, Option.none_or]
      exact ih harmed

/-! ### The target in a run -/

def Injected.target (f : Injected) : Option StuckTarget :=
  (stuckForce f.fault_type f.mask).map fun force => ⟨f.slot.1, f.slot.2, force.mask, force.one⟩

def Held {n : Nat} (r : PhysRegFile n) : Prop :=
  ∀ t ∈ r.stuck, ∀ cls, t.stuck_type = .scalar cls →
    t.force.apply (r.reg cls t.stuck_idx) = r.reg cls t.stuck_idx

structure TargetHolds (s : CHAOSPhysReg cfg) : Prop where
  armed : s.regFile.stuck = (armedFault s.injections).bind Injected.target
  held : Held s.regFile
  origin : ∀ f ∈ s.injections, f.arms = true → f.first = 0

theorem held_same {r r' : PhysRegFile n} (hsame : SameRegs r r') (h : Held r) : Held r' := by
  unfold Held
  rw [hsame.stuck, hsame.reg]
  exact h

theorem held_setReg {r : PhysRegFile n} (h : Held r) (c : ScalarClass) (i : Nat) (val : BitVec 64) :
    Held (r.setReg c i val) := by
  intro t ht cls hcls
  rw [(r.setReg_frame c i val).2] at ht
  rw [setReg_reg]
  by_cases hat : cls = c ∧ t.stuck_idx = i
  · have hstick : r.stick c i val = t.force.apply val := by
      rw [stick, Option.mem_def.1 ht]
      simp only [hcls, hat.1, hat.2, and_self, ↓reduceIte]
    rw [if_pos hat, hstick, apply_apply]
  · rw [if_neg hat]
    exact h t ht cls hcls

theorem targetHolds_core {s t : CHAOSPhysReg cfg} (hcore : SameCore s t) (h : TargetHolds s) : TargetHolds t where
  armed := by rw [hcore.regs.stuck, hcore.log, h.armed]
  held := held_same hcore.regs h.held
  origin := by
    rw [hcore.log]
    exact h.origin

theorem targetHolds_setReg (h : TargetHolds s) (c : ScalarClass) (i : Nat) (val : BitVec 64) :
    TargetHolds { s with regFile := s.regFile.setReg c i val } where
  armed := (s.regFile.setReg_frame c i val).2.trans h.armed
  held := held_setReg h.held c i val
  origin := h.origin

theorem targetHolds_access (h : TargetHolds s) (op : RegOp) : TargetHolds (s.access op) := by
  cases op with
  | getReg c i => exact targetHolds_core ⟨s.regFile.countRead_same _, rfl, rfl⟩ h
  | getRegBuf c i => exact targetHolds_core ⟨s.regFile.countRead_same _, rfl, rfl⟩ h
  | setReg c i val => exact targetHolds_setReg h c i val
  | setRegBuf c i buf =>
    cases c with
    | scalar c => exact targetHolds_setReg h c i _
    | VecRegClass =>
      obtain ⟨hreg, -, hstuck⟩ := s.regFile.setVec_frame i buf
      refine ⟨hstuck.trans h.armed, ?_, h.origin⟩
      show Held (s.regFile.setRegBuf .VecRegClass i buf)
      intro t ht cls hcls
      rw [hstuck] at ht
      rw [hreg]
      exact h.held t ht cls hcls
  | getWritableReg i buf => exact ⟨h.armed, h.held, h.origin⟩

theorem targetHolds_injectScalar (h : TargetHolds s) {cls : ScalarClass} {idx : Nat}
    (hhit : ¬triggerMiss cfg (s.regFile.reg cls idx)) (tid : Nat) (ty : FaultType) (mask : BitVec 64) :
    TargetHolds (injectScalar s tid cls idx ty mask) := by
  obtain ⟨hlog, -, -, hstuck, hreg⟩ := injectScalar_spec hhit tid ty mask
  have horigin : ∀ f ∈ (injectScalar s tid cls idx ty mask).injections, f.arms = true → f.first = 0 := by
    rw [hlog]
    intro f hf
    rcases List.mem_append.1 hf with hf | hf
    · exact h.origin f hf
    · rw [List.mem_singleton.1 hf]
      exact fun _ => rfl
  cases hf : stuckForce ty mask with
  | none =>
    have hsame : (injectScalar s tid cls idx ty mask).regFile.stuck = s.regFile.stuck := by
      rw [hstuck, armedBy, hf]
    have harm : arm s.regFile cls idx ty mask = s.regFile := by
      cases ty <;> simp [stuckForce] at hf <;> rfl
    have hnot : Injected.arms ⟨(.scalar cls, idx), ty, 0, mask⟩ = false := by
      simp [Injected.arms, hf]
    have hset := targetHolds_setReg h cls idx (faulty ty mask (s.regFile.reg cls idx))
    refine ⟨?_, ?_, horigin⟩
    · rw [hsame, hlog, armedFault_concat, hnot]
      exact h.armed
    · intro t ht c hc
      rw [hsame] at ht
      rw [hreg, harm]
      exact hset.held t (by rw [(setReg_frame ..).2]; exact ht) c hc
  | some f =>
    have hmirrors := injectScalar_mirrors hhit tid hf
    have harms : Injected.arms ⟨(.scalar cls, idx), ty, 0, mask⟩ = true := by
      simp [Injected.arms, hf]
    refine ⟨?_, ?_, horigin⟩
    · rw [hmirrors.armed, hlog, armedFault_concat, harms]
      simp [Injected.target, hf]
    · intro t ht c hc
      rw [hmirrors.armed] at ht
      have heq := Option.some.inj (Option.mem_def.1 ht)
      subst heq
      obtain ⟨rfl⟩ := RegClassType.scalar.inj hc
      show f.apply _ = _
      rw [hmirrors.target, apply_apply]

theorem targetHolds_injectVector (h : TargetHolds s) (tid idx : Nat) (ty : FaultType) (mask : BitVec 64) :
    TargetHolds (injectVector s tid idx ty mask) := by
  obtain ⟨start, buf, hlog, -, hreg, hstuck, -⟩ := injectVector_spec s tid idx ty mask
  refine ⟨?_, ?_, ?_⟩
  · rw [hstuck, hlog, armedFault_concat]
    exact h.armed
  · intro t ht cls hcls
    rw [hstuck] at ht
    rw [hreg]
    exact h.held t ht cls hcls
  · rw [hlog]
    intro f hf harms
    rcases List.mem_append.1 hf with hf | hf
    · exact h.origin f hf harms
    · rw [List.mem_singleton.1 hf] at harms
      exact absurd harms (by simp [Injected.arms])

theorem targetHolds_checkPermanent (h : TargetHolds s) (now : Nat) : TargetHolds (checkPermanent s now) := by
  obtain ⟨hregs, -, hlog, -⟩ := checkPermanent_spec s now
  have hloop : TargetHolds { s with
      regFile := (s.permanent_faults.filter (pending cfg)).foldl reapplyEntry s.regFile } := by
    refine List.foldlRecOn (motive := fun r => TargetHolds { s with regFile := r }) _ reapplyEntry h fun r hr e _ => ?_
    have hread : TargetHolds { s with regFile := r.countRead (.scalar .IntRegClass, e.1.2) } :=
      targetHolds_core (s := { s with regFile := r }) ⟨r.countRead_same _, rfl, rfl⟩ hr
    exact targetHolds_setReg hread _ _ _
  refine ⟨?_, ?_, ?_⟩
  · rw [hregs, hlog]
    exact hloop.armed
  · rw [hregs]
    exact hloop.held
  · rw [hlog]
    exact h.origin

theorem targetHolds_run (h : TargetHolds s) (es : List Event) : TargetHolds (run s es) :=
  run_keeps (fun _ _ hcore hs => targetHolds_core hcore hs)
    (fun _ tid _ _ ty mask hhit hs => targetHolds_injectScalar hs hhit tid ty mask)
    (fun _ tid idx ty mask hs => targetHolds_injectVector hs tid idx ty mask)
    (fun _ now hs => targetHolds_checkPermanent hs now) (fun _ op hs => targetHolds_access hs op) h es

theorem targetHolds_init (cfg : PhysRegConfig) (reg : ScalarClass → Nat → BitVec 64) (vecReg : Nat → Nat → BitVec 8)
    (draw : Nat → Nat) : TargetHolds (init cfg reg vecReg draw) := by
  have hstuck : (init cfg reg vecReg draw).regFile.stuck = none := rfl
  refine ⟨hstuck, fun t ht => ?_, fun f hf => absurd hf List.not_mem_nil⟩
  rw [hstuck] at ht
  simp at ht

/-! ### All cells -/

def CellsStuck (s : CHAOSPhysReg cfg) : Prop :=
  ∀ slot i v, latestValue cfg.vecRegBytes s.injections slot i = some v → s.regFile.bit slot i = v

theorem accesses_frame (s : CHAOSPhysReg cfg) (ops : List RegOp) :
    (s.accesses ops).injections = s.injections ∧ (s.accesses ops).permanent_faults = s.permanent_faults := by
  induction ops generalizing s with
  | nil => exact ⟨rfl, rfl⟩
  | cons op ops ih => exact ih (s.access op)

theorem targetHolds_accesses (h : TargetHolds s) (ops : List RegOp) : TargetHolds (s.accesses ops) := by
  induction ops generalizing s with
  | nil => exact h
  | cons op ops ih => exact ih (targetHolds_access h op)

theorem armed_target (h : TargetHolds s) (harmed : armedFault s.injections = some a) :
    ∃ cls force, a.slot.1 = .scalar cls ∧ a.first = 0 ∧ stuckForce a.fault_type a.mask = some force ∧
      s.regFile.stuck = some ⟨.scalar cls, a.slot.2, a.mask, force.one⟩ := by
  have harms := armedFault_arms harmed
  have hfirst := h.origin a (List.mem_filter.1 (List.mem_of_getLast? harmed)).1 harms
  unfold Injected.arms at harms
  cases hcls : a.slot.1 with
  | VecRegClass => simp [hcls] at harms
  | scalar cls =>
    simp only [hcls] at harms
    obtain ⟨force, hforce⟩ := Option.isSome_iff_exists.1 harms
    refine ⟨cls, force, rfl, hfirst, hforce, ?_⟩
    rw [h.armed, harmed]
    simp [Injected.target, hforce, hcls, stuckForce_mask hforce]

theorem bit_of_armed (h : TargetHolds s) (harmed : armedFault s.injections = some a) (hv : a.holds cfg.vecRegBytes slot i = some v) : s.regFile.bit slot i = v := by
  obtain ⟨hslot, -, -, hmask, force, hforce, hone⟩ := holds_isSome hv
  obtain ⟨cls, force', hcls, hfirst, hforce', hstuck⟩ := armed_target h harmed
  rw [hforce] at hforce'
  obtain rfl := Option.some.inj hforce'
  have hheld := h.held _ hstuck cls rfl
  rw [hfirst, Nat.sub_zero] at hmask
  have hbit := congrArg (BitVec.getLsbD · i) hheld
  simp only [StuckTarget.force, Force.getLsbD_apply, hmask, ↓reduceIte] at hbit
  rw [← hslot]
  simp only [bit, hcls]
  rw [← hbit, hone]

def fill (w : Nat) (v : Bool) : BitVec w := if v then BitVec.allOnes w else 0#w

theorem getLsbD_fill {w i : Nat} (hi : i < w) (v : Bool) : (fill w v).getLsbD i = v := by
  unfold fill
  cases v with
  | false => rw [if_neg Bool.false_ne_true, BitVec.getLsbD_zero]
  | true => rw [if_pos rfl, BitVec.getLsbD_allOnes, decide_eq_true hi]

theorem exists_write (h : TargetHolds s) (hi : i < width cfg.vecRegBytes slot.1)
    (hfree : ∀ a, armedFault s.injections = some a → a.holds cfg.vecRegBytes slot i = none) (v : Bool) :
    ∃ op, (s.access op).regFile.bit slot i = v := by
  obtain ⟨cls, idx⟩ := slot
  cases cls with
  | scalar cls =>
    refine ⟨.setReg cls idx (fill 64 v), ?_⟩
    have hval : (fill 64 v).getLsbD i = v := getLsbD_fill hi v
    have hstick : (s.regFile.stick cls idx (fill 64 v)).getLsbD i = v := by
      unfold stick
      cases harmed : armedFault s.injections with
      | none =>
        rw [h.armed, harmed]
        exact hval
      | some a =>
        obtain ⟨c, force, hcls, hfirst, hforce, hstuck⟩ := armed_target h harmed
        rw [hstuck]
        dsimp only
        split
        · rename_i hat
          -- the target is the register, so its mask leaves the bit free
          have hslot : a.slot = (.scalar cls, idx) := Prod.ext (hcls.trans hat.1) hat.2
          have hmask : a.mask.getLsbD i = false := by
            have hnone := hfree a harmed
            unfold Injected.holds at hnone
            by_contra hset
            rw [if_pos ⟨hslot, by omega, hi, by simpa [hfirst] using hset⟩, hforce] at hnone
            simp at hnone
          rw [StuckTarget.force, Force.getLsbD_apply, hmask]
          exact hval
        · exact hval
    show ((s.regFile.setReg cls idx _).reg cls idx).getLsbD i = v
    rw [setReg_reg, if_pos ⟨rfl, rfl⟩, hstick]
  | VecRegClass =>
    refine ⟨.getWritableReg idx fun _ => fill 8 v, ?_⟩
    have hbyte : i / 8 < cfg.vecRegBytes := by
      simp only [width] at hi
      omega
    show ((s.regFile.storeVec idx _).vecReg idx (i / 8)).getLsbD (i % 8) = v
    simp only [storeVec, Function.update_self, hbyte, ↓reduceIte]
    exact getLsbD_fill (Nat.mod_lt _ (by omega)) v

theorem lt_width_of_latestValue (h : latestValue n fs slot i = some v) : i < width n slot.1 := by
  obtain ⟨f, -, hf⟩ := List.exists_of_findSome?_eq_some h
  exact (holds_isSome hf).2.2.1

/-- In every run, the cells of all stuck-at faults keep their values, whatever the program reads and writes from then on,
exactly if the last stuck-at fault of a scalar register covers the cells of all stuck-at faults. -/
theorem stuck_cells_iff (cfg : PhysRegConfig) (reg : ScalarClass → Nat → BitVec 64) (vecReg : Nat → Nat → BitVec 8)
    (draw : Nat → Nat) (es : List Event) :
    (∀ ops, CellsStuck ((run (init cfg reg vecReg draw) es).accesses ops)) ↔
      ArmedCovers cfg.vecRegBytes (run (init cfg reg vecReg draw) es).injections := by
  have h := targetHolds_run (targetHolds_init cfg reg vecReg draw) es
  obtain ⟨s, hs⟩ : ∃ s, s = run (init cfg reg vecReg draw) es := ⟨_, rfl⟩
  rw [← hs] at h ⊢
  constructor
  · intro hstuck slot i hsome
    obtain ⟨v, hv⟩ := Option.isSome_iff_exists.1 hsome
    by_contra hnot
    have hcell : ∀ a, armedFault s.injections = some a → a.holds cfg.vecRegBytes slot i = none := by
      intro a ha
      by_contra hne
      exact hnot ⟨a, ha, Option.isSome_iff_ne_none.2 hne⟩
    obtain ⟨op, hop⟩ := exists_write h (lt_width_of_latestValue hv) hcell (!v)
    have hbit := hstuck [op] slot i v (by rw [(accesses_frame s [op]).1, hv])
    rw [show s.accesses [op] = s.access op from rfl, hop] at hbit
    cases v <;> simp at hbit
  · intro hcovers ops slot i v hv
    have hops := targetHolds_accesses h ops
    rw [(accesses_frame s ops).1] at hv
    obtain ⟨a, harmed, hholds⟩ := hcovers slot i (by rw [hv]; rfl)
    obtain ⟨w, hw⟩ := Option.isSome_iff_exists.1 hholds
    have heq : w = v := by
      have hlatest := latestValue_of_armed harmed hw
      rw [hv] at hlatest
      exact (Option.some.inj hlatest).symm
    rw [← heq]
    exact bit_of_armed hops (by rw [(accesses_frame s ops).1, harmed]) hw

/-- Two faults, in the integer registers 0 and 1: a write to the first clears its stuck bit.  A fault in the vector
register 0: a write through the pointer of the register clears its stuck bit. -/
theorem stuck_cells_lost :
    let s : CHAOSPhysReg fourRegs := run (init fourRegs (fun _ _ => 0) (fun _ _ => 0) fun n => if n = 3 then 1 else 0)
      [.attack, .attack, .op (.setReg .IntRegClass 0 0)]
    let t : CHAOSPhysReg { fourRegs with reg_target_class := .Vector } :=
      run (init _ (fun _ _ => 0) (fun _ _ => 0) fun _ => 0) [.attack, .op (.getWritableReg 0 fun _ => 0)]
    (s.injections = [⟨(.scalar .IntRegClass, 0), .StuckAtOne, 0, 1⟩, ⟨(.scalar .IntRegClass, 1), .StuckAtOne, 0, 1⟩] ∧
      s.regFile.reg .IntRegClass 0 = 0 ∧ ¬CellsStuck s) ∧
    t.injections = [⟨(.VecRegClass, 0), .StuckAtOne, 0, 1⟩] ∧ t.regFile.vecReg 0 0 = 0 ∧ ¬CellsStuck t := by
  intro s t
  refine ⟨⟨by decide, by decide, fun h => ?_⟩, by decide, by decide, fun h => ?_⟩
  · exact absurd (h (.scalar .IntRegClass, 0) 0 true (by decide)) (by decide)
  · exact absurd (h (.VecRegClass, 0) 0 true (by decide)) (by decide)

end GemFI.Reg
