import GemFI.Reg.Stuck

/-!
# The check of CHAOSPhysReg changes the integer file

`checkPermanent` applies every pending entry of its table to the integer register of the entry's index, whatever the
class of the fault was, with the full mask.  So it changes cells of stuck-at faults only exactly if every pending
entry has a mask of bits that stuck-at faults have hit in the integer register of its index (`check_framed_iff`).
-/

namespace GemFI.Reg

open Mem (FaultType)
open PhysRegFile CHAOSPhysReg

variable {cfg : PhysRegConfig}

def Hit (vecRegBytes : Nat) (fs : List Injected) (slot : Slot) (i : Nat) : Prop :=
  ∃ f ∈ fs, (f.holds vecRegBytes slot i).isSome

/-- The check changes only cells that stuck-at faults have hit. -/
def CheckFramed (s : CHAOSPhysReg cfg) (now : Nat) : Prop :=
  ∀ slot i, (checkPermanent s now).regFile.bit slot i ≠ s.regFile.bit slot i → Hit cfg.vecRegBytes s.injections slot i

/-! ### One entry -/

def StuckTable (s : CHAOSPhysReg cfg) : Prop :=
  ∀ e ∈ s.permanent_faults, ∃ f, stuckForce e.2.fault_type e.2.mask = some f

def TargetCovers {n : Nat} (r : PhysRegFile n) (slot : Slot) (i : Nat) : Prop :=
  ∃ t ∈ r.stuck, t.slot = slot ∧ t.stuck_mask.getLsbD i = true

/-- The entry writes the cell, and the target does not keep it from that. -/
def Touches {n : Nat} (r : PhysRegFile n) (slot : Slot) (i : Nat) (e : (Nat × Nat) × PermanentFault) : Prop :=
  slot = (.scalar .IntRegClass, e.1.2) ∧ e.2.mask.getLsbD i = true ∧ ¬TargetCovers r slot i

variable {slot : Slot} {n : Nat} {r : PhysRegFile n}

theorem reapplyEntry_stuck (r : PhysRegFile n) (e : (Nat × Nat) × PermanentFault) :
    (reapplyEntry r e).stuck = r.stuck :=
  (setReg_frame ..).2.trans (r.countRead_same _).stuck

theorem reapplyEntry_held (h : Held r) (e : (Nat × Nat) × PermanentFault) : Held (reapplyEntry r e) :=
  held_setReg (held_same (r.countRead_same _) h) _ _ _

theorem touches_congr {r r' : PhysRegFile n} (h : r'.stuck = r.stuck) (slot : Slot) (i : Nat)
    (e : (Nat × Nat) × PermanentFault) : Touches r' slot i e ↔ Touches r slot i e := by
  unfold Touches TargetCovers
  rw [h]

theorem getLsbD_stick (hheld : Held r) (idx : Nat) (val : BitVec 64) (i : Nat) :
    (TargetCovers r (.scalar .IntRegClass, idx) i →
      (r.stick .IntRegClass idx val).getLsbD i = (r.reg .IntRegClass idx).getLsbD i) ∧
    (¬TargetCovers r (.scalar .IntRegClass, idx) i → (r.stick .IntRegClass idx val).getLsbD i = val.getLsbD i) := by
  constructor
  · rintro ⟨t, ht, hslot, hmask⟩
    obtain ⟨htype, hidx⟩ := Prod.mk.inj hslot
    have hbit := congrArg (BitVec.getLsbD · i) (hheld t ht .IntRegClass htype)
    simp only [Force.getLsbD_apply, StuckTarget.force, hmask, ↓reduceIte, hidx] at hbit
    simp only [stick, Option.mem_def.1 ht, htype, hidx, and_self, ↓reduceIte, Force.getLsbD_apply, StuckTarget.force,
      hmask]
    exact hbit
  · intro hnot
    unfold stick
    split
    · rfl
    · rename_i t ht
      split
      · rename_i hat
        have hmask : t.stuck_mask.getLsbD i = false := by
          by_contra hset
          exact hnot ⟨t, ht, Prod.ext hat.1 hat.2, by simpa using hset⟩
        rw [Force.getLsbD_apply, StuckTarget.force, hmask]
        rfl
      · rfl

theorem reapplyEntry_bit (hheld : Held r) {e : (Nat × Nat) × PermanentFault}
    {f : Force 64} (hf : stuckForce e.2.fault_type e.2.mask = some f) (slot : Slot) (i : Nat) :
    (Touches r slot i e → (reapplyEntry r e).bit slot i = f.one) ∧
    (¬Touches r slot i e → (reapplyEntry r e).bit slot i = r.bit slot i) := by
  obtain ⟨creg, cvec, cstuck⟩ := r.countRead_same (.scalar .IntRegClass, e.1.2)
  have hreg : ∀ c j, (reapplyEntry r e).reg c j =
      if c = .IntRegClass ∧ j = e.1.2 then r.stick .IntRegClass e.1.2 (f.apply (r.reg .IntRegClass e.1.2))
      else r.reg c j := by
    intro c j
    refine (setReg_reg ..).trans ?_
    simp only [getReg, stick_congr cstuck, creg, reapply_eq_apply hf]
  have hvec : (reapplyEntry r e).vecReg = r.vecReg := (setReg_frame ..).1.trans cvec
  obtain ⟨hcovered, hopen⟩ := getLsbD_stick hheld e.1.2 (f.apply (r.reg .IntRegClass e.1.2)) i
  constructor
  · rintro ⟨rfl, hmask, hnot⟩
    simp only [bit, hreg, and_self, ↓reduceIte]
    rw [hopen hnot, Force.getLsbD_apply, stuckForce_mask hf, hmask]
    rfl
  · intro hnot
    obtain ⟨cls, idx⟩ := slot
    cases cls with
    | VecRegClass => simp only [bit, hvec]
    | scalar c =>
      simp only [bit, hreg]
      split
      · rename_i hat
        obtain ⟨rfl, rfl⟩ := hat
        by_cases hcovers : TargetCovers r (.scalar .IntRegClass, e.1.2) i
        · exact hcovered hcovers
        · have hmask : ¬e.2.mask.getLsbD i = true := fun hset => hnot ⟨rfl, hset, hcovers⟩
          rw [hopen hcovers, Force.getLsbD_apply, stuckForce_mask hf, if_neg hmask]
      · rfl

/-! ### All entries -/

theorem foldl_reapply_untouched {i : Nat} (l : FaultMap) (hheld : Held r)
    (hl : ∀ e ∈ l, ∃ f, stuckForce e.2.fault_type e.2.mask = some f) (hnot : ∀ e ∈ l, ¬Touches r slot i e) :
    (l.foldl reapplyEntry r).bit slot i = r.bit slot i := by
  induction l generalizing r with
  | nil => rfl
  | cons e l ih =>
    obtain ⟨f, hf⟩ := hl e List.mem_cons_self
    have hrest : ∀ e' ∈ l, ¬Touches (reapplyEntry r e) slot i e' := by
      intro e' he'
      rw [touches_congr (reapplyEntry_stuck r e)]
      exact hnot e' (List.mem_cons_of_mem _ he')
    rw [List.foldl_cons, ih (reapplyEntry_held hheld e) (fun e' he' => hl e' (List.mem_cons_of_mem _ he')) hrest]
    exact (reapplyEntry_bit hheld hf slot i).2 (hnot e List.mem_cons_self)

theorem foldl_reapply_touched {i : Nat} (l : FaultMap) {r r' : PhysRegFile n}
    (hheld : Held r) (hheld' : Held r') (hstuck : r'.stuck = r.stuck)
    (hl : ∀ e ∈ l, ∃ f, stuckForce e.2.fault_type e.2.mask = some f)
    (htouch : r'.bit slot i = r.bit slot i ∨ ∃ e ∈ l, Touches r slot i e) :
    (l.foldl reapplyEntry r').bit slot i = (l.foldl reapplyEntry r).bit slot i := by
  induction l generalizing r r' with
  | nil =>
    rcases htouch with hbit | ⟨e, he, -⟩
    · exact hbit
    · exact absurd he List.not_mem_nil
  | cons e l ih =>
    obtain ⟨f, hf⟩ := hl e List.mem_cons_self
    have hsame : (reapplyEntry r' e).stuck = (reapplyEntry r e).stuck := by
      rw [reapplyEntry_stuck, reapplyEntry_stuck, hstuck]
    refine ih (reapplyEntry_held hheld e) (reapplyEntry_held hheld' e) hsame
      (fun e' he' => hl e' (List.mem_cons_of_mem _ he')) ?_
    obtain ⟨hset, hkeep⟩ := reapplyEntry_bit hheld hf slot i
    obtain ⟨hset', hkeep'⟩ := reapplyEntry_bit hheld' hf slot i
    rw [touches_congr hstuck] at hset' hkeep'
    by_cases hat : Touches r slot i e
    · exact Or.inl ((hset' hat).trans (hset hat).symm)
    · rcases htouch with hbit | ⟨e', he', ht⟩
      · exact Or.inl ((hkeep' hat).trans (hbit.trans (hkeep hat).symm))
      · rcases List.mem_cons.1 he' with rfl | he'
        · exact absurd ht hat
        · exact Or.inr ⟨e', he', (touches_congr (reapplyEntry_stuck r e) slot i e').2 ht⟩

/-! ### Runs -/

theorem stuckTable_record {s : CHAOSPhysReg cfg} (h : StuckTable s) {t : CHAOSPhysReg cfg} {key : Nat × Nat}
    {ty : FaultType} {mask : BitVec 64} (ht : t.permanent_faults = record s.permanent_faults key ty mask) :
    StuckTable t := by
  intro e he
  rw [ht] at he
  have hinsert : ∀ f, stuckForce ty mask = some f →
      e ∈ (s.permanent_faults.filter fun e => e.1 ≠ key).orderedInsert keyLe (key, ⟨ty, mask, true⟩) →
      ∃ f, stuckForce e.2.fault_type e.2.mask = some f := by
    intro f hf hmem
    rcases (List.mem_orderedInsert keyLe).1 hmem with rfl | hold
    · exact ⟨f, hf⟩
    · exact h e (List.mem_filter.1 hold).1
  cases ty with
  | StuckAtZero => exact hinsert _ rfl he
  | StuckAtOne => exact hinsert _ rfl he
  | BitFlip => exact h e he
  | Random => exact h e he

theorem stuckTable_run (cfg : PhysRegConfig) (reg : ScalarClass → Nat → BitVec 64) (vecReg : Nat → Nat → BitVec 8)
    (draw : Nat → Nat) (es : List Event) : StuckTable (run (init cfg reg vecReg draw) es) := by
  refine run_keeps (fun s t hcore h => ?_) (fun s tid cls idx ty mask hhit h => ?_)
    (fun s tid idx ty mask h => ?_) (fun s now h => ?_) (fun s op h => h) ?_ es
  · intro e he
    rw [hcore.table] at he
    exact h e he
  · exact stuckTable_record h (injectScalar_spec hhit tid ty mask).2.1
  · obtain ⟨_, _, -, htable, -⟩ := injectVector_spec s tid idx ty mask
    exact stuckTable_record h htable
  · intro e he
    rw [(checkPermanent_spec s now).2.1] at he
    obtain ⟨e', he', rfl⟩ := List.mem_map.1 he
    unfold clearUpdate
    split <;> exact h e' he'
  · intro e he
    exact absurd he List.not_mem_nil

theorem hit_of_targetCovers {s : CHAOSPhysReg cfg} (h : TargetHolds s) {i : Nat}
    (hcovers : TargetCovers s.regFile slot i) : Hit cfg.vecRegBytes s.injections slot i := by
  obtain ⟨t, ht, hslot, hmask⟩ := hcovers
  cases harmed : armedFault s.injections with
  | none =>
    have hnone : s.regFile.stuck = none := by rw [h.armed, harmed]; rfl
    rw [hnone] at ht
    simp at ht
  | some a =>
    obtain ⟨cls, force, hcls, hfirst, hforce, hstuck⟩ := armed_target h harmed
    rw [hstuck] at ht
    obtain rfl := Option.some.inj ht
    have haslot : a.slot = slot := by rw [← hslot]; exact Prod.ext hcls rfl
    have hwidth : i < width cfg.vecRegBytes slot.1 := by
      rw [← haslot, hcls]
      exact BitVec.lt_of_getLsbD hmask
    refine ⟨a, (List.mem_filter.1 (List.mem_of_getLast? harmed)).1, ?_⟩
    unfold Injected.holds
    rw [if_pos ⟨haslot, by omega, hwidth, by simpa [hfirst] using hmask⟩, hforce]
    rfl

/-- In every run, the check changes no cell but those of stuck-at faults, whatever the program has done to the registers
since, exactly if the pending entries have masks of bits that stuck-at faults have hit in the integer register of their
index. -/
theorem check_framed_iff (cfg : PhysRegConfig) (reg : ScalarClass → Nat → BitVec 64) (vecReg : Nat → Nat → BitVec 8)
    (draw : Nat → Nat) (es : List Event) :
    (∀ ops now, CheckFramed ((run (init cfg reg vecReg draw) es).accesses ops) now) ↔
      ∀ e ∈ (run (init cfg reg vecReg draw) es).permanent_faults, pending cfg e = true →
        ∀ i, e.2.mask.getLsbD i = true →
          Hit cfg.vecRegBytes (run (init cfg reg vecReg draw) es).injections (.scalar .IntRegClass, e.1.2) i := by
  have htable := stuckTable_run cfg reg vecReg draw es
  have h := targetHolds_run (targetHolds_init cfg reg vecReg draw) es
  obtain ⟨s, hs⟩ : ∃ s, s = run (init cfg reg vecReg draw) es := ⟨_, rfl⟩
  rw [← hs] at h htable ⊢
  have hentries : ∀ e ∈ s.permanent_faults.filter (pending cfg), ∃ f, stuckForce e.2.fault_type e.2.mask = some f :=
    fun e he => htable e (List.mem_filter.1 he).1
  constructor
  · intro hframed e he hpending i hmask
    by_contra hnot
    have hmem : e ∈ s.permanent_faults.filter (pending cfg) := List.mem_filter.2 ⟨he, hpending⟩
    have htouch : Touches s.regFile (.scalar .IntRegClass, e.1.2) i e :=
      ⟨rfl, hmask, fun hcovers => hnot (hit_of_targetCovers h hcovers)⟩
    have hfree : ∀ a, armedFault s.injections = some a →
        a.holds cfg.vecRegBytes (.scalar .IntRegClass, e.1.2) i = none := by
      intro a ha
      by_contra hsome
      exact hnot ⟨a, (List.mem_filter.1 (List.mem_of_getLast? ha)).1, Option.isSome_iff_ne_none.2 hsome⟩
    -- the program writes the opposite of what the check leaves in the cell
    obtain ⟨v, hv⟩ : ∃ v, v = (checkPermanent s 0).regFile.bit (.scalar .IntRegClass, e.1.2) i := ⟨_, rfl⟩
    have hi : i < width cfg.vecRegBytes (.scalar .IntRegClass) := BitVec.lt_of_getLsbD hmask
    obtain ⟨op, hop⟩ := exists_write h hi hfree (!v)
    have hacc := targetHolds_access h op
    have hstuck : (s.access op).regFile.stuck = s.regFile.stuck := hacc.armed.trans h.armed.symm
    have hafter : (checkPermanent (s.access op) 0).regFile.bit (.scalar .IntRegClass, e.1.2) i = v := by
      rw [hv, (checkPermanent_spec _ _).1, (checkPermanent_spec _ _).1]
      exact foldl_reapply_touched _ h.held hacc.held hstuck hentries (Or.inr ⟨e, hmem, htouch⟩)
    refine hnot (hframed [op] 0 (.scalar .IntRegClass, e.1.2) i ?_)
    show (checkPermanent (s.access op) 0).regFile.bit _ i ≠ (s.access op).regFile.bit _ i
    rw [hafter, hop]
    cases v <;> decide
  · intro hcovered ops now slot i hchanged
    obtain ⟨hlog, hfaults⟩ := accesses_frame s ops
    have hops := targetHolds_accesses h ops
    rw [(checkPermanent_spec _ now).1, hfaults] at hchanged
    rw [hlog]
    by_contra hnot
    refine hchanged (foldl_reapply_untouched _ hops.held hentries fun e he htouch => hnot ?_)
    obtain ⟨hmem, hpending⟩ := List.mem_filter.1 he
    rw [htouch.1]
    exact hcovered e hmem hpending i htouch.2.1

/-- Stuck-at-one faults of bit 0 in a class, the first at once and the second ten cycles later. -/
def spaced (cls : RegClassSel) : PhysRegConfig :=
  { fourRegs with reg_target_class := cls, inter_fault_cycles_dist := fun n => n }

/-- A fault in the float register 0, and one in the vector register 0: the check in the next cycle sets bit 0 of the
integer register 0, which no fault has hit. -/
theorem check_changes_integer :
    let s : CHAOSPhysReg (spaced .FloatingPoint) :=
      run (init _ (fun _ _ => 0) (fun _ _ => 0) fun n => if n = 2 then 10 else 0) [.attack]
    let t : CHAOSPhysReg (spaced .Vector) :=
      run (init _ (fun _ _ => 0) (fun _ _ => 0) fun n => if n = 2 then 10 else 0) [.attack]
    (s.injections = [⟨(.scalar .FloatRegClass, 0), .StuckAtOne, 0, 1⟩] ∧ s.attackEvent = some ⟨10, false⟩ ∧
      s.periodicCheck = some ⟨1, false⟩ ∧ s.regFile.reg .IntRegClass 0 = 0 ∧
      (s.step .check).regFile.reg .IntRegClass 0 = 1 ∧ ¬CheckFramed s 1) ∧
    (t.injections = [⟨(.VecRegClass, 0), .StuckAtOne, 0, 1⟩] ∧ t.attackEvent = some ⟨10, false⟩ ∧
      t.periodicCheck = some ⟨1, false⟩ ∧ t.regFile.reg .IntRegClass 0 = 0 ∧
      (t.step .check).regFile.reg .IntRegClass 0 = 1 ∧ ¬CheckFramed t 1) := by
  intro s t
  refine ⟨⟨by decide, by decide, by decide, by decide, by decide, fun h => ?_⟩,
    by decide, by decide, by decide, by decide, by decide, fun h => ?_⟩
  · obtain ⟨f, hf, hholds⟩ := h (.scalar .IntRegClass, 0) 0 (by decide)
    rw [show s.injections = [⟨(.scalar .FloatRegClass, 0), .StuckAtOne, 0, 1⟩] by decide, List.mem_singleton] at hf
    rw [hf] at hholds
    exact absurd hholds (by decide)
  · obtain ⟨f, hf, hholds⟩ := h (.scalar .IntRegClass, 0) 0 (by decide)
    rw [show t.injections = [⟨(.VecRegClass, 0), .StuckAtOne, 0, 1⟩] by decide, List.mem_singleton] at hf
    rw [hf] at hholds
    exact absurd hholds (by decide)

end GemFI.Reg
