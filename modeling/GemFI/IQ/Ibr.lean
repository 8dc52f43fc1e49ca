import GemFI.Cov.Timeline
import GemFI.IQ.Schedule
import GemFI.Lib.Run
import Mathlib.Algebra.Order.Field.Basic
import Mathlib.Algebra.Order.Field.Rat
import Mathlib.Order.Interval.Set.Basic

/-!
# The input bits of the functional units

`fuOnIssue` adds up the widths of all source registers of the instructions that go to a class of functional units, and
`finishStats` divides by the width of a unit, the number of units and the cycles in the ROI.  In a cycle the
instructions execute (a window of the ROI opens or closes here), `scheduleReadyInsts` passes instructions to the
units, and `commit` counts the cycle.  With at most as many instructions in a cycle as there are units, the quotient
is a fraction for all programs made of some instructions exactly if none of these has more source bits than a unit is
wide (`ibr_fraction_iff`).

The quotients are rational numbers, and the ledgers have no bound.
-/

namespace GemFI.IQ.Ibr

open Cov
open Issue hiding fresh

variable {cfg : Config}

/-! ### The quotients of `finishStats` -/

structure IbrParams where
  ibr_fu_count : Nat → Nat
  ibr_full_width : Nat → Nat

def ibrDefaults : IbrParams where
  ibr_fu_count := fun c => [3, 1, 2, 2].getD c 0
  ibr_full_width := fun c => [128, 128, 256, 256].getD c 0

def denom (p : IbrParams) (s : CHAOSCov cfg) (c : Nat) : Nat := p.ibr_full_width c * p.ibr_fu_count c * s.roi_cycles

/-- `ibrIntAdd`, `ibrIntMul`, `ibrFpAdd` and `ibrFpMul`. -/
def ibr (p : IbrParams) (s : CHAOSCov cfg) (c : Nat) : ℚ :=
  if 0 < s.roi_cycles then
    if denom p s c ≠ 0 then (s.ibr_input_bits.getD c 0 : ℚ) / denom p s c else 0
  else 0

/-- The entry IEX of `covUnits`. -/
def iex (p : IbrParams) (s : CHAOSCov cfg) : ℚ := max (ibr p s 0) (ibr p s 1)

def fsu (p : IbrParams) (s : CHAOSCov cfg) : ℚ := max (ibr p s 2) (ibr p s 3)

/-! ### Cycles of the processor -/

def quiet : Cov.Event cfg → Bool
  | .cycle .. => false
  | e => !issueHook e

structure Cycle (cfg : Config) where
  before : List { e : Cov.Event cfg // quiet e = true } := []
  issued : List Inst := []
  rob_in_flight : Int := 0
  rob_max : Int := 0
  after : List { e : Cov.Event cfg // quiet e = true } := []

def calls (s : CHAOSCov cfg) (es : List { e : Cov.Event cfg // quiet e = true }) : CHAOSCov cfg :=
  es.foldl (fun s e => Cov.step s e.1) s

def issueAll (s : CHAOSCov cfg) (insts : List Inst) : CHAOSCov cfg :=
  insts.foldl (fun s inst => issueHooks s inst.opClass inst) s

def tick (s : CHAOSCov cfg) (cyc : Cycle cfg) : CHAOSCov cfg :=
  let s := issueAll (calls s cyc.before) cyc.issued
  calls (s.onCycle cyc.rob_in_flight cyc.rob_max) cyc.after

def ofClass (c : Nat) (inst : Inst) : Bool := decide (harp_fu_class_of inst.opClass = c)

/-- In a cycle of the ROI at most as many instructions of the class are passed on as there are units. -/
def WithinUnits (p : IbrParams) (c : Nat) (s : CHAOSCov cfg) (cyc : Cycle cfg) : Prop :=
  (calls s cyc.before).roi_active = true → cyc.issued.countP (ofClass c) ≤ p.ibr_fu_count c

instance (p : IbrParams) (c : Nat) (s : CHAOSCov cfg) (cyc : Cycle cfg) : Decidable (WithinUnits p c s cyc) :=
  inferInstanceAs (Decidable (_ → _))

/-! ### What a cycle adds -/

theorem quiet_frame (s : CHAOSCov cfg) {e : Cov.Event cfg} (h : quiet e = true) :
    (Cov.step s e).ibr_input_bits = s.ibr_input_bits ∧ (Cov.step s e).roi_cycles = s.roi_cycles := by
  have hhook : issueHook e = false := by
    cases e <;> first | rfl | simp [quiet, issueHook] at h
  refine ⟨(step_issues s hhook).1, ?_⟩
  by_cases hp : e.part = .roi
  · cases e with
    | cycle n m => simp [quiet] at h
    | workBegin => exact (step_workBegin s).2
    | workEnd => exact (step_workEnd s).2
    | preDumpStats => exact (step_preDumpStats s).2
    | _ => simp [Event.part] at hp
  · exact (clock_frame s hp).2

theorem calls_frame (s : CHAOSCov cfg) (es : List { e : Cov.Event cfg // quiet e = true }) :
    (calls s es).ibr_input_bits = s.ibr_input_bits ∧ (calls s es).roi_cycles = s.roi_cycles := by
  unfold calls
  induction es generalizing s with
  | nil => exact ⟨rfl, rfl⟩
  | cons e es ih =>
    obtain ⟨hbits, hcycles⟩ := quiet_frame s e.2
    obtain ⟨ibits, icycles⟩ := ih (Cov.step s e.1)
    exact ⟨ibits.trans hbits, icycles.trans hcycles⟩

def issuedBits (c : Nat) (insts : List Inst) : Nat := ((insts.filter (ofClass c)).map harp_src_bits_of).sum

variable {c : Nat} {s : CHAOSCov cfg}

theorem issueHooks_bits (s : CHAOSCov cfg) (inst : Inst) (hsize : s.ibr_input_bits.length = 4) (hc : c < 4) :
    (issueHooks s inst.opClass inst).ibr_input_bits.length = 4 ∧
    (issueHooks s inst.opClass inst).ibr_input_bits.getD c 0 = s.ibr_input_bits.getD c 0 +
      (if s.roi_active ∧ ofClass c inst then harp_src_bits_of inst else 0) ∧
    (issueHooks s inst.opClass inst).roi_active = s.roi_active ∧
    (issueHooks s inst.opClass inst).roi_cycles = s.roi_cycles := by
  have hledger := issueHooks_ledger s inst.opClass inst
  have hlt := harp_fu_class_of_lt inst.opClass
  by_cases h0 : 0 ≤ harp_fu_class_of inst.opClass
  · obtain ⟨fc, hfc⟩ : ∃ fc : Nat, harp_fu_class_of inst.opClass = fc := ⟨_, (Int.toNat_of_nonneg h0).symm⟩
    rw [if_pos h0, fuOnIssue_ledger s h0 hlt, hfc] at hledger
    cases hactive : s.roi_active with
    | false =>
      rw [hactive] at hledger
      simp only [fuLedger, Bool.false_eq_true, ↓reduceIte, Prod.mk.injEq] at hledger
      obtain ⟨hbits, -, hroi, hcycles⟩ := hledger
      simp [hbits, hroi, hcycles, hsize, hactive]
    | true =>
      rw [hactive] at hledger
      simp only [fuLedger, ↓reduceIte, Prod.mk.injEq] at hledger
      obtain ⟨hbits, -, hroi, hcycles⟩ := hledger
      refine ⟨by rw [hbits, List.length_modify, hsize], ?_, hroi, hcycles⟩
      have hin : c < s.ibr_input_bits.length := by omega
      rw [hbits]
      by_cases hat : fc = c
      · simp [ofClass, hfc, hat, hin, List.getD_eq_getElem?_getD]
      · have hne : ¬(fc : Int) = c := by omega
        simp [ofClass, hfc, hat, hne, List.getD_eq_getElem?_getD]
  · rw [if_neg h0] at hledger
    simp only [fuLedger, Prod.mk.injEq] at hledger
    obtain ⟨hbits, -, hroi, hcycles⟩ := hledger
    have hnot : ofClass c inst = false := by
      unfold ofClass
      rw [decide_eq_false_iff_not]
      omega
    simp [hbits, hroi, hcycles, hsize, hnot]

theorem issueAll_bits (insts : List Inst) (hsize : s.ibr_input_bits.length = 4) (hc : c < 4) :
    (issueAll s insts).ibr_input_bits.length = 4 ∧
    (issueAll s insts).ibr_input_bits.getD c 0 = s.ibr_input_bits.getD c 0 +
      (if s.roi_active then issuedBits c insts else 0) ∧
    (issueAll s insts).roi_active = s.roi_active ∧ (issueAll s insts).roi_cycles = s.roi_cycles := by
  unfold issueAll
  induction insts generalizing s with
  | nil => simp [hsize, issuedBits]
  | cons inst insts ih =>
    obtain ⟨hsize', hbits, hroi, hcycles⟩ := issueHooks_bits s inst hsize hc
    obtain ⟨isize, ibits, iroi, icycles⟩ := ih hsize'
    rw [List.foldl_cons]
    refine ⟨isize, ?_, iroi.trans hroi, icycles.trans hcycles⟩
    rw [ibits, hbits, hroi]
    unfold issuedBits
    cases s.roi_active <;> cases hclass : ofClass c inst <;> simp [hclass, Nat.add_assoc]

theorem onCycle_counts (s : CHAOSCov cfg) (n m : Int) :
    (s.onCycle n m).ibr_input_bits = s.ibr_input_bits ∧
    (s.onCycle n m).roi_cycles = s.roi_cycles + if s.roi_active then 1 else 0 := by
  refine ⟨(step_issues s (e := .cycle n m) rfl).1, (step_cycle s n m).2.trans ?_⟩
  split <;> rfl

theorem tick_bits (cyc : Cycle cfg) (hsize : s.ibr_input_bits.length = 4) (hc : c < 4) :
    (tick s cyc).ibr_input_bits.length = 4 ∧
    (tick s cyc).ibr_input_bits.getD c 0 = s.ibr_input_bits.getD c 0 +
      (if (calls s cyc.before).roi_active then issuedBits c cyc.issued else 0) ∧
    (tick s cyc).roi_cycles = s.roi_cycles + if (calls s cyc.before).roi_active then 1 else 0 := by
  obtain ⟨bbits, bcycles⟩ := calls_frame s cyc.before
  obtain ⟨isize, ibits, iroi, icycles⟩ := issueAll_bits (s := calls s cyc.before) cyc.issued (by rw [bbits, hsize]) hc
  obtain ⟨obits, ocycles⟩ := onCycle_counts (issueAll (calls s cyc.before) cyc.issued) cyc.rob_in_flight cyc.rob_max
  obtain ⟨abits, acycles⟩ := calls_frame
    ((issueAll (calls s cyc.before) cyc.issued).onCycle cyc.rob_in_flight cyc.rob_max) cyc.after
  unfold tick
  dsimp only
  rw [abits, acycles, obits, ocycles, ibits, iroi, icycles, bbits, bcycles]
  exact ⟨isize, rfl, rfl⟩

/-! ### The bound -/

def Bounded (p : IbrParams) (c : Nat) (s : CHAOSCov cfg) : Prop := s.ibr_input_bits.getD c 0 ≤ denom p s c

/-- If the instruction goes to the class, and the class has a unit, then its source bits are at most the width. -/
def Fits (p : IbrParams) (c : Nat) (inst : Inst) : Prop :=
  p.ibr_fu_count c = 0 ∨ (harp_fu_class_of inst.opClass = c → harp_src_bits_of inst ≤ p.ibr_full_width c)

theorem issuedBits_le {p : IbrParams} {insts : List Inst} (hfits : ∀ inst ∈ insts, Fits p c inst)
    (hcount : insts.countP (ofClass c) ≤ p.ibr_fu_count c) :
    issuedBits c insts ≤ p.ibr_full_width c * p.ibr_fu_count c := by
  have hlength : (insts.filter (ofClass c)).length ≤ p.ibr_fu_count c := by
    rw [← List.countP_eq_length_filter]
    exact hcount
  have hwidth : ∀ n ∈ (insts.filter (ofClass c)).map harp_src_bits_of, n ≤ p.ibr_full_width c := by
    intro n hn
    obtain ⟨inst, hinst, rfl⟩ := List.mem_map.1 hn
    obtain ⟨hmem, hclass⟩ := List.mem_filter.1 hinst
    rcases hfits inst hmem with hnone | hle
    · have hpos := List.length_pos_of_mem hinst
      omega
    · exact hle (of_decide_eq_true hclass)
  calc issuedBits c insts
      ≤ ((insts.filter (ofClass c)).map harp_src_bits_of).length * p.ibr_full_width c := List.sum_le_card_nsmul _ _ hwidth
    _ ≤ p.ibr_fu_count c * p.ibr_full_width c := by
        rw [List.length_map]
        exact Nat.mul_le_mul_right _ hlength
    _ = p.ibr_full_width c * p.ibr_fu_count c := Nat.mul_comm ..

theorem tick_bounded {p : IbrParams} (hc : c < 4) {cyc : Cycle cfg}
    (hsize : s.ibr_input_bits.length = 4) (hs : Bounded p c s)
    (hadd : (calls s cyc.before).roi_active = true →
      issuedBits c cyc.issued ≤ p.ibr_full_width c * p.ibr_fu_count c) : Bounded p c (tick s cyc) := by
  obtain ⟨-, hbits, hcycles⟩ := tick_bits cyc hsize hc
  unfold Bounded denom at hs ⊢
  rw [hbits, hcycles]
  cases hactive : (calls s cyc.before).roi_active with
  | false => simpa using hs
  | true =>
    rw [if_pos rfl, if_pos rfl, Nat.mul_succ]
    exact Nat.add_le_add hs (hadd hactive)

theorem fresh_bits (hc : c < 4) : (fresh cfg).ibr_input_bits.getD c 0 = 0 := by
  have hcases : c = 0 ∨ c = 1 ∨ c = 2 ∨ c = 3 := by omega
  rcases hcases with rfl | rfl | rfl | rfl <;> rfl

theorem calls_active (hmode : cfg.roi_mode ≠ .m5ops) (s : CHAOSCov cfg)
    (es : List { e : Cov.Event cfg // quiet e = true }) : (calls s es).roi_active = s.roi_active := by
  unfold calls
  induction es generalizing s with
  | nil => rfl
  | cons e es ih => exact (ih _).trans (roi_active_step_of_mode hmode s e.1)

theorem tick_active (hmode : cfg.roi_mode ≠ .m5ops) (hsize : s.ibr_input_bits.length = 4) (cyc : Cycle cfg) :
    (tick s cyc).roi_active = s.roi_active := by
  have hissued := (issueAll_bits (c := 0) cyc.issued (by rw [(calls_frame s cyc.before).1, hsize]) (by omega)).2.2.1
  calc (tick s cyc).roi_active
      = ((issueAll (calls s cyc.before) cyc.issued).onCycle cyc.rob_in_flight cyc.rob_max).roi_active :=
        calls_active hmode _ cyc.after
    _ = (issueAll (calls s cyc.before) cyc.issued).roi_active := (step_cycle _ cyc.rob_in_flight cyc.rob_max).1
    _ = (calls s cyc.before).roi_active := hissued
    _ = s.roi_active := calls_active hmode s cyc.before

private theorem run_bounded_from {p : IbrParams} (hc : c < 4) {cycles : List (Cycle cfg)}
    (hfits : cfg.roi_mode ≠ .m5ops ∧ s.roi_active = false ∨ ∀ cyc ∈ cycles, ∀ inst ∈ cyc.issued, Fits p c inst)
    (hsize : s.ibr_input_bits.length = 4) (hs : Bounded p c s) (hunits : Along tick (WithinUnits p c) s cycles) :
    Bounded p c (cycles.foldl tick s) := by
  induction cycles generalizing s with
  | nil => exact hs
  | cons cyc cycles ih =>
    have hrest : cfg.roi_mode ≠ .m5ops ∧ (tick s cyc).roi_active = false ∨
        ∀ cyc ∈ cycles, ∀ inst ∈ cyc.issued, Fits p c inst := by
      rcases hfits with ⟨hmode, hclosed⟩ | hfits
      · exact Or.inl ⟨hmode, (tick_active hmode hsize cyc).trans hclosed⟩
      · exact Or.inr fun cyc' hcyc => hfits cyc' (List.mem_cons_of_mem _ hcyc)
    have hadd : (calls s cyc.before).roi_active = true →
        issuedBits c cyc.issued ≤ p.ibr_full_width c * p.ibr_fu_count c := by
      intro hactive
      rcases hfits with ⟨hmode, hclosed⟩ | hfits
      · rw [calls_active hmode, hclosed] at hactive
        exact absurd hactive (by simp)
      · exact issuedBits_le (hfits cyc List.mem_cons_self) (hunits.1 hactive)
    exact ih hrest (tick_bits cyc hsize hc).1 (tick_bounded hc hsize hs hadd) hunits.2

theorem run_bounded {p : IbrParams} (hc : c < 4) {cycles : List (Cycle cfg)}
    (hfits : cfg.roi_mode = .cycles ∨ ∀ cyc ∈ cycles, ∀ inst ∈ cyc.issued, Fits p c inst)
    (hunits : Along tick (WithinUnits p c) (fresh cfg) cycles) : Bounded p c (cycles.foldl tick (fresh cfg)) := by
  have hzero : Bounded p c (fresh cfg) := by
    unfold Bounded
    rw [fresh_bits hc]
    exact Nat.zero_le _
  refine run_bounded_from hc ?_ rfl hzero hunits
  rcases hfits with hmode | hfits
  · exact Or.inl ⟨by simp [hmode], by simp [fresh, hmode]⟩
  · exact Or.inr hfits

theorem ibr_mem_unit {p : IbrParams} (h : Bounded p c s) : ibr p s c ∈ Set.Icc 0 1 := by
  unfold ibr
  split
  · split
    · rename_i hne
      have hpos : (0 : ℚ) < denom p s c := by exact_mod_cast Nat.pos_of_ne_zero hne
      refine ⟨div_nonneg (Nat.cast_nonneg _) hpos.le, (div_le_one hpos).2 ?_⟩
      exact_mod_cast h
    · simp
  · simp

theorem max_mem_unit {x y : ℚ} (hx : x ∈ Set.Icc 0 1) (hy : y ∈ Set.Icc 0 1) : max x y ∈ Set.Icc 0 1 :=
  ⟨le_max_of_le_left hx.1, max_le hx.2 hy.2⟩

/-- A cycle at the begin of which a window is open, with as many copies of an instruction as there are units. -/
private def fullCycle (cfg : Config) (n : Nat) (inst : Inst) : Cycle cfg :=
  { before := [⟨.workBegin, rfl⟩], issued := List.replicate n inst }

private theorem fullCycle_open (hmode : cfg.roi_mode ≠ .cycles) (n : Nat) (inst : Inst) :
    (calls (fresh cfg) (fullCycle cfg n inst).before).roi_active = true := by
  cases hm : cfg.roi_mode with
  | cycles => exact absurd hm hmode
  | m5ops => simp [calls, fullCycle, Cov.step, CHAOSCov.onWorkBegin, hm]
  | all => simp [calls, fullCycle, Cov.step, CHAOSCov.onWorkBegin, hm, fresh]

private theorem fullCycle_bits (hmode : cfg.roi_mode ≠ .cycles) (hc : c < 4) (n : Nat) {inst : Inst}
    (hclass : harp_fu_class_of inst.opClass = c) :
    (tick (fresh cfg) (fullCycle cfg n inst)).ibr_input_bits.getD c 0 = n * harp_src_bits_of inst ∧
    (tick (fresh cfg) (fullCycle cfg n inst)).roi_cycles = 1 := by
  obtain ⟨-, hbits, hcycles⟩ := tick_bits (s := fresh cfg) (fullCycle cfg n inst) rfl hc
  rw [fullCycle_open hmode] at hbits hcycles
  refine ⟨hbits.trans ?_, hcycles⟩
  rw [fresh_bits hc]
  simp [issuedBits, fullCycle, ofClass, hclass]

/-- The input bits of all runs that are made of the given instructions, with at most as many in a cycle as there are
units, are at most the denominators, and the entries of `covUnits` are fractions, exactly if the instructions have at
most as many source bits as the units are wide, or no window is ever open. -/
theorem ibr_fraction_iff (cfg : Config) (p : IbrParams) (I : Inst → Prop) :
    (∀ cycles : List (Cycle cfg), (∀ cyc ∈ cycles, ∀ inst ∈ cyc.issued, I inst) →
      (∀ c < 4, Along tick (WithinUnits p c) (fresh cfg) cycles → Bounded p c (cycles.foldl tick (fresh cfg))) ∧
      ((∀ c < 4, Along tick (WithinUnits p c) (fresh cfg) cycles) →
        iex p (cycles.foldl tick (fresh cfg)) ∈ Set.Icc 0 1 ∧ fsu p (cycles.foldl tick (fresh cfg)) ∈ Set.Icc 0 1)) ↔
    cfg.roi_mode = .cycles ∨ ∀ inst, I inst → ∀ c < 4, Fits p c inst := by
  constructor
  · intro h
    by_cases hmode : cfg.roi_mode = .cycles
    · exact Or.inl hmode
    · right
      intro inst hinst c hc
      by_cases hunits : p.ibr_fu_count c = 0
      · exact Or.inl hunits
      · right
        intro hclass
        -- a full cycle of the instruction
        have hone : ∀ cyc ∈ [fullCycle cfg (p.ibr_fu_count c) inst], ∀ i ∈ cyc.issued, I i := by
          intro cyc hcyc i hi
          rw [List.mem_singleton] at hcyc
          subst hcyc
          rw [List.eq_of_mem_replicate hi]
          exact hinst
        have hwithin : WithinUnits p c (fresh cfg) (fullCycle cfg (p.ibr_fu_count c) inst) := by
          intro _
          simp [fullCycle, ofClass, hclass, List.countP_replicate]
        have hbound := (h _ hone).1 c hc ⟨hwithin, trivial⟩
        obtain ⟨hbits, hcycles⟩ := fullCycle_bits hmode hc (p.ibr_fu_count c) hclass
        unfold Bounded denom at hbound
        rw [List.foldl_cons, List.foldl_nil, hbits, hcycles, Nat.mul_one, Nat.mul_comm] at hbound
        exact Nat.le_of_mul_le_mul_right hbound (Nat.pos_of_ne_zero hunits)
  · intro h cycles hmade
    have hfits : ∀ c < 4, cfg.roi_mode = .cycles ∨ ∀ cyc ∈ cycles, ∀ inst ∈ cyc.issued, Fits p c inst := by
      intro c hc
      rcases h with hmode | h
      · exact Or.inl hmode
      · exact Or.inr fun cyc hcyc inst hinst => h inst (hmade cyc hcyc inst hinst) c hc
    refine ⟨fun c hc hunits => run_bounded hc (hfits c hc) hunits, fun hunits => ?_⟩
    have hunit : ∀ c < 4, ibr p (cycles.foldl tick (fresh cfg)) c ∈ Set.Icc 0 1 :=
      fun c hc => ibr_mem_unit (run_bounded hc (hfits c hc) (hunits c hc))
    exact ⟨max_mem_unit (hunit 0 (by omega)) (hunit 1 (by omega)),
      max_mem_unit (hunit 2 (by omega)) (hunit 3 (by omega))⟩

private def addWithCarry : Inst :=
  { seqNum := 0, opClass := .IntAlu
    srcs := [⟨.intReg, .intReg, 0, 0⟩, ⟨.intReg, .intReg, 0, 0⟩, ⟨.ccReg, .ccReg, 0, 0⟩] }

private def multiplyAdd : Inst :=
  { seqNum := 0, opClass := .SimdFloatMultAcc, srcs := List.replicate 3 ⟨.vecReg, .vecReg, 0, 0⟩ }

/-- One cycle of the ROI with the defaults: three additions with carry, or two multiplications with accumulation. -/
theorem ibr_above_one :
    let s := tick (fresh tiny) (fullCycle tiny 3 addWithCarry)
    let t := tick (fresh tiny) (fullCycle tiny 2 multiplyAdd)
    ((∀ c < 4, WithinUnits ibrDefaults c (fresh tiny) (fullCycle tiny 3 addWithCarry)) ∧
      s.ibr_input_bits.getD 0 0 = 396 ∧ denom ibrDefaults s 0 = 384 ∧ 1 < iex ibrDefaults s) ∧
    ((∀ c < 4, WithinUnits ibrDefaults c (fresh tiny) (fullCycle tiny 2 multiplyAdd)) ∧
      t.ibr_input_bits.getD 3 0 = 768 ∧ denom ibrDefaults t 3 = 512 ∧ 1 < fsu ibrDefaults t) := by
  decide +kernel

end GemFI.IQ.Ibr
