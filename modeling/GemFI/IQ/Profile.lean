import GemFI.IQ.Schedule
import GemFI.Reg.ReadTrace

/-!
# The reads of the issue-time profile

The coverage hooks in `scheduleReadyInsts` read the operands of an instruction by `getReg`, as its execution does, so
the register file counts these reads in the trace of an injected register.  `IQ/Schedule.lean` has the operands in the
instruction; here they are read, with the same values (`harp_fp_value_classes_of_eq`, `harp_two_int_srcs_eq`).

A run with the analyzer counts as many more reads as the profile makes of the traced register before a `setReg` ends
the trace, so the two counts are the same exactly if there are none (`profile_undisturbed_iff`).

The statistics of the processor are left out; what is written behind the buffers of the hook is in `IQ/Lanes.lean`.
-/

namespace GemFI.IQ.Profile

open Cov Issue
open Bytes (littleEndian)
open Reg (PhysRegFile access_trace countRead_trace)
open Reg.PhysRegFile (RegOp)

variable {cfg : Config} {vecRegBytes : Nat}

/-! ### The processor -/

structure RenamedSrc where
  srcRegIdx : RegClassType
  renamedSrcIdx : PhysReg
  deriving DecidableEq, Repr

structure RenamedInst where
  seqNum : Nat
  opClass : OpClass
  srcs : List RenamedSrc
  deriving DecidableEq, Repr

def RenamedInst.regs (inst : RenamedInst) : List PhysReg := inst.srcs.map (·.renamedSrcIdx)

structure Processor (cfg : Config) (vecRegBytes : Nat) where
  regFile : PhysRegFile vecRegBytes
  vectorElemRegFile : Nat → BitVec 64
  cov : Option (CHAOSCov cfg)

def traced (preg : PhysReg) : Option Reg.Slot :=
  match preg.classValue with
  | .intReg => some (.scalar .IntRegClass, preg.index)
  | .floatReg => some (.scalar .FloatRegClass, preg.index)
  | .vecReg => some (.VecRegClass, preg.index)
  | _ => none

def space : Reg.RegClassType → RegCls
  | .scalar .IntRegClass => .int
  | .scalar .FloatRegClass => .float
  | .VecRegClass => .vec

def harp_cov_on_prf (handler : CHAOSCov cfg → Slot cfg → CHAOSCov cfg) (slot : Reg.Slot) (cov : CHAOSCov cfg) :
    CHAOSCov cfg :=
  if h : slot.2 < cfg.numPhysRegs (space slot.1) then handler cov ⟨space slot.1, slot.2, h⟩ else cov

namespace Processor

def call (s : Processor cfg vecRegBytes) (f : CHAOSCov cfg → CHAOSCov cfg) : Processor cfg vecRegBytes :=
  { s with cov := s.cov.map f }

def value (s : Processor cfg vecRegBytes) (preg : PhysReg) : BitVec 64 × BitVec 64 :=
  match preg.classValue with
  | .intReg => ((s.regFile.getReg .IntRegClass preg.index).1, 0)
  | .floatReg => ((s.regFile.getReg .FloatRegClass preg.index).1, 0)
  | .vecReg =>
    let blob := (s.regFile.getVec preg.index).1
    (littleEndian 64 blob 8, littleEndian 64 (fun b => blob (8 + b)) 8)
  | .vecElem => (s.vectorElemRegFile preg.index, 0)
  | _ => (0, 0)

def observe (s : Processor cfg vecRegBytes) (preg : PhysReg) : Processor cfg vecRegBytes :=
  match traced preg with
  | some slot => call { s with regFile := s.regFile.countRead slot } (harp_cov_on_prf CHAOSCov.irfOnRead slot)
  | none => s

def getReg (s : Processor cfg vecRegBytes) (preg : PhysReg) : (BitVec 64 × BitVec 64) × Processor cfg vecRegBytes :=
  (s.value preg, s.observe preg)

/-! ### The hooks of `scheduleReadyInsts` -/

/-- The loop of `harp_fp_value_classes_of` over the sources, with the lanes so far. -/
def fpLoop : List PhysReg → List Int → Processor cfg vecRegBytes → List Int × Processor cfg vecRegBytes
  | [], out, s => (out, s)
  | preg :: rest, out, s =>
    if 8 ≤ out.length then (out, s)
    else
      match preg.classValue with
      | .floatReg | .vecElem => fpLoop rest (out ++ [harp_fp_class_of (s.getReg preg).1.1]) (s.getReg preg).2
      | .vecReg =>
        fpLoop rest (out ++ [harp_fp_class_of (s.getReg preg).1.1, harp_fp_class_of (s.getReg preg).1.2])
          (s.getReg preg).2
      | _ => fpLoop rest out s

def harp_fp_value_classes_of (s : Processor cfg vecRegBytes) (inst : RenamedInst) :
    List Int × Processor cfg vecRegBytes :=
  fpLoop inst.regs [] s

/-- The loop of `harp_two_int_srcs`, with the operands so far. -/
def intLoop : List PhysReg → List (BitVec 64) → Processor cfg vecRegBytes →
    List (BitVec 64) × Processor cfg vecRegBytes
  | [], got, s => (got, s)
  | preg :: rest, got, s =>
    if 2 ≤ got.length then (got, s)
    else if preg.classValue ≠ .intReg then intLoop rest got s
    else intLoop rest (got ++ [(s.getReg preg).1.1]) (s.getReg preg).2

def harp_two_int_srcs (s : Processor cfg vecRegBytes) (inst : RenamedInst) :
    Option (BitVec 64 × BitVec 64) × Processor cfg vecRegBytes :=
  match intLoop inst.regs [] s with
  | ([a, b], s) => (some (a, b), s)
  | (_, s) => (none, s)

def operand (s : Processor cfg vecRegBytes) (src : RenamedSrc) : SrcReg where
  srcRegIdx := src.srcRegIdx
  renamedSrcIdx := src.renamedSrcIdx.classValue
  lo := (s.value src.renamedSrcIdx).1
  hi := (s.value src.renamedSrcIdx).2

def resolve (s : Processor cfg vecRegBytes) (inst : RenamedInst) : Inst where
  seqNum := inst.seqNum
  opClass := inst.opClass
  srcs := inst.srcs.map s.operand

def profileValues (s : Processor cfg vecRegBytes) (fc : Int) (inst : RenamedInst) : Processor cfg vecRegBytes :=
  let (lane_cls, s) := s.harp_fp_value_classes_of inst
  if lane_cls ≠ [] then s.call fun cov => cov.fuOnIssueValue fc lane_cls else s

def profileOperands (s : Processor cfg vecRegBytes) (fc : Int) (inst : RenamedInst) : Processor cfg vecRegBytes :=
  match s.harp_two_int_srcs inst with
  | (some (a, b), s) => s.call fun cov => if fc = 0 then cov.iexOnAddIssue a b else cov.iexOnMulIssue a b
  | (none, s) => s

def onIssue (s : Processor cfg vecRegBytes) (inst : RenamedInst) : Processor cfg vecRegBytes :=
  let fc := harp_fu_class_of inst.opClass
  if s.cov.isNone ∨ fc < 0 then s
  else
    let s := s.call fun cov => cov.fuOnIssue fc (harp_src_bits_of (s.resolve inst))
    let s := if 2 ≤ fc then s.profileValues fc inst else s
    if fc = 0 ∨ fc = 1 then s.profileOperands fc inst else s

def access (s : Processor cfg vecRegBytes) (op : RegOp) : Processor cfg vecRegBytes :=
  let s := { s with regFile := s.regFile.access op }
  match op with
  | .getReg cls idx => s.call (harp_cov_on_prf CHAOSCov.irfOnRead (.scalar cls, idx))
  | .getRegBuf cls idx => s.call (harp_cov_on_prf CHAOSCov.irfOnRead (cls, idx))
  | .setReg cls idx _ => s.call (harp_cov_on_prf CHAOSCov.irfOnWrite (.scalar cls, idx))
  | .setRegBuf cls idx _ => s.call (harp_cov_on_prf CHAOSCov.irfOnWrite (cls, idx))
  | .getWritableReg idx _ => s.call (harp_cov_on_prf CHAOSCov.irfOnWrite (.VecRegClass, idx))

end Processor

inductive Event (cfg : Config) where
  | issue (inst : RenamedInst)
  | access (op : RegOp)
  | cov (e : Cov.Event cfg)

def step (s : Processor cfg vecRegBytes) : Event cfg → Processor cfg vecRegBytes
  | .issue inst => s.onIssue inst
  | .access op => s.access op
  | .cov e => s.call fun cov => Cov.step cov e

def run (s : Processor cfg vecRegBytes) (es : List (Event cfg)) : Processor cfg vecRegBytes := es.foldl step s

/-! ### Reading does not change the values -/

namespace Processor

variable (s : Processor cfg vecRegBytes)

variable (inst : RenamedInst) (f : CHAOSCov cfg → CHAOSCov cfg)

@[simp] theorem call_regFile : (s.call f).regFile = s.regFile := rfl

@[simp] theorem call_value (preg : PhysReg) : (s.call f).value preg = s.value preg := rfl

@[simp] theorem call_cov_isSome :
    (s.call f).cov.isSome = s.cov.isSome := Option.isSome_map

theorem observe_value (preg q : PhysReg) : (s.observe preg).value q = s.value q := by
  unfold observe
  split
  · rename_i slot _
    obtain ⟨hreg, hvec, -⟩ := s.regFile.countRead_same slot
    rw [call_value]
    simp only [value, PhysRegFile.getReg, PhysRegFile.getVec, hreg, hvec]
  · rfl

theorem observe_operand (preg : PhysReg) : (s.observe preg).operand = s.operand := by
  funext src
  simp only [operand, observe_value]

private def addLanes (out : List Int) (reg : SrcReg) : List Int :=
  if 8 ≤ out.length then out
  else
    match reg.renamedSrcIdx with
    | .floatReg | .vecElem => out ++ [harp_fp_class_of reg.lo]
    | .vecReg => out ++ [harp_fp_class_of reg.lo, harp_fp_class_of reg.hi]
    | _ => out

private theorem foldl_addLanes_full (regs : List SrcReg) {out : List Int} (hfull : 8 ≤ out.length) :
    regs.foldl addLanes out = out := by
  induction regs with
  | nil => rfl
  | cons reg regs ih =>
    have hkeep : addLanes out reg = out := by
      unfold addLanes
      rw [if_pos hfull]
    rw [List.foldl_cons, hkeep, ih]

private theorem fpLoop_lanes (srcs : List RenamedSrc) (out : List Int) (s : Processor cfg vecRegBytes) :
    (fpLoop (srcs.map (·.renamedSrcIdx)) out s).1 = (srcs.map s.operand).foldl addLanes out := by
  induction srcs generalizing out s with
  | nil => rfl
  | cons src srcs ih =>
    rw [List.map_cons, List.map_cons, List.foldl_cons]
    by_cases hfull : 8 ≤ out.length
    · have hend : addLanes out (s.operand src) = out := by
        unfold addLanes
        rw [if_pos hfull]
      rw [hend, foldl_addLanes_full _ hfull]
      unfold fpLoop
      rw [if_pos hfull]
    · have hnext : addLanes out (s.operand src) =
          match src.renamedSrcIdx.classValue with
          | .floatReg | .vecElem => out ++ [harp_fp_class_of (s.value src.renamedSrcIdx).1]
          | .vecReg => out ++ [harp_fp_class_of (s.value src.renamedSrcIdx).1,
              harp_fp_class_of (s.value src.renamedSrcIdx).2]
          | _ => out := by
        unfold addLanes
        rw [if_neg hfull]
        rfl
      unfold fpLoop
      rw [if_neg hfull, hnext]
      cases src.renamedSrcIdx.classValue <;> simp only [getReg, ih, s.observe_operand]

theorem harp_fp_value_classes_of_eq :
    (s.harp_fp_value_classes_of inst).1 = Issue.harp_fp_value_classes_of (s.resolve inst) :=
  fpLoop_lanes inst.srcs [] s

/-! ### The registers that are read -/

def fpReads : Nat → List PhysReg → List PhysReg
  | _, [] => []
  | n_lanes, preg :: rest =>
    if 8 ≤ n_lanes then []
    else
      match preg.classValue with
      | .floatReg | .vecElem => preg :: fpReads (n_lanes + 1) rest
      | .vecReg => preg :: fpReads (n_lanes + 2) rest
      | _ => fpReads n_lanes rest

theorem fpLoop_state (regs : List PhysReg) (out : List Int) (s : Processor cfg vecRegBytes) :
    (fpLoop regs out s).2 = (fpReads out.length regs).foldl observe s := by
  induction regs generalizing out s with
  | nil => rfl
  | cons preg regs ih =>
    unfold fpLoop fpReads
    by_cases hfull : 8 ≤ out.length
    · rw [if_pos hfull, if_pos hfull]
      rfl
    · rw [if_neg hfull, if_neg hfull]
      cases preg.classValue <;> simp [getReg, ih]

def intReads (n : Nat) (regs : List PhysReg) : List PhysReg := (regs.filter (·.classValue = .intReg)).take n

theorem intLoop_eq (regs : List PhysReg) (got : List (BitVec 64)) (s : Processor cfg vecRegBytes) :
    intLoop regs got s = (got ++ (intReads (2 - got.length) regs).map (fun preg => (s.value preg).1),
      (intReads (2 - got.length) regs).foldl observe s) := by
  induction regs generalizing got s with
  | nil => simp [intLoop, intReads]
  | cons preg regs ih =>
    unfold intLoop
    by_cases htwo : 2 ≤ got.length
    · have hzero : 2 - got.length = 0 := by omega
      rw [if_pos htwo, hzero]
      simp [intReads]
    · rw [if_neg htwo]
      by_cases hint : preg.classValue = .intReg
      · obtain ⟨n, hn⟩ : ∃ n, 2 - got.length = n + 1 := ⟨1 - got.length, by omega⟩
        have hless : 2 - (got ++ [(s.getReg preg).1.1]).length = n := by
          rw [List.length_append, List.length_singleton]
          omega
        rw [if_neg (not_not.2 hint), ih, hless, hn]
        simp [intReads, hint, getReg, observe_value]
      · rw [if_pos hint, ih]
        simp [intReads, hint]

theorem harp_two_int_srcs_state : (s.harp_two_int_srcs inst).2 = (intReads 2 inst.regs).foldl observe s := by
  unfold harp_two_int_srcs
  rw [intLoop_eq]
  split <;> rename_i heq <;> simp_all

theorem harp_two_int_srcs_eq : (s.harp_two_int_srcs inst).1 = Issue.harp_two_int_srcs (s.resolve inst) := by
  have hsrcs : (s.resolve inst).srcs.filter (fun reg => reg.renamedSrcIdx = .intReg) =
      (inst.srcs.filter fun src => src.renamedSrcIdx.classValue = .intReg).map s.operand := by
    rw [resolve, List.filter_map]
    rfl
  have hregs : inst.regs.filter (·.classValue = .intReg) =
      (inst.srcs.filter fun src => src.renamedSrcIdx.classValue = .intReg).map (·.renamedSrcIdx) := by
    rw [RenamedInst.regs, List.filter_map]
    rfl
  unfold harp_two_int_srcs Issue.harp_two_int_srcs
  rw [intLoop_eq, hsrcs, intReads, hregs]
  generalize (inst.srcs.filter fun src => decide (src.renamedSrcIdx.classValue = .intReg)) = ints
  rcases ints with _ | ⟨a, _ | ⟨b, rest⟩⟩
  · rfl
  · rfl
  · rfl

end Processor

open Processor

def RenamedInst.profiled (inst : RenamedInst) : List PhysReg :=
  let fc := harp_fu_class_of inst.opClass
  if 2 ≤ fc then fpReads 0 inst.regs else if fc = 0 ∨ fc = 1 then intReads 2 inst.regs else []

/-! ### The trace -/

def countReg (r : PhysRegFile vecRegBytes) (preg : PhysReg) : PhysRegFile vecRegBytes :=
  match traced preg with
  | some slot => r.countRead slot
  | none => r

variable {slot : Reg.Slot} (regs : List PhysReg)

theorem foldl_observe_regFile (s : Processor cfg vecRegBytes) :
    (regs.foldl observe s).regFile = regs.foldl countReg s.regFile := by
  induction regs generalizing s with
  | nil => rfl
  | cons preg regs ih =>
    have hone : (s.observe preg).regFile = countReg s.regFile preg := by
      unfold observe countReg
      split <;> rfl
    rw [List.foldl_cons, ih, hone, List.foldl_cons]

theorem profileValues_regFile (s : Processor cfg vecRegBytes) (fc : Int) (inst : RenamedInst) :
    (s.profileValues fc inst).regFile = (fpReads 0 inst.regs).foldl countReg s.regFile := by
  have hstate : (s.harp_fp_value_classes_of inst).2.regFile = (fpReads 0 inst.regs).foldl countReg s.regFile := by
    rw [Processor.harp_fp_value_classes_of, fpLoop_state, foldl_observe_regFile]
    rfl
  unfold profileValues
  dsimp only
  split <;> exact hstate

theorem profileOperands_regFile (s : Processor cfg vecRegBytes) (fc : Int) (inst : RenamedInst) :
    (s.profileOperands fc inst).regFile = (intReads 2 inst.regs).foldl countReg s.regFile := by
  rw [← foldl_observe_regFile, ← s.harp_two_int_srcs_state inst]
  unfold profileOperands
  split
  · rename_i heq
    rw [heq]
    rfl
  · rename_i heq
    rw [heq]

theorem onIssue_regFile {s : Processor cfg vecRegBytes} (hcov : s.cov.isSome = true) (inst : RenamedInst) :
    (s.onIssue inst).regFile = inst.profiled.foldl countReg s.regFile := by
  have hon : s.cov.isNone = false := by simpa using hcov
  unfold onIssue RenamedInst.profiled
  dsimp only
  by_cases hneg : harp_fu_class_of inst.opClass < 0
  · rw [if_pos (Or.inr hneg), if_neg (by omega), if_neg (by omega)]
    rfl
  · rw [if_neg (by simp [hon, hneg])]
    by_cases hfp : 2 ≤ harp_fu_class_of inst.opClass
    · rw [if_pos hfp, if_neg (by omega), if_pos hfp, profileValues_regFile]
      rfl
    · have hint : harp_fu_class_of inst.opClass = 0 ∨ harp_fu_class_of inst.opClass = 1 := by omega
      rw [if_neg hfp, if_pos hint, if_neg hfp, if_pos hint, profileOperands_regFile]
      rfl

theorem onIssue_of_none {s : Processor cfg vecRegBytes} (hcov : s.cov = none) (inst : RenamedInst) :
    s.onIssue inst = s := by
  unfold onIssue
  rw [hcov]
  rfl

theorem access_regFile (s : Processor cfg vecRegBytes) (op : RegOp) : (s.access op).regFile = s.regFile.access op := by
  cases op <;> rfl

theorem access_cov (s : Processor cfg vecRegBytes) (op : RegOp) : (s.access op).cov.isSome = s.cov.isSome := by
  cases op <;> exact call_cov_isSome ..

theorem foldl_observe_cov (s : Processor cfg vecRegBytes) : (regs.foldl observe s).cov.isSome = s.cov.isSome := by
  induction regs generalizing s with
  | nil => rfl
  | cons preg regs ih =>
    have hone : (s.observe preg).cov.isSome = s.cov.isSome := by
      unfold observe
      split
      · exact call_cov_isSome ..
      · rfl
    rw [List.foldl_cons, ih, hone]

theorem onIssue_mounted {s : Processor cfg vecRegBytes} (hcov : s.cov.isSome = true) (inst : RenamedInst) :
    (s.onIssue inst).cov.isSome = true := by
  have hvalues : ∀ (s : Processor cfg vecRegBytes) (fc : Int), s.cov.isSome = true →
      (s.profileValues fc inst).cov.isSome = true := by
    intro s fc hs
    have hstate : (s.harp_fp_value_classes_of inst).2.cov.isSome = true := by
      rw [Processor.harp_fp_value_classes_of, fpLoop_state, foldl_observe_cov, hs]
    unfold profileValues
    dsimp only
    split
    · rw [call_cov_isSome, hstate]
    · exact hstate
  have hoperands : ∀ (s : Processor cfg vecRegBytes) (fc : Int), s.cov.isSome = true →
      (s.profileOperands fc inst).cov.isSome = true := by
    intro s fc hs
    have hstate : (s.harp_two_int_srcs inst).2.cov.isSome = true := by
      rw [harp_two_int_srcs_state, foldl_observe_cov, hs]
    unfold profileOperands
    split <;> rename_i heq <;> rw [heq] at hstate
    · rw [call_cov_isSome, hstate]
    · exact hstate
  unfold onIssue
  dsimp only
  split
  · exact hcov
  · split <;> split
    · exact hoperands _ _ (hvalues _ _ ((call_cov_isSome ..).trans hcov))
    · exact hoperands _ _ ((call_cov_isSome ..).trans hcov)
    · exact hvalues _ _ ((call_cov_isSome ..).trans hcov)
    · exact (call_cov_isSome ..).trans hcov

def readsOf (slot : Reg.Slot) (regs : List PhysReg) : Nat := regs.countP fun preg => traced preg = some slot

theorem foldl_countReg_trace {r : PhysRegFile vecRegBytes} (htrace : r.trace = some slot) :
    (regs.foldl countReg r).trace = some slot ∧
    (regs.foldl countReg r).trace_overwritten = r.trace_overwritten ∧
    (regs.foldl countReg r).reads_before_overwrite =
      r.reads_before_overwrite + if r.trace_overwritten then 0 else readsOf slot regs := by
  induction regs generalizing r with
  | nil => cases h : r.trace_overwritten <;> simp [readsOf, htrace, h]
  | cons preg regs ih =>
    have hone : (countReg r preg).trace = some slot ∧ (countReg r preg).trace_overwritten = r.trace_overwritten ∧
        (countReg r preg).reads_before_overwrite = r.reads_before_overwrite +
          if decide (traced preg = some slot) && !r.trace_overwritten then 1 else 0 := by
      unfold countReg
      rcases traced preg with _ | other
      · simp [htrace]
      · obtain ⟨h1, h2, h3⟩ := countRead_trace htrace other
        refine ⟨h1, h2, h3.trans ?_⟩
        simp only [Option.some.injEq, eq_comm]
    obtain ⟨h1, h2, h3⟩ := hone
    obtain ⟨h4, h5, h6⟩ := ih h1
    rw [List.foldl_cons]
    refine ⟨h4, h5.trans h2, ?_⟩
    rw [h6, h3, h2, readsOf, readsOf, List.countP_cons]
    cases r.trace_overwritten with
    | true => simp
    | false =>
      simp only [Bool.not_false, Bool.and_true, Bool.false_eq_true, ↓reduceIte]
      omega

/-! ### Two runs -/

def Event.ends (slot : Reg.Slot) : Event cfg → Bool
  | .access op => op.sets slot
  | _ => false

def Event.profileReads (slot : Reg.Slot) : Event cfg → Nat
  | .issue inst => readsOf slot inst.profiled
  | _ => 0

def profileReads (slot : Reg.Slot) (es : List (Event cfg)) : Nat :=
  ((es.takeWhile fun e => !e.ends slot).map (Event.profileReads slot)).sum

structure Twin (slot : Reg.Slot) (s t : Processor cfg vecRegBytes) : Prop where
  mounted : s.cov.isSome = true
  bare : t.cov = none
  trace : s.regFile.trace = some slot
  trace_bare : t.regFile.trace = some slot
  flag : s.regFile.trace_overwritten = t.regFile.trace_overwritten

theorem Twin.step {s t : Processor cfg vecRegBytes} (h : Twin slot s t) (e : Event cfg) :
    Twin slot (step s e) (step t e) ∧
    (Profile.step s e).regFile.trace_overwritten = (s.regFile.trace_overwritten || e.ends slot) ∧
    (Profile.step s e).regFile.reads_before_overwrite + t.regFile.reads_before_overwrite =
      (Profile.step t e).regFile.reads_before_overwrite + s.regFile.reads_before_overwrite +
        if s.regFile.trace_overwritten then 0 else e.profileReads slot := by
  cases e with
  | issue inst =>
    have hs := onIssue_regFile h.mounted inst
    have ht := onIssue_of_none h.bare inst
    obtain ⟨h1, h2, h3⟩ := foldl_countReg_trace inst.profiled h.trace
    rw [← hs] at h1 h2 h3
    refine ⟨⟨onIssue_mounted h.mounted inst, ?_, h1, ?_, ?_⟩, h2.trans (Bool.or_false _).symm, ?_⟩
    · exact (congrArg cov ht).trans h.bare
    · exact (congrArg (·.regFile.trace) ht).trans h.trace_bare
    · exact h2.trans (h.flag.trans (congrArg (·.regFile.trace_overwritten) ht).symm)
    · show (s.onIssue inst).regFile.reads_before_overwrite + _ = (t.onIssue inst).regFile.reads_before_overwrite + _ + _
      rw [h3, ht]
      simp only [Event.profileReads]
      omega
  | access op =>
    obtain ⟨h1, h2, h3⟩ := access_trace h.trace op
    obtain ⟨h4, h5, h6⟩ := access_trace h.trace_bare op
    rw [← access_regFile] at h1 h2 h3 h4 h5 h6
    refine ⟨⟨?_, ?_, h1, h4, ?_⟩, h2, ?_⟩
    · exact (access_cov s op).trans h.mounted
    · have hbare := access_cov t op
      rw [h.bare] at hbare
      show (t.access op).cov = none
      simpa using hbare
    · exact h2.trans ((congrArg (· || op.sets slot) h.flag).trans h5.symm)
    · show (s.access op).regFile.reads_before_overwrite + _ = (t.access op).regFile.reads_before_overwrite + _ + _
      rw [h3, h6, h.flag]
      simp only [Event.profileReads, ite_self]
      omega
  | cov e =>
    refine ⟨⟨?_, ?_, h.trace, h.trace_bare, h.flag⟩, (Bool.or_false _).symm, ?_⟩
    · exact (call_cov_isSome s _).trans h.mounted
    · show t.cov.map _ = none
      rw [h.bare]
      rfl
    · simp only [Event.profileReads, ite_self]
      exact Nat.add_comm ..

theorem Twin.run {s t : Processor cfg vecRegBytes} (h : Twin slot s t) (es : List (Event cfg)) :
    (run s es).regFile.reads_before_overwrite + t.regFile.reads_before_overwrite =
      (run t es).regFile.reads_before_overwrite + s.regFile.reads_before_overwrite +
        if s.regFile.trace_overwritten then 0 else profileReads slot es := by
  induction es generalizing s t with
  | nil =>
    have hnone : profileReads slot ([] : List (Event cfg)) = 0 := rfl
    rw [hnone, ite_self]
    exact Nat.add_comm ..
  | cons e es ih =>
    obtain ⟨htwin, hflag, hcount⟩ := h.step e
    have hrest := ih htwin
    rw [hflag] at hrest
    have hsum : profileReads slot (e :: es) =
        if e.ends slot then 0 else e.profileReads slot + profileReads slot es := by
      unfold profileReads
      cases hends : e.ends slot <;> simp [hends]
    have hnone : e.ends slot = true → e.profileReads slot = 0 := by
      cases e <;> simp [Event.ends, Event.profileReads]
    show (Profile.run (Profile.step s e) es).regFile.reads_before_overwrite + _ =
      (Profile.run (Profile.step t e) es).regFile.reads_before_overwrite + _ + _
    rw [hsum]
    cases hover : s.regFile.trace_overwritten <;> cases hends : e.ends slot <;>
      simp only [hover, hends, Bool.or_false, Bool.or_true, Bool.false_eq_true, ↓reduceIte] at hrest hcount ⊢
    · omega
    · have := hnone hends
      omega
    · omega
    · omega

theorem count_with_profile (r : PhysRegFile vecRegBytes) (vecElem : Nat → BitVec 64) (cov : CHAOSCov cfg)
    (slot : Reg.Slot) (es : List (Event cfg)) :
    (run ⟨r.setReadTraceTarget slot, vecElem, some cov⟩ es).regFile.reads_before_overwrite =
      (run ⟨r.setReadTraceTarget slot, vecElem, (none : Option (CHAOSCov cfg))⟩ es).regFile.reads_before_overwrite +
        profileReads slot es := by
  have htwin : Twin slot ⟨r.setReadTraceTarget slot, vecElem, some cov⟩
      (⟨r.setReadTraceTarget slot, vecElem, none⟩ : Processor cfg vecRegBytes) := ⟨rfl, rfl, rfl, rfl, rfl⟩
  exact htwin.run es

theorem profileReads_eq_zero_iff (slot : Reg.Slot) (es : List (Event cfg)) :
    profileReads slot es = 0 ↔ ∀ inst, .issue inst ∈ es.takeWhile (fun e => !e.ends slot) →
      ∀ preg ∈ inst.profiled, traced preg ≠ some slot := by
  unfold profileReads
  rw [List.sum_eq_zero_iff]
  constructor
  · intro h inst hinst preg hpreg
    have hzero := h _ (List.mem_map.2 ⟨_, hinst, rfl⟩)
    have hno := List.countP_eq_zero.1 hzero preg hpreg
    simpa using hno
  · intro h n hn
    obtain ⟨e, he, rfl⟩ := List.mem_map.1 hn
    cases e with
    | issue inst =>
      refine List.countP_eq_zero.2 fun preg hpreg => ?_
      simpa using h inst he preg hpreg
    | _ => rfl

/-- The analyzer leaves the count of an injected register alone exactly if no instruction with the register among its
profiled sources is issued before the register is written. -/
theorem profile_undisturbed_iff (r : PhysRegFile vecRegBytes) (vecElem : Nat → BitVec 64) (cov : CHAOSCov cfg)
    (slot : Reg.Slot) (es : List (Event cfg)) :
    (run ⟨r.setReadTraceTarget slot, vecElem, some cov⟩ es).regFile.reads_before_overwrite =
      (run ⟨r.setReadTraceTarget slot, vecElem, (none : Option (CHAOSCov cfg))⟩ es).regFile.reads_before_overwrite ↔
    ∀ inst, .issue inst ∈ es.takeWhile (fun e => !e.ends slot) → ∀ preg ∈ inst.profiled, traced preg ≠ some slot := by
  rw [count_with_profile, ← profileReads_eq_zero_iff]
  omega

private def addition : RenamedInst :=
  { seqNum := 0, opClass := .IntAlu, srcs := [⟨.intReg, ⟨.intReg, 0⟩⟩, ⟨.intReg, ⟨.intReg, 1⟩⟩] }

private def zeros : PhysRegFile 16 := { reg := fun _ _ => 0, vecReg := fun _ _ => 0 }

/-- The register 1 is traced.  The addition is tried twice, as it gets no unit at first, and then reads its sources: one
read, and three with the analyzer. -/
theorem profile_reads_counted :
    let es : List (Event tiny) := [.issue addition, .issue addition, .access (.getReg .IntRegClass 0),
      .access (.getReg .IntRegClass 1)]
    let r := zeros.setReadTraceTarget (.scalar .IntRegClass, 1)
    (run ⟨r, fun _ => 0, some (Cov.fresh tiny)⟩ es).regFile.reads_before_overwrite = 3 ∧
    (run ⟨r, fun _ => 0, (none : Option (CHAOSCov tiny))⟩ es).regFile.reads_before_overwrite = 1 := by
  decide

end GemFI.IQ.Profile
