import GemFI.Lib.Bytes
import GemFI.Reg.Fault

/-!
# The physical register file

The integer, float and vector files of the O3 processor, with the two hooks of the injector: a slot whose reads are
counted until it is written, and a stuck target whose bits are forced on every scalar write.  The integer and the
float class are one class with a parameter; a vector register is a sequence of bytes.  The other classes, which have
no hook, and the calls of the coverage analyzer are left out.
-/

namespace GemFI.Reg

open Bytes

inductive ScalarClass where
  | IntRegClass | FloatRegClass
  deriving DecidableEq, Repr

inductive RegClassType where
  | scalar (cls : ScalarClass)
  | VecRegClass
  deriving DecidableEq, Repr

abbrev Slot := RegClassType × Nat

/-- The register whose bits under the mask are forced; a polarity that is not 0 forces them to 1. -/
structure StuckTarget where
  stuck_type : RegClassType
  stuck_idx : Nat
  stuck_mask : BitVec 64
  stuck_polarity : Bool
  deriving DecidableEq, Repr

def StuckTarget.slot (t : StuckTarget) : Slot := (t.stuck_type, t.stuck_idx)

def StuckTarget.force (t : StuckTarget) : Force 64 := ⟨t.stuck_mask, t.stuck_polarity⟩

structure PhysRegFile (vecRegBytes : Nat) where
  reg : ScalarClass → Nat → BitVec 64
  vecReg : Nat → Nat → BitVec 8
  /-- The traced slot; `none` is `InvalidRegClass`. -/
  trace : Option Slot := none
  reads_before_overwrite : Nat := 0
  trace_overwritten : Bool := false
  stuck : Option StuckTarget := none

namespace PhysRegFile

variable {vecRegBytes : Nat}

def setReadTraceTarget (r : PhysRegFile vecRegBytes) (slot : Slot) : PhysRegFile vecRegBytes :=
  { r with trace := some slot, reads_before_overwrite := 0, trace_overwritten := false }

def clearReadTraceTarget (r : PhysRegFile vecRegBytes) : PhysRegFile vecRegBytes := { r with trace := none }

def setStuckTarget (r : PhysRegFile vecRegBytes) (t : StuckTarget) : PhysRegFile vecRegBytes := { r with stuck := some t }

def clearStuckTarget (r : PhysRegFile vecRegBytes) : PhysRegFile vecRegBytes := { r with stuck := none }

/-- A read of the traced slot is counted while it has not been written. -/
def countRead (r : PhysRegFile vecRegBytes) (slot : Slot) : PhysRegFile vecRegBytes :=
  if r.trace = some slot ∧ r.trace_overwritten = false then
    { r with reads_before_overwrite := r.reads_before_overwrite + 1 }
  else r

def markWritten (r : PhysRegFile vecRegBytes) (slot : Slot) : PhysRegFile vecRegBytes :=
  if r.trace = some slot then { r with trace_overwritten := true } else r

def stick (r : PhysRegFile vecRegBytes) (cls : ScalarClass) (idx : Nat) (val : BitVec 64) : BitVec 64 :=
  match r.stuck with
  | none => val
  | some t => if t.stuck_type = .scalar cls ∧ t.stuck_idx = idx then t.force.apply val else val

/-! ### Accesses -/

def getReg (r : PhysRegFile vecRegBytes) (cls : ScalarClass) (idx : Nat) : BitVec 64 × PhysRegFile vecRegBytes :=
  (r.reg cls idx, r.countRead (.scalar cls, idx))

/-- `getReg` of a vector register into a buffer of zeros. -/
def getVec (r : PhysRegFile vecRegBytes) (idx : Nat) : (Nat → BitVec 8) × PhysRegFile vecRegBytes :=
  (fun b => if b < vecRegBytes then r.vecReg idx b else 0, r.countRead (.VecRegClass, idx))

def setReg (r : PhysRegFile vecRegBytes) (cls : ScalarClass) (idx : Nat) (val : BitVec 64) : PhysRegFile vecRegBytes :=
  let r := r.markWritten (.scalar cls, idx)
  { r with reg := Function.update r.reg cls (Function.update (r.reg cls) idx (r.stick cls idx val)) }

def storeVec (r : PhysRegFile vecRegBytes) (idx : Nat) (buf : Nat → BitVec 8) : PhysRegFile vecRegBytes :=
  { r with vecReg := Function.update r.vecReg idx fun b => if b < vecRegBytes then buf b else r.vecReg idx b }

/-- `setReg` from a buffer: a scalar register gets the word in its first eight bytes. -/
def setRegBuf (r : PhysRegFile vecRegBytes) (cls : RegClassType) (idx : Nat) (buf : Nat → BitVec 8) :
    PhysRegFile vecRegBytes :=
  match cls with
  | .scalar c => r.setReg c idx (littleEndian 64 buf 8)
  | .VecRegClass => (r.markWritten (.VecRegClass, idx)).storeVec idx buf

/-- What the program does to the registers.  The pointer of `getWritableReg` is used for one write. -/
inductive RegOp where
  | getReg (cls : ScalarClass) (idx : Nat)
  | getRegBuf (cls : RegClassType) (idx : Nat)
  | setReg (cls : ScalarClass) (idx : Nat) (val : BitVec 64)
  | setRegBuf (cls : RegClassType) (idx : Nat) (buf : Nat → BitVec 8)
  | getWritableReg (idx : Nat) (buf : Nat → BitVec 8)

def access (r : PhysRegFile vecRegBytes) : RegOp → PhysRegFile vecRegBytes
  | .getReg cls idx => (r.getReg cls idx).2
  | .getRegBuf cls idx => r.countRead (cls, idx)
  | .setReg cls idx val => r.setReg cls idx val
  | .setRegBuf cls idx buf => r.setRegBuf cls idx buf
  | .getWritableReg idx buf => r.storeVec idx buf

def accesses (r : PhysRegFile vecRegBytes) (ops : List RegOp) : PhysRegFile vecRegBytes := ops.foldl access r

/-! ### Registers as bits -/

def width (vecRegBytes : Nat) : RegClassType → Nat
  | .scalar _ => 64
  | .VecRegClass => 8 * vecRegBytes

def bit (r : PhysRegFile vecRegBytes) (slot : Slot) (i : Nat) : Bool :=
  match slot.1 with
  | .scalar cls => (r.reg cls slot.2).getLsbD i
  | .VecRegClass => (r.vecReg slot.2 (i / 8)).getLsbD (i % 8)

/-! ### What the accesses leave alone -/

structure SameRegs (r r' : PhysRegFile vecRegBytes) : Prop where
  reg : r'.reg = r.reg
  vecReg : r'.vecReg = r.vecReg
  stuck : r'.stuck = r.stuck

variable (r : PhysRegFile vecRegBytes) {cls : ScalarClass}

theorem countRead_same (slot : Slot) : SameRegs r (r.countRead slot) := by
  unfold countRead
  split <;> exact ⟨rfl, rfl, rfl⟩

theorem markWritten_same (slot : Slot) : SameRegs r (r.markWritten slot) := by
  unfold markWritten
  split <;> exact ⟨rfl, rfl, rfl⟩

theorem stick_congr {r r' : PhysRegFile vecRegBytes} (h : r'.stuck = r.stuck) : r'.stick = r.stick := by
  funext cls idx val
  rw [stick, stick, h]

theorem setReg_reg (cls c : ScalarClass) (idx i : Nat) (val : BitVec 64) :
    (r.setReg cls idx val).reg c i = if c = cls ∧ i = idx then r.stick cls idx val else r.reg c i := by
  obtain ⟨hreg, -, hstuck⟩ := r.markWritten_same (.scalar cls, idx)
  simp only [setReg, hreg, stick_congr hstuck]
  by_cases hc : c = cls
  · subst hc
    by_cases hi : i = idx
    · simp [hi]
    · simp [hi]
  · simp [hc]

theorem setReg_frame (cls : ScalarClass) (idx : Nat) (val : BitVec 64) :
    (r.setReg cls idx val).vecReg = r.vecReg ∧ (r.setReg cls idx val).stuck = r.stuck :=
  ⟨(r.markWritten_same (.scalar cls, idx)).vecReg, (r.markWritten_same (.scalar cls, idx)).stuck⟩

theorem setVec_frame (idx : Nat) (buf : Nat → BitVec 8) :
    (r.setRegBuf .VecRegClass idx buf).reg = r.reg ∧
    (r.setRegBuf .VecRegClass idx buf).vecReg = (r.storeVec idx buf).vecReg ∧
    (r.setRegBuf .VecRegClass idx buf).stuck = r.stuck := by
  obtain ⟨hreg, hvec, hstuck⟩ := r.markWritten_same (.VecRegClass, idx)
  exact ⟨hreg, by simp only [setRegBuf, storeVec, hvec], hstuck⟩

/-! ### One stuck target -/

/-- The register file with a stuck target on a scalar register, compared with one that has the same history and no
target: the target has the forced value of the other, and all other registers agree. -/
structure Mirrors (f : Force 64) (cls : ScalarClass) (idx : Nat) (r q : PhysRegFile vecRegBytes) : Prop where
  target : r.reg cls idx = f.apply (q.reg cls idx)
  other : ∀ c i, ¬(c = cls ∧ i = idx) → r.reg c i = q.reg c i
  vec : r.vecReg = q.vecReg
  armed : r.stuck = some ⟨.scalar cls, idx, f.mask, f.one⟩
  free : q.stuck = none

variable {idx : Nat} {f : Force 64}

theorem Mirrors.of_same {r q r' q' : PhysRegFile vecRegBytes} (h : Mirrors f cls idx r q)
    (hr : SameRegs r r') (hq : SameRegs q q') : Mirrors f cls idx r' q' where
  target := by rw [hr.reg, hq.reg, h.target]
  other := fun c i hne => by rw [hr.reg, hq.reg, h.other c i hne]
  vec := by rw [hr.vecReg, hq.vecReg, h.vec]
  armed := hr.stuck.trans h.armed
  free := hq.stuck.trans h.free

theorem Mirrors.setReg {r q : PhysRegFile vecRegBytes} (h : Mirrors f cls idx r q)
    (c : ScalarClass) (i : Nat) (val : BitVec 64) : Mirrors f cls idx (r.setReg c i val) (q.setReg c i val) := by
  have hfree : q.stick c i val = val := by simp [stick, h.free]
  have harmed : r.stick c i val = if c = cls ∧ i = idx then f.apply val else val := by
    simp only [stick, h.armed, StuckTarget.force, RegClassType.scalar.injEq]
    by_cases hat : c = cls ∧ i = idx
    · rw [if_pos hat, if_pos ⟨hat.1.symm, hat.2.symm⟩]
    · rw [if_neg hat, if_neg fun hs => hat ⟨hs.1.symm, hs.2.symm⟩]
  refine ⟨?_, fun c' i' hne => ?_, ?_, (r.setReg_frame c i val).2.trans h.armed,
    (q.setReg_frame c i val).2.trans h.free⟩
  · rw [setReg_reg, setReg_reg, hfree, harmed]
    by_cases hat : cls = c ∧ idx = i
    · rw [if_pos hat, if_pos hat, if_pos ⟨hat.1.symm, hat.2.symm⟩]
    · rw [if_neg hat, if_neg hat, h.target]
  · rw [setReg_reg, setReg_reg, hfree, harmed]
    by_cases hat : c' = c ∧ i' = i
    · have hnot : ¬(c = cls ∧ i = idx) := fun hs => hne ⟨hat.1.trans hs.1, hat.2.trans hs.2⟩
      rw [if_pos hat, if_pos hat, if_neg hnot]
    · rw [if_neg hat, if_neg hat, h.other c' i' hne]
  · rw [(r.setReg_frame c i val).1, (q.setReg_frame c i val).1, h.vec]

theorem Mirrors.storeVec {r q : PhysRegFile vecRegBytes} (h : Mirrors f cls idx r q)
    (i : Nat) (buf : Nat → BitVec 8) :
    Mirrors f cls idx (r.storeVec i buf) (q.storeVec i buf) where
  target := h.target
  other := h.other
  vec := by
    simp only [PhysRegFile.storeVec, h.vec]
  armed := h.armed
  free := h.free

theorem Mirrors.access {r q : PhysRegFile vecRegBytes} (h : Mirrors f cls idx r q)
    (op : RegOp) : Mirrors f cls idx (r.access op) (q.access op) := by
  cases op with
  | getReg c i => exact h.of_same (r.countRead_same _) (q.countRead_same _)
  | getRegBuf c i => exact h.of_same (r.countRead_same _) (q.countRead_same _)
  | setReg c i val => exact h.setReg c i val
  | setRegBuf c i buf =>
    cases c with
    | scalar c => exact h.setReg c i _
    | VecRegClass => exact (h.of_same (r.markWritten_same _) (q.markWritten_same _)).storeVec i buf
  | getWritableReg i buf => exact h.storeVec i buf

theorem Mirrors.run {r q : PhysRegFile vecRegBytes} (h : Mirrors f cls idx r q)
    (ops : List RegOp) : Mirrors f cls idx (r.accesses ops) (q.accesses ops) := by
  induction ops generalizing r q with
  | nil => exact h
  | cons op ops ih => exact ih (h.access op)

/-- The last value written to a scalar register, or else the given one. -/
def lastWritten (cls : ScalarClass) (idx : Nat) (ops : List RegOp) (old : BitVec 64) : BitVec 64 :=
  ops.foldl (fun val op =>
    match op with
    | .setReg c i v => if c = cls ∧ i = idx then v else val
    | .setRegBuf c i buf => if c = .scalar cls ∧ i = idx then littleEndian 64 buf 8 else val
    | _ => val) old

theorem reg_eq_lastWritten {q : PhysRegFile vecRegBytes} (hfree : q.stuck = none) (cls : ScalarClass) (idx : Nat)
    (ops : List RegOp) : (q.accesses ops).reg cls idx = lastWritten cls idx ops (q.reg cls idx) := by
  induction ops generalizing q with
  | nil => rfl
  | cons op ops ih =>
    have hset : ∀ c i v, (q.setReg c i v).reg cls idx = if c = cls ∧ i = idx then v else q.reg cls idx := by
      intro c i v
      rw [setReg_reg]
      simp only [stick, hfree, eq_comm]
    have hop : (q.access op).stuck = none ∧ lastWritten cls idx (op :: ops) (q.reg cls idx) =
        lastWritten cls idx ops ((q.access op).reg cls idx) := by
      cases op with
      | getReg c i =>
        obtain ⟨hreg, -, hstuck⟩ := q.countRead_same (.scalar c, i)
        exact ⟨hstuck.trans hfree, by simp only [lastWritten, access, getReg, hreg, List.foldl_cons]⟩
      | getRegBuf c i =>
        obtain ⟨hreg, -, hstuck⟩ := q.countRead_same (c, i)
        exact ⟨hstuck.trans hfree, by simp only [lastWritten, access, hreg, List.foldl_cons]⟩
      | setReg c i v =>
        exact ⟨(q.setReg_frame c i v).2.trans hfree, by simp only [lastWritten, access, hset, List.foldl_cons]⟩
      | setRegBuf c i buf =>
        cases c with
        | scalar c =>
          refine ⟨(q.setReg_frame c i _).2.trans hfree, ?_⟩
          simp only [lastWritten, access, setRegBuf, hset, List.foldl_cons, RegClassType.scalar.injEq]
        | VecRegClass =>
          obtain ⟨hreg, -, hstuck⟩ := q.setVec_frame i buf
          refine ⟨hstuck.trans hfree, ?_⟩
          simp only [lastWritten, access, hreg, List.foldl_cons, reduceCtorEq, false_and, ↓reduceIte]
      | getWritableReg i buf => exact ⟨hfree, rfl⟩
    exact (ih hop.1).trans hop.2.symm

end PhysRegFile

end GemFI.Reg
