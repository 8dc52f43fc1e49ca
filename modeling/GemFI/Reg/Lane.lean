import GemFI.Reg.CHAOSPhysReg

/-!
# Faults in a vector lane

The vector path of `processFault` reads the whole register, corrupts one lane of it and writes everything back.  The
lane always lies in the register, and the fault is in the bits of the mask below the width of the lane
(`vector_lane_fault`).
-/

namespace GemFI.Reg

open Mem (FaultType)
open Bytes

namespace CHAOSPhysReg

variable {cfg : PhysRegConfig}

def laneStart (s : CHAOSPhysReg cfg) : Nat := (chooseLane cfg s.rng).1 * laneBytes cfg

def laneVal (s : CHAOSPhysReg cfg) (idx start : Nat) : BitVec 64 :=
  littleEndian 64 (fun b => s.regFile.vecReg idx (start + b)) (laneBytes cfg)

theorem laneStart_add_le (hwidth : 8 ≤ cfg.vecRegBytes) (s : CHAOSPhysReg cfg) :
    laneStart s + laneBytes cfg ≤ cfg.vecRegBytes := by
  have hbytes : 0 < laneBytes cfg ∧ laneBytes cfg ≤ 8 := by
    rcases laneBytes_cases cfg with h | h | h | h <;> omega
  have hone : 1 ≤ cfg.vecRegBytes / laneBytes cfg :=
    (Nat.le_div_iff_mul_le hbytes.1).2 (by omega)
  have hlanes : max (max cfg.vecRegBytes 8 / laneBytes cfg) 1 = cfg.vecRegBytes / laneBytes cfg := by
    rw [Nat.max_eq_left hwidth, Nat.max_eq_left hone]
  have hlt : (chooseLane cfg s.rng).1 < cfg.vecRegBytes / laneBytes cfg := by
    unfold chooseLane
    dsimp only
    rw [hlanes]
    split
    · omega
    · exact Nat.mod_lt _ (by omega)
  calc laneStart s + laneBytes cfg = ((chooseLane cfg s.rng).1 + 1) * laneBytes cfg := by
        rw [laneStart, Nat.add_mul, Nat.one_mul]
    _ ≤ cfg.vecRegBytes / laneBytes cfg * laneBytes cfg := Nat.mul_le_mul_right _ hlt
    _ ≤ cfg.vecRegBytes := Nat.div_mul_le_self _ _

theorem injectVector_vecReg (s : CHAOSPhysReg cfg) (tid idx : Nat) (ty : FaultType) (mask : BitVec 64) {b : Nat}
    (hb : b < cfg.vecRegBytes) (hwidth : 8 ≤ cfg.vecRegBytes) :
    (injectVector s tid idx ty mask).regFile.vecReg idx b =
      if laneStart s ≤ b ∧ b < laneStart s + laneBytes cfg then
        byteOf (faulty ty (laneMask cfg mask) (s.laneVal idx (laneStart s))) (b - laneStart s)
      else s.regFile.vecReg idx b := by
  obtain ⟨start, buf, -, -, -, -, hvec, hbuf, hstart⟩ := injectVector_spec s tid idx ty mask
  have hread : ∀ b < cfg.vecRegBytes, (s.regFile.getVec idx).1 b = s.regFile.vecReg idx b := fun b hb => if_pos hb
  have hin := laneStart_add_le hwidth s
  have hval : littleEndian 64 (fun b => (s.regFile.getVec idx).1 (laneStart s + b)) (laneBytes cfg) =
      s.laneVal idx (laneStart s) := by
    refine littleEndian_congr fun b hb => hread _ ?_
    omega
  obtain rfl : start = laneStart s := hstart
  rw [hval] at hbuf
  rw [hvec, hbuf]
  simp only [PhysRegFile.storeVec, Function.update_self, hb, ↓reduceIte, putLane, hread b hb]

/-- The vector path stays in the register: in one lane it flips, clears or sets exactly the bits of the mask below the
width of the lane, and everything else is written back as it was. -/
theorem vector_lane_fault (hwidth : 8 ≤ cfg.vecRegBytes) (s : CHAOSPhysReg cfg) (tid idx : Nat) (ty : FaultType)
    (mask : BitVec 64) :
    laneStart s + laneBytes cfg ≤ cfg.vecRegBytes ∧
    (∀ j, ((injectVector s tid idx ty mask).laneVal idx (laneStart s)).getLsbD j =
      if j < 8 * laneBytes cfg ∧ mask.getLsbD j = true then ty.faultBit ((s.laneVal idx (laneStart s)).getLsbD j)
      else (s.laneVal idx (laneStart s)).getLsbD j) ∧
    (∀ b < cfg.vecRegBytes, ¬(laneStart s ≤ b ∧ b < laneStart s + laneBytes cfg) →
      (injectVector s tid idx ty mask).regFile.vecReg idx b = s.regFile.vecReg idx b) ∧
    (∀ i, i ≠ idx → (injectVector s tid idx ty mask).regFile.vecReg i = s.regFile.vecReg i) ∧
    (injectVector s tid idx ty mask).regFile.reg = s.regFile.reg := by
  have hin := laneStart_add_le hwidth s
  have hbytes : laneBytes cfg ≤ 8 := by
    rcases laneBytes_cases cfg with h | h | h | h <;> omega
  refine ⟨hin, ?_, ?_, ?_, ?_⟩
  · intro j
    have hlane : (injectVector s tid idx ty mask).laneVal idx (laneStart s) =
        littleEndian 64 (byteOf (faulty ty (laneMask cfg mask) (s.laneVal idx (laneStart s)))) (laneBytes cfg) := by
      refine littleEndian_congr fun b hb => ?_
      rw [injectVector_vecReg s tid idx ty mask (by omega) hwidth, if_pos ⟨by omega, by omega⟩, Nat.add_sub_cancel_left]
    rw [hlane]
    exact getLsbD_faulty_window ty _ hbytes (getLsbD_laneMask cfg mask) j
  · intro b hb hout
    rw [injectVector_vecReg s tid idx ty mask hb hwidth, if_neg hout]
  · intro i hi
    obtain ⟨start, buf, -, -, -, -, hvec, -, -⟩ := injectVector_spec s tid idx ty mask
    rw [hvec]
    exact Function.update_of_ne hi _ _
  · obtain ⟨start, buf, -, -, hreg, -⟩ := injectVector_spec s tid idx ty mask
    exact hreg

/-- Lane 3 of 16 bits in a register of ones: bit 16 of the mask is not in the lane. -/
theorem vector_lane_fault_halfword :
    let cfg : PhysRegConfig := { fourRegs with vec_lane_width := 16, vec_lane_offset := 3 }
    let s : CHAOSPhysReg cfg := init cfg (fun _ _ => 0) (fun _ _ => 0xff) fun _ => 0
    laneStart s = 6 ∧ laneStart s + laneBytes cfg ≤ cfg.vecRegBytes ∧
    ((injectVector s 0 1 .BitFlip 0x18000).laneVal 1 (laneStart s)).getLsbD 15 = false ∧
    (injectVector s 0 1 .BitFlip 0x18000).regFile.vecReg 1 8 = s.regFile.vecReg 1 8 := by
  intro cfg s
  obtain ⟨hin, hlane, hrest, -⟩ := vector_lane_fault (by decide) s 0 1 .BitFlip 0x18000
  exact ⟨by decide, hin, (hlane 15).trans (by decide), hrest 8 (by decide) (by decide)⟩

end CHAOSPhysReg

end GemFI.Reg
