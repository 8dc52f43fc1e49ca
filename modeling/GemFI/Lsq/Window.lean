import GemFI.Lib.BitSet
import GemFI.Lsq.Source

/-!
# The window of a fault in forwarded data

The bit-level path of `corrupt` reads a window of the forwarded bytes as a little-endian word, changes it under a mask
and writes it back.  The window lies in the buffer, and the fault is in the bits of the mask that lie in the window
(`corrupt_window`).  A random mask is drawn for the configured width, but the window is shorter at the end of the
buffer: a counted flip changes something exactly if one of the drawn bits is in the window
(`counted_flip_changes_iff`).
-/

namespace GemFI.Lsq

open Mem (Rng FaultType)
open Bytes

namespace CHAOSLSQFwd

variable {cfg : FwdConfig}

/-! ### The window -/

def chooseMask (s : CHAOSLSQFwd cfg) : BitVec 64 × Rng :=
  if cfg.fault_mask ≠ 0 then (cfg.fault_mask, s.rng) else generateRandomMask s

/-- What a fault does to a buffer: where the window is, the mask before it is cut to the window, and the type. -/
structure Fault where
  off : Nat
  width : Nat
  mask : BitVec 64
  ty : FaultType

/-- The fault of the bit-level path for a buffer of the given size; the byte, the mask and the type are drawn in this
order. -/
def chooseFault (s : CHAOSLSQFwd cfg) (size : Nat) : Fault :=
  let off := chooseOffset s size
  let mask := chooseMask ({ s with rng := off.2 } : CHAOSLSQFwd cfg)
  let ty := cfg.fault_type_enum.choose cfg.random_fault_distribution mask.2
  ⟨off.1, windowWidth cfg off.1 size, mask.1, ty.1⟩

def window (f : Fault) (data : List Byte) : BitVec 64 := littleEndian 64 (fun b => data.getD (f.off + b) 0) f.width

variable (s : CHAOSLSQFwd cfg) (data : List Byte)

theorem corruptBits_data :
    (corruptBits s data).1 =
      let f := chooseFault s data.length
      putWindow data f.off f.width (Reg.faulty f.ty (widthMask f.mask f.width) (window f data)) := by
  unfold corruptBits chooseFault chooseMask window
  rfl

theorem window_in_buffer {size : Nat} (hsize : 1 ≤ size) :
    1 ≤ (chooseFault s size).width ∧ (chooseFault s size).width ≤ 8 ∧
    (chooseFault s size).off + (chooseFault s size).width ≤ size := by
  have hoff : (chooseOffset s size).1 < size := by
    unfold chooseOffset
    dsimp only
    have hdraw : (s.rng.below size).1 < size := Nat.mod_lt _ hsize
    split <;> split <;> omega
  show 1 ≤ windowWidth cfg (chooseOffset s size).1 size ∧ windowWidth cfg (chooseOffset s size).1 size ≤ 8 ∧
    (chooseOffset s size).1 + windowWidth cfg (chooseOffset s size).1 size ≤ size
  unfold windowWidth
  dsimp only
  generalize (chooseOffset s size).1 = off at hoff
  repeat' split
  all_goals omega

theorem getLsbD_widthMask (mask : BitVec 64) {width : Nat} (hwidth : width ≤ 8) (j : Nat) :
    (widthMask mask width).getLsbD j = (mask.getLsbD j && decide (j < 8 * width)) := by
  unfold widthMask
  split
  · by_cases hj : j < 64
    · rw [decide_eq_true (by omega), Bool.and_true]
    · rw [BitVec.getLsbD_of_ge _ _ (by omega), Bool.false_and]
  · rw [BitVec.getLsbD_and, getLsbD_shiftOne_sub_one (by omega)]

/-! ### The bytes -/

theorem length_putWindow (off width : Nat) (val : BitVec 64) :
    (putWindow data off width val).length = data.length := by
  unfold putWindow
  refine List.foldlRecOn (motive := fun l : List Byte => l.length = data.length) _ _ rfl fun l hl b _ => ?_
  rw [List.length_set, hl]

theorem getElem?_putWindow (off : Nat) {width : Nat} (hin : off + width ≤ data.length) (val : BitVec 64) (i : Nat) :
    (putWindow data off width val)[i]? =
      if off ≤ i ∧ i < off + width then some (byteOf val (i - off)) else data[i]? := by
  induction width with
  | zero => simp [putWindow]
  | succ width ih =>
    have hstep : putWindow data off (width + 1) val =
        (putWindow data off width val).set (off + width) (byteOf val width) := by
      simp only [putWindow, List.range_succ, List.foldl_append, List.foldl_cons, List.foldl_nil]
    rw [hstep, List.getElem?_set, length_putWindow, ih (by omega)]
    by_cases hi : off + width = i
    · subst hi
      rw [if_pos rfl, if_pos (by omega), if_pos ⟨by omega, by omega⟩, Nat.add_sub_cancel_left]
    · rw [if_neg hi]
      by_cases hold : off ≤ i ∧ i < off + width
      · rw [if_pos hold, if_pos ⟨hold.1, by omega⟩]
      · rw [if_neg hold, if_neg (by omega)]

theorem corruptBits_spec {data : List Byte} (hsize : 1 ≤ data.length) :
    (corruptBits s data).1.length = data.length ∧
    (∀ i, ¬((chooseFault s data.length).off ≤ i ∧
        i < (chooseFault s data.length).off + (chooseFault s data.length).width) →
      (corruptBits s data).1[i]? = data[i]?) ∧
    ∀ j, (window (chooseFault s data.length) (corruptBits s data).1).getLsbD j =
      if j < 8 * (chooseFault s data.length).width ∧ (chooseFault s data.length).mask.getLsbD j = true then
        (chooseFault s data.length).ty.faultBit ((window (chooseFault s data.length) data).getLsbD j)
      else (window (chooseFault s data.length) data).getLsbD j := by
  obtain ⟨-, hwidth, hin⟩ := window_in_buffer s hsize
  rw [corruptBits_data]
  dsimp only
  generalize chooseFault s data.length = f at hwidth hin
  refine ⟨length_putWindow .., ?_, ?_⟩
  · intro i hout
    rw [getElem?_putWindow data f.off hin, if_neg hout]
  · intro j
    have hwin : window f (putWindow data f.off f.width
          (Reg.faulty f.ty (widthMask f.mask f.width) (window f data))) =
        littleEndian 64 (byteOf (Reg.faulty f.ty (widthMask f.mask f.width) (window f data))) f.width := by
      refine littleEndian_congr fun b hb => ?_
      rw [List.getD_eq_getElem?_getD, getElem?_putWindow data f.off hin, if_pos ⟨by omega, by omega⟩,
        Nat.add_sub_cancel_left, Option.getD_some]
    rw [hwin]
    exact Reg.getLsbD_faulty_window f.ty _ hwidth (getLsbD_widthMask f.mask hwidth) j

theorem corrupt_eq (hstruct : cfg.structural_fault_enum = .None) (s : CHAOSLSQFwd cfg) {data : List Byte}
    (hsize : 1 ≤ data.length) (now : Nat) :
    corrupt s data now = if (gate s now).1 = true then corruptBits (gate s now).2 data else (data, (gate s now).2) := by
  unfold corrupt
  dsimp only
  cases hpass : (gate s now).1 with
  | false => rfl
  | true => rw [if_neg (by simp), if_neg (by omega), if_neg (by simp [hstruct]), if_pos rfl]

/-- Without a structural fault, `corrupt` accesses bytes of the buffer only and changes at most those of its window.  If
the gate lets the fault pass, it flips, clears or sets exactly the bits of the mask that lie in the window. -/
theorem corrupt_window (hstruct : cfg.structural_fault_enum = .None) (s : CHAOSLSQFwd cfg) {data : List Byte}
    (hsize : 1 ≤ data.length) (now : Nat) :
    let f := chooseFault (gate s now).2 data.length
    (∀ b < f.width, f.off + b < data.length) ∧ (corrupt s data now).1.length = data.length ∧
    (∀ i, ¬(f.off ≤ i ∧ i < f.off + f.width) → (corrupt s data now).1[i]? = data[i]?) ∧
    ((gate s now).1 = false → (corrupt s data now).1 = data) ∧
    ((gate s now).1 = true → f.ty ≠ .Random ∧
      ∀ j, (window f (corrupt s data now).1).getLsbD j =
        if j < 8 * f.width ∧ f.mask.getLsbD j = true then f.ty.faultBit ((window f data).getLsbD j)
        else (window f data).getLsbD j) := by
  intro f
  obtain ⟨-, -, hin⟩ := window_in_buffer (gate s now).2 hsize
  obtain ⟨hlen, hout, hbits⟩ := corruptBits_spec (gate s now).2 hsize
  rw [corrupt_eq hstruct s hsize]
  refine ⟨fun b hb => Nat.lt_of_lt_of_le (Nat.add_lt_add_left hb _) hin, ?_, ?_, ?_, ?_⟩
  · split
    · exact hlen
    · rfl
  · intro i hi
    split
    · exact hout i hi
    · rfl
  · intro hpass
    rw [if_neg (by simp [hpass])]
  · intro hpass
    rw [if_pos hpass]
    exact ⟨choose_ne_random _ _ _, hbits⟩

def flipping (mask_width byte_offset : Int) : FwdConfig :=
  { probability := 1, fault_type_enum := .BitFlip, fault_mask := 0, mask_width := mask_width
    structural_fault_enum := .None, source_fault_enum := .None, phase_offset := 0, skew_bytes := 0
    num_bits_to_change := 1, byte_offset := byte_offset, first_clock := 0, last_clock := 0, max_faults := 0
    uniform := fun _ => 0, random_fault_distribution := Mem.firstType }

/-- Bit 3 of the second byte, in a window of two bytes. -/
theorem corrupt_window_last_bytes :
    let s := init (flipping 4 2) fun _ => 11
    (corrupt s [1, 2, 3, 4] 0).1.length = 4 ∧ (corrupt s [1, 2, 3, 4] 0).1[1]? = some 2 ∧
    (window ⟨2, 2, 0x800, .BitFlip⟩ (corrupt s [1, 2, 3, 4] 0).1).getLsbD 11 = true := by
  intro s
  have hsize : 1 ≤ ([1, 2, 3, 4] : List Byte).length := by decide
  obtain ⟨-, hlen, hout, -, hbits⟩ := corrupt_window (by rfl) s hsize 0
  exact ⟨hlen, hout 1 (by decide), ((hbits (by decide)).2 11).trans (by decide)⟩

/-! ### Flips that change nothing -/

def drawnBits (s : CHAOSLSQFwd cfg) (size : Nat) : List Nat :=
  (chooseOffset s size).2.samples (8 * cfg.mask_width.toNat) cfg.num_bits_to_change.toNat

theorem getLsbD_random_mask (hmask : cfg.fault_mask = 0) (hwidth : 1 ≤ cfg.mask_width ∧ cfg.mask_width ≤ 8)
    (s : CHAOSLSQFwd cfg) (size j : Nat) :
    (chooseFault s size).mask.getLsbD j = true ↔ j ∈ drawnBits s size := by
  have hspan : (if 64 < cfg.mask_width * 8 then 64 else cfg.mask_width * 8).toNat = 8 * cfg.mask_width.toNat := by
    rw [if_neg (by omega)]
    omega
  have hdrawn : (chooseFault s size).mask = setAll 0#64 (drawnBits s size) := by
    show (chooseMask ({ s with rng := (chooseOffset s size).2 } : CHAOSLSQFwd cfg)).1 = _
    unfold chooseMask generateRandomMask
    rw [if_neg (not_not.2 hmask)]
    dsimp only
    rw [hspan]
    exact Rng.setBits_eq_setAll ..
  have hlt : ∀ b ∈ drawnBits s size, b < 64 := by
    intro b hb
    have := Rng.samples_lt (show 0 < 8 * cfg.mask_width.toNat by omega) b hb
    omega
  rw [hdrawn, ← mem_bitSet, bitSet_setAll _ hlt, bitSet_zero, Finset.empty_union, List.mem_toFinset]

theorem corrupt_numBitFlips (hstruct : cfg.structural_fault_enum = .None) (s : CHAOSLSQFwd cfg) {data : List Byte}
    (hsize : 1 ≤ data.length) (now : Nat) :
    (corrupt s data now).2.numBitFlips = s.numBitFlips +
      if (gate s now).1 = true ∧ (chooseFault (gate s now).2 data.length).ty = .BitFlip then 1 else 0 := by
  have hgate : (gate s now).2.numBitFlips = s.numBitFlips := by
    unfold gate
    split <;> rfl
  have hbits : ∀ t : CHAOSLSQFwd cfg, (corruptBits t data).2.numBitFlips =
      t.numBitFlips + if (chooseFault t data.length).ty = .BitFlip then 1 else 0 := by
    intro t
    have hcount : ∀ (u : CHAOSLSQFwd cfg) (ty : FaultType),
        (countInjected (countType u ty)).numBitFlips = u.numBitFlips + if ty = .BitFlip then 1 else 0 := by
      intro u ty
      cases ty <;> rfl
    exact hcount _ _
  rw [corrupt_eq hstruct s hsize]
  split
  · rename_i hpass
    rw [hbits, hgate]
    simp [hpass]
  · rename_i hpass
    simp [hpass, hgate]

theorem eq_of_window_eq {f : Fault} {data data' : List Byte} (hwidth : f.width ≤ 8) (hlen : data'.length = data.length)
    (hout : ∀ i, ¬(f.off ≤ i ∧ i < f.off + f.width) → data'[i]? = data[i]?) (hwin : window f data' = window f data) :
    data' = data := by
  refine List.ext_getElem? fun i => ?_
  by_cases hi : f.off ≤ i ∧ i < f.off + f.width
  · by_cases hlt : i < data.length
    · have hbyte : data'.getD i 0 = data.getD i 0 := by
        refine BitVec.eq_of_getLsbD_eq fun k hk => ?_
        have hbit := congrArg (BitVec.getLsbD · (8 * (i - f.off) + k)) hwin
        have hpos : 8 * (i - f.off) + k < 64 ∧ 8 * (i - f.off) + k < 8 * f.width := by omega
        have hdiv : f.off + (8 * (i - f.off) + k) / 8 = i := by omega
        have hmod : (8 * (i - f.off) + k) % 8 = k := by omega
        simpa only [window, getLsbD_littleEndian, decide_eq_true hpos, hdiv, hmod, Bool.true_and] using hbit
      rw [List.getD_eq_getElem?_getD, List.getD_eq_getElem?_getD, List.getElem?_eq_getElem (by omega),
        List.getElem?_eq_getElem hlt] at hbyte
      rw [List.getElem?_eq_getElem (by omega), List.getElem?_eq_getElem hlt]
      exact congrArg some hbyte
    · rw [List.getElem?_eq_none (by omega), List.getElem?_eq_none (by omega)]
  · exact hout i hi

/-- With a random mask, a counted flip changes the data exactly if one of the drawn bits lies in the window. -/
theorem counted_flip_changes_iff (hstruct : cfg.structural_fault_enum = .None) (hmask : cfg.fault_mask = 0)
    (hwidth : 1 ≤ cfg.mask_width ∧ cfg.mask_width ≤ 8) (s : CHAOSLSQFwd cfg) {data : List Byte}
    (hsize : 1 ≤ data.length) {now : Nat} (hcounted : (corrupt s data now).2.numBitFlips ≠ s.numBitFlips) :
    (corrupt s data now).1 ≠ data ↔
      ∃ b ∈ drawnBits (gate s now).2 data.length, b < 8 * (chooseFault (gate s now).2 data.length).width := by
  obtain ⟨hpass, hty⟩ : (gate s now).1 = true ∧ (chooseFault (gate s now).2 data.length).ty = .BitFlip := by
    by_contra hnot
    rw [corrupt_numBitFlips hstruct s hsize, if_neg hnot] at hcounted
    exact hcounted rfl
  obtain ⟨-, hwidth8, -⟩ := window_in_buffer (gate s now).2 hsize
  obtain ⟨hlen, hout, hbits⟩ := corruptBits_spec (gate s now).2 hsize
  have hdrawn := getLsbD_random_mask hmask hwidth (gate s now).2 data.length
  rw [corrupt_eq hstruct s hsize, if_pos hpass]
  rw [hty] at hbits
  generalize chooseFault (gate s now).2 data.length = f at *
  constructor
  · intro hne
    by_contra hnone
    refine hne (eq_of_window_eq hwidth8 hlen hout (BitVec.eq_of_getLsbD_eq fun j _ => ?_))
    rw [hbits, if_neg]
    rintro ⟨hj, hset⟩
    exact hnone ⟨j, (hdrawn j).1 hset, hj⟩
  · rintro ⟨b, hb, hlt⟩ heq
    have hflip := hbits b
    rw [heq, if_pos ⟨hlt, (hdrawn b).2 hb⟩] at hflip
    simp [FaultType.faultBit] at hflip

/-- A drawn bit in the window. -/
theorem counted_flip_changes_low_bit :
    (corrupt (init (flipping 8 0) fun _ => 3) [1, 2, 3, 4] 0).1 ≠ [1, 2, 3, 4] := by
  have hsize : 1 ≤ ([1, 2, 3, 4] : List Byte).length := by decide
  exact (counted_flip_changes_iff (by rfl) (by rfl) (by decide) (init (flipping 8 0) fun _ => 3) hsize (by decide)).2
    ⟨3, by decide, by decide⟩

/-- A mask of eight bytes for a load of four: the drawn bit 40 is cut off, and the flip is counted. -/
theorem counted_flip_outside_window :
    let s := init (flipping 8 0) fun _ => 40
    (corrupt s [1, 2, 3, 4] 0).1 = [1, 2, 3, 4] ∧ (corrupt s [1, 2, 3, 4] 0).2.numBitFlips = 1 ∧
    (corrupt s [1, 2, 3, 4] 0).2.numFaultsInjected = 1 := by
  decide

end CHAOSLSQFwd

end GemFI.Lsq
