import Mathlib.Data.List.Basic
import Mathlib.Logic.Function.Iterate

/-!
# Checksums by polynomial division

The register of a reflected CRC is shifted down by one place for each bit; the bit that leaves it decides whether the
polynomial is added (`step`).  The bits of the message are added to the lowest place one by one (`feed`, `run`), or up
to `w` of them at once before the shifts (`run_eq_iterate`).

If the polynomial has its highest bit, no shift loses anything (`step_injective`), so two messages that differ inside
`w` consecutive bits only never have the same checksum (`eq_of_run_eq`).
-/

namespace GemFI.Crc

variable {w : Nat}

def step (poly s : BitVec w) : BitVec w := (s >>> 1) ^^^ if s.getLsbD 0 then poly else 0#w

def feed (poly s : BitVec w) (b : Bool) : BitVec w := step poly (s ^^^ (BitVec.ofBool b).setWidth w)

def run (poly s : BitVec w) (bits : List Bool) : BitVec w := bits.foldl (feed poly) s

def ofBits : List Bool → BitVec w
  | [] => 0#w
  | b :: bits => (BitVec.ofBool b).setWidth w ^^^ (ofBits bits <<< 1)

/-! ### Shifts -/

private theorem getLsbD_setWidth_ofBool (b : Bool) (i : Nat) :
    ((BitVec.ofBool b).setWidth w).getLsbD i = (decide (i < w) && (decide (i = 0) && b)) := by
  rw [BitVec.getLsbD_setWidth, BitVec.getLsbD_ofBool]

theorem getLsbD_ofBits (bits : List Bool) (i : Nat) :
    (ofBits bits : BitVec w).getLsbD i = (decide (i < w) && bits.getD i false) := by
  induction bits generalizing i with
  | nil => simp [ofBits]
  | cons b bits ih =>
    rw [ofBits, BitVec.getLsbD_xor, getLsbD_setWidth_ofBool, BitVec.getLsbD_shiftLeft, ih]
    cases i with
    | zero => simp
    | succ i =>
      by_cases hi : i + 1 < w
      · have hi' : i < w := by omega
        simp [hi, hi']
      · simp [hi]

theorem step_xor_shiftLeft (poly s x : BitVec w) (hx : x.getLsbD (w - 1) = false) :
    step poly (s ^^^ (x <<< 1)) = step poly s ^^^ x := by
  have hlow : (s ^^^ (x <<< 1)).getLsbD 0 = s.getLsbD 0 := by simp
  have hshift : (x <<< 1) >>> 1 = x := by
    refine BitVec.eq_of_getLsbD_eq fun i hi => ?_
    rw [BitVec.getLsbD_ushiftRight, BitVec.getLsbD_shiftLeft]
    by_cases hlast : i = w - 1
    · rw [hlast, hx]
      have hout : ¬1 + (w - 1) < w := by omega
      simp [hout]
    · have hin : 1 + i < w := by omega
      simp [hin]
  unfold step
  rw [hlow, BitVec.ushiftRight_xor_distrib, hshift, BitVec.xor_assoc, BitVec.xor_assoc, BitVec.xor_comm x]

theorem run_eq_iterate (poly s : BitVec w) {bits : List Bool} (hlen : bits.length ≤ w) :
    run poly s bits = (step poly)^[bits.length] (s ^^^ ofBits bits) := by
  induction bits generalizing s with
  | nil => simp [run, ofBits]
  | cons b bits ih =>
    rw [List.length_cons] at hlen
    have htop : (ofBits bits : BitVec w).getLsbD (w - 1) = false := by
      rw [getLsbD_ofBits, List.getD_eq_getElem?_getD, List.getElem?_eq_none (by omega)]
      simp
    have hrun : run poly s (b :: bits) = run poly (feed poly s b) bits := rfl
    rw [hrun, ih _ (by omega), feed, ← step_xor_shiftLeft _ _ _ htop, BitVec.xor_assoc, ← ofBits, List.length_cons,
      Function.iterate_succ_apply]

/-! ### Nothing is lost -/

variable {poly : BitVec w}

private theorem step_getLsbD_top (hpoly : poly.getLsbD (w - 1) = true) (s : BitVec w) :
    (step poly s).getLsbD (w - 1) = s.getLsbD 0 := by
  have hw : w - 1 < w := BitVec.lt_of_getLsbD hpoly
  have hout : s.getLsbD (1 + (w - 1)) = false := BitVec.getLsbD_of_ge _ _ (by omega)
  rw [step, BitVec.getLsbD_xor, BitVec.getLsbD_ushiftRight, hout]
  cases h : s.getLsbD 0 <;> simp [hpoly]

theorem step_injective (hpoly : poly.getLsbD (w - 1) = true) : Function.Injective (step poly) := by
  intro a b h
  have hlow : a.getLsbD 0 = b.getLsbD 0 := by
    rw [← step_getLsbD_top hpoly a, ← step_getLsbD_top hpoly b, h]
  have hhigh : a >>> 1 = b >>> 1 := by
    unfold step at h
    rw [hlow] at h
    exact (BitVec.xor_left_inj _).1 h
  refine BitVec.eq_of_getLsbD_eq fun i hi => ?_
  cases i with
  | zero => exact hlow
  | succ i =>
    have hbit := congrArg (fun x : BitVec w => x.getLsbD i) hhigh
    simpa [Nat.add_comm] using hbit

theorem run_injective (hpoly : poly.getLsbD (w - 1) = true) (bits : List Bool) :
    Function.Injective fun s => run poly s bits := by
  induction bits with
  | nil => exact fun a b h => h
  | cons b bits ih =>
    intro s t h
    have hstep := step_injective hpoly (ih h)
    exact (BitVec.xor_left_inj _).1 hstep

private theorem ofBits_injective {p q : List Bool} (hlen : p.length = q.length) (hw : p.length ≤ w)
    (h : (ofBits p : BitVec w) = ofBits q) : p = q := by
  refine List.ext_getElem hlen fun i hp hq => ?_
  have hbit : (ofBits p : BitVec w).getLsbD i = (ofBits q : BitVec w).getLsbD i := by rw [h]
  have hi : i < w := by omega
  rw [getLsbD_ofBits, getLsbD_ofBits] at hbit
  simpa [hi, List.getElem?_eq_getElem hp, List.getElem?_eq_getElem hq] using hbit

theorem eq_of_run_append_eq (hpoly : poly.getLsbD (w - 1) = true) (s : BitVec w) (pre post : List Bool)
    {p q : List Bool} (hlen : p.length = q.length) (hw : p.length ≤ w)
    (h : run poly s (pre ++ p ++ post) = run poly s (pre ++ q ++ post)) : p = q := by
  have hsplit : ∀ m, run poly s (pre ++ m ++ post) = run poly (run poly (run poly s pre) m) post := by
    intro m
    simp only [run, List.foldl_append]
  rw [hsplit, hsplit] at h
  have hmid := run_injective hpoly post h
  have hq : q.length ≤ w := hlen ▸ hw
  rw [run_eq_iterate _ _ hw, run_eq_iterate _ _ hq, hlen] at hmid
  have hword := (step_injective hpoly).iterate q.length hmid
  exact ofBits_injective hlen hw ((BitVec.xor_right_inj _).1 hword)

theorem eq_of_run_eq (hpoly : poly.getLsbD (w - 1) = true) {s : BitVec w} {p q : List Bool}
    (hlen : p.length = q.length) {lo : Nat} (hburst : ∀ i, p[i]? ≠ q[i]? → lo ≤ i ∧ i < lo + w)
    (h : run poly s p = run poly s q) : p = q := by
  have hpre : p.take lo = q.take lo := by
    refine List.ext_getElem? fun i => ?_
    by_cases hi : i < lo
    · rw [List.getElem?_take_of_lt hi, List.getElem?_take_of_lt hi]
      by_contra hne
      exact absurd (hburst i hne).1 (by omega)
    · rw [List.getElem?_eq_none (by simp; omega), List.getElem?_eq_none (by simp; omega)]
  have hpost : p.drop (lo + w) = q.drop (lo + w) := by
    refine List.ext_getElem? fun i => ?_
    rw [List.getElem?_drop, List.getElem?_drop]
    by_contra hne
    exact absurd (hburst _ hne).2 (by omega)
  have hsplit : ∀ m : List Bool, m = m.take lo ++ (m.drop lo).take w ++ m.drop (lo + w) := by
    intro m
    rw [List.append_assoc, ← List.drop_drop, List.take_append_drop, List.take_append_drop]
  have hmid : (p.drop lo).take w = (q.drop lo).take w := by
    refine eq_of_run_append_eq hpoly s (q.take lo) (q.drop (lo + w)) (by simp [hlen]) (List.length_take_le _ _) ?_
    rw [← hsplit q, ← h]
    conv_rhs => rw [hsplit p, hpre, hpost]
  rw [hsplit p, hpre, hmid, hpost, ← hsplit q]

/-! ### Bytes -/

def byteBits (b : BitVec 8) : List Bool := (List.range 8).map b.getLsbD

def feedByte (poly s : BitVec w) (b : BitVec 8) : BitVec w := (step poly)^[8] (s ^^^ b.setWidth w)

theorem feedByte_eq_run (hw : 8 ≤ w) (poly s : BitVec w) (b : BitVec 8) :
    feedByte poly s b = run poly s (byteBits b) := by
  have hlen : (byteBits b).length = 8 := by simp [byteBits]
  have hword : (ofBits (byteBits b) : BitVec w) = b.setWidth w := by
    refine BitVec.eq_of_getLsbD_eq fun i hi => ?_
    rw [getLsbD_ofBits, BitVec.getLsbD_setWidth]
    by_cases h8 : i < 8
    · simp [byteBits, h8]
    · rw [BitVec.getLsbD_of_ge _ _ (by omega), List.getD_eq_getElem?_getD, List.getElem?_eq_none (by omega)]
      rfl
  rw [run_eq_iterate _ _ (hlen ▸ hw), hlen, hword]
  rfl

theorem foldl_feedByte (hw : 8 ≤ w) (poly s : BitVec w) (bytes : List (BitVec 8)) :
    bytes.foldl (feedByte poly) s = run poly s (bytes.flatMap byteBits) := by
  induction bytes generalizing s with
  | nil => rfl
  | cons b bytes ih =>
    rw [List.foldl_cons, ih, feedByte_eq_run hw, List.flatMap_cons, run, run, run, List.foldl_append]

end GemFI.Crc
