import GemFI.Lib.Bytes
import GemFI.Lib.Crc
import GemFI.Lib.Lists

/-!
# The signature of a wrapped sequence

A wrapped sequence ends with a hash of the final registers and a CRC of the memory region.  The multiplier of the hash
is odd, so no later round loses a difference; the polynomial of the CRC has its highest bit, so a difference inside 32
consecutive bits is not lost either.  The checker compares both of its two passes.  The machine is little-endian.
-/

namespace GemFI.Tools.HarpWrap

open Bytes Crc

/-! ### The epilogue -/

def regSum (g_reg : List (BitVec 64)) : BitVec 64 := g_reg.foldl (fun sum r => sum * 1315423911#64 + r) 0#64

def crcShift (crc : BitVec 32) : BitVec 32 := (crc >>> 1) ^^^ (0xEDB88320#32 &&& -(crc &&& 1#32))

def crcByte (crc : BitVec 32) (p : BitVec 8) : BitVec 32 := crcShift^[8] (crc ^^^ p.setWidth 32)

def crc32 (buf : List (BitVec 8)) : BitVec 32 := buf.foldl crcByte 0xFFFFFFFF#32 ^^^ 0xFFFFFFFF#32

def checkerCrc32 (buf : List (BitVec 8)) : BitVec 32 := ~~~(buf.foldl crcByte 0xFFFFFFFF#32)

def wordBytes (x : BitVec 64) : List (BitVec 8) := (List.range 8).map (byteOf x)

def memBytes (mem : List (BitVec 64)) : List (BitVec 8) := mem.flatMap wordBytes

/-- What the checker prints for the registers of its two passes and the bytes of its two regions. -/
def verdictOf (g_reg g_reg2 : List (BitVec 64)) (buf buf2 : List (BitVec 8)) : String :=
  if regSum g_reg ≠ regSum g_reg2 ∨ checkerCrc32 buf ≠ checkerCrc32 buf2 then "CHECKER=FAIL\n" else "CHECKER=OK\n"

def verdict (g_reg g_reg2 mem mem2 : List (BitVec 64)) : String :=
  verdictOf g_reg g_reg2 (memBytes mem) (memBytes mem2)

theorem verdictOf_ok_iff {g_reg g_reg2 : List (BitVec 64)} {buf buf2 : List (BitVec 8)} :
    verdictOf g_reg g_reg2 buf buf2 = "CHECKER=OK\n" ↔
      regSum g_reg = regSum g_reg2 ∧ checkerCrc32 buf = checkerCrc32 buf2 := by
  unfold verdictOf
  split
  · rename_i h
    exact iff_of_false (by decide) fun hok => h.elim (fun hsum => hsum hok.1) fun hcrc => hcrc hok.2
  · rename_i h
    exact iff_of_true rfl (by simpa only [not_or, not_not] using h)

/-! ### The hash of the registers -/

private theorem mul_multiplier_injective {a b : BitVec 64} (h : a * 1315423911#64 = b * 1315423911#64) : a = b := by
  have hinv : 1315423911#64 * 17277697729899102487#64 = 1#64 := by decide
  have hmul := congrArg (· * 17277697729899102487#64) h
  simpa only [BitVec.mul_assoc, hinv, BitVec.mul_one] using hmul

def DiffersInOne (g g' : List (BitVec 64)) : Prop := ∃ i : Nat, g[i]? ≠ g'[i]? ∧ ∀ j : Nat, j ≠ i → g[j]? = g'[j]?

theorem regSum_ne {g g' : List (BitVec 64)} (hlen : g.length = g'.length) (h : DiffersInOne g g') :
    regSum g ≠ regSum g' := by
  obtain ⟨i, hi, hrest⟩ := h
  have hacc : ∀ r : BitVec 64, Function.Injective fun sum => sum * 1315423911#64 + r := fun r a b h =>
    mul_multiplier_injective ((BitVec.add_left_inj _).1 h)
  exact foldl_ne_of_eq_off hacc (fun sum _ _ h => (BitVec.add_right_inj _).1 h) hlen hi hrest 0#64

/-! ### The CRC of the memory -/

theorem crcShift_eq (crc : BitVec 32) : crcShift crc = step 0xEDB88320#32 crc := by
  unfold crcShift step
  have hlow : crc &&& 1#32 = if crc.getLsbD 0 then 1#32 else 0#32 := by
    refine BitVec.eq_of_getLsbD_eq fun i _ => ?_
    rw [BitVec.getLsbD_and, BitVec.getLsbD_one]
    cases i with
    | zero => cases crc.getLsbD 0 <;> simp
    | succ i => split <;> simp
  rw [hlow]
  split
  · exact congrArg (crc >>> 1 ^^^ ·) (by decide)
  · exact congrArg (crc >>> 1 ^^^ ·) (by decide)

theorem crcByte_eq (crc : BitVec 32) (p : BitVec 8) : crcByte crc p = feedByte 0xEDB88320#32 crc p := by
  rw [crcByte, feedByte, funext crcShift_eq]

def crcBits (mem : List (BitVec 64)) : List Bool := (memBytes mem).flatMap byteBits

theorem foldl_crcByte (mem : List (BitVec 64)) (crc : BitVec 32) :
    (memBytes mem).foldl crcByte crc = run 0xEDB88320#32 crc (crcBits mem) := by
  rw [funext₂ crcByte_eq]
  exact foldl_feedByte (by decide) _ _ _

private theorem flatMap_injective {α β : Type} {f : α → List β} {n : Nat} (hlen : ∀ x, (f x).length = n)
    (hf : Function.Injective f) {l l' : List α} (hl : l.length = l'.length) (h : l.flatMap f = l'.flatMap f) :
    l = l' := by
  induction l generalizing l' with
  | nil =>
    cases l' with
    | nil => rfl
    | cons y l' => cases hl
  | cons x l ih =>
    cases l' with
    | nil => cases hl
    | cons y l' =>
      rw [List.flatMap_cons, List.flatMap_cons] at h
      obtain ⟨hxy, hrest⟩ := List.append_inj h (by rw [hlen, hlen])
      rw [hf hxy, ih (Nat.succ.inj hl) hrest]

private theorem byteBits_injective : Function.Injective byteBits := by
  intro a b h
  refine BitVec.eq_of_getLsbD_eq fun i hi => ?_
  have hbit := congrArg (·[i]?) h
  simpa [byteBits, hi] using hbit

private theorem wordBytes_injective : Function.Injective wordBytes := by
  intro a b h
  refine BitVec.eq_of_getLsbD_eq fun i hi => ?_
  have hbyte : byteOf a (i / 8) = byteOf b (i / 8) := by
    have hget := congrArg (·[i / 8]?) h
    have hi8 : i / 8 < 8 := by omega
    simpa [wordBytes, hi8] using hget
  have hbit := congrArg (fun x : BitVec 8 => x.getLsbD (i % 8)) hbyte
  have hmod : i % 8 < 8 := by omega
  have hsum : 8 * (i / 8) + i % 8 = i := by omega
  simpa [byteOf, hmod, hsum] using hbit

private theorem crcBits_injective {mem mem' : List (BitVec 64)} (hlen : mem.length = mem'.length)
    (h : crcBits mem = crcBits mem') : mem = mem' := by
  have hword : ∀ x, (wordBytes x).length = 8 := fun x => by simp [wordBytes]
  have hbytes : (memBytes mem).length = (memBytes mem').length := by
    simp [memBytes, List.length_flatMap, hword, hlen]
  have hbyte : ∀ b, (byteBits b).length = 8 := fun b => by simp [byteBits]
  exact flatMap_injective hword wordBytes_injective hlen (flatMap_injective hbyte byteBits_injective hbytes h)

private theorem crcBits_length (mem : List (BitVec 64)) : (crcBits mem).length = 64 * mem.length := by
  simp [crcBits, memBytes, wordBytes, byteBits, List.length_flatMap]
  omega

def DiffersInBurst (mem mem' : List (BitVec 64)) : Prop :=
  mem ≠ mem' ∧ ∃ lo, ∀ i : Nat, (crcBits mem)[i]? ≠ (crcBits mem')[i]? → lo ≤ i ∧ i < lo + 32

theorem foldl_crcByte_ne {mem mem' : List (BitVec 64)} (hlen : mem.length = mem'.length) (h : DiffersInBurst mem mem')
    (crc : BitVec 32) : (memBytes mem).foldl crcByte crc ≠ (memBytes mem').foldl crcByte crc := by
  obtain ⟨hne, lo, hburst⟩ := h
  intro heq
  rw [foldl_crcByte, foldl_crcByte] at heq
  have hbits := eq_of_run_eq (by decide) (by rw [crcBits_length, crcBits_length, hlen]) hburst heq
  exact hne (crcBits_injective hlen hbits)

/-- A difference in one register changes the hash, one inside 32 consecutive bits of the memory changes both CRCs, and the
checker reports a difference of either kind between its passes. -/
theorem signature_detects :
    (∀ g g' : List (BitVec 64), g.length = g'.length → DiffersInOne g g' → regSum g ≠ regSum g' ∧
      ∀ mem mem', verdict g g' mem mem' = "CHECKER=FAIL\n") ∧
    ∀ mem mem' : List (BitVec 64), mem.length = mem'.length → DiffersInBurst mem mem' →
      crc32 (memBytes mem) ≠ crc32 (memBytes mem') ∧
      checkerCrc32 (memBytes mem) ≠ checkerCrc32 (memBytes mem') ∧
      ∀ g g', verdict g g' mem mem' = "CHECKER=FAIL\n" := by
  refine ⟨fun g g' hlen h => ?_, fun mem mem' hlen h => ?_⟩
  · have hsum := regSum_ne hlen h
    exact ⟨hsum, fun mem mem' => if_pos (.inl hsum)⟩
  · have hcrc := foldl_crcByte_ne hlen h 0xFFFFFFFF#32
    have hchecker : checkerCrc32 (memBytes mem) ≠ checkerCrc32 (memBytes mem') := fun heq =>
      hcrc (BitVec.not_inj.1 heq)
    exact ⟨fun heq => hcrc ((BitVec.xor_left_inj _).1 heq), hchecker, fun g g' => if_pos (.inr hchecker)⟩

/-- A flip of the last bit of the second of two registers, and one of the first bit of a region of one word. -/
theorem signature_detects_flips :
    regSum [5, 6] ≠ regSum [5, 7] ∧ verdict [5, 6] [5, 7] [0] [0] = "CHECKER=FAIL\n" ∧
    crc32 (memBytes [0]) ≠ crc32 (memBytes [1]) ∧ verdict [5] [5] [0] [1] = "CHECKER=FAIL\n" := by
  have hone : DiffersInOne [5, 6] [5, 7] := by
    refine ⟨1, by decide, fun j hj => ?_⟩
    match j, hj with
    | 0, _ => rfl
    | j + 2, _ => rfl
  have hburst : DiffersInBurst [0] [1] := by
    refine ⟨by decide, 0, fun i hi => ?_⟩
    by_contra hout
    have hlow : ∀ i < 64, ¬(0 ≤ i ∧ i < 0 + 32) → (crcBits [0])[i]? = (crcBits [1])[i]? := by decide
    by_cases h64 : i < 64
    · exact hi (hlow i h64 hout)
    · exact hi (by rw [List.getElem?_eq_none (by rw [crcBits_length]; simpa using h64),
        List.getElem?_eq_none (by rw [crcBits_length]; simpa using h64)])
  have hreg := signature_detects.1 [5, 6] [5, 7] rfl hone
  have hmem := signature_detects.2 [0] [1] rfl hburst
  exact ⟨hreg.1, hreg.2 [0] [0], hmem.1, hmem.2.2 [5] [5]⟩

end GemFI.Tools.HarpWrap
