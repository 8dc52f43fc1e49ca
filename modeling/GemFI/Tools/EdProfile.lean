import GemFI.Lib.Text
import GemFI.Tools.EdSelect
import Mathlib.Tactic.Linarith

/-!
# CPU profiles

The weight of a unit of a processor is its share of the bits of all structures; its `rho` is derived from the
protection of its structures, and its ceiling from a table, unless the profile says otherwise.  The fields of a
profile are those that these are made of.  The floating-point numbers of the tables are exact, and the share of the
combinational logic is exactly a third.
-/

namespace GemFI.Tools

open Text

inductive SizeField where
  | number (bytes : ℚ)
  | text (s : String)
  deriving DecidableEq

/-- `int` of a number: the fraction is cut off. -/
def truncate (q : ℚ) : Int := q.num.tdiv q.den

def SUFFIXES : List (String × Nat) :=
  [("KiB", 1024), ("MiB", 1024 ^ 2), ("GiB", 1024 ^ 3), ("KB", 1000), ("MB", 1000 ^ 2)]

/-- The bytes of a size; no result is a `ValueError`. -/
def parse_size : SizeField → Option Int
  | .number bytes => some (truncate bytes)
  | .text s =>
    let s := strip s.toList
    match SUFFIXES.find? fun e => e.1.toList.isSuffixOf s with
    | some e => (decimal? (strip (s.take (s.length - e.1.length)))).map fun q : ℚ => truncate (q * e.2)
    | none => (decimal? s).map truncate

abbrev Size := { s : SizeField // (parse_size s).isSome = true }

def Size.bytes (s : Size) : Int := (parse_size s.1).get s.2

def sizeBytes (s : Option Size) : Int := (s.map Size.bytes).getD 0

structure Ram where
  entries : Option Nat := none
  width : Option Nat := none

def Ram.bits (r : Ram) : Nat := r.entries.getD 0 * r.width.getD 64

structure FunctionalUnit where
  count : Option Nat := none
  width : Option Nat := none

/-- A width of 0 is like one that is not given. -/
def FunctionalUnit.gates (fu : FunctionalUnit) : Nat :=
  fu.count.getD 0 * ((fu.width.filter (· ≠ 0)).getD 128) * 64

structure CpuProfile where
  l1i_size : Option Size := none
  btb : Ram := {}
  ras : Ram := {}
  l1i_tlb : Option Nat := none
  rob : Option Nat := none
  prf_int : Ram := {}
  prf_float : Ram := {}
  prf_vec : Ram := {}
  issue_queues : Option Nat := none
  iex_fus : List FunctionalUnit := []
  fsu_fus : List FunctionalUnit := []
  l1d_size : Option Size := none
  lq : Option Nat := none
  sq : Option Nat := none
  l1d_tlb : Option Nat := none
  l2_tlb : Option Nat := none
  l2_size : Option Size := none
  l3_size : Option Size := none
  slc_size : Option Size := none
  /-- The protection of the structures of a unit that state one. -/
  prot : EdUnit → List String := fun _ => []
  l2_prot : Option String := none
  rho_overrides : EdUnit → Option ℚ := fun _ => none
  ceilings : EdUnit → Option ℚ := fun _ => none

namespace CpuProfile

def fu_bits (fus : List FunctionalUnit) : Int := ((fus.map FunctionalUnit.gates).sum / 3 : Nat)

def unit_bits (p : CpuProfile) : EdUnit → Int
  | .IFU => sizeBytes p.l1i_size + p.btb.bits + p.ras.bits + p.l1i_tlb.getD 0 * 64
  | .OoO => p.rob.getD 0 * 260 + p.prf_int.bits + p.prf_float.bits + p.prf_vec.bits + p.issue_queues.getD 0 * 200
  | .IEX => fu_bits p.iex_fus
  | .FSU => fu_bits p.fsu_fus
  | .LSU => sizeBytes p.l1d_size + p.lq.getD 0 * (64 + 64) + p.sq.getD 0 * (64 + 64) + p.l1d_tlb.getD 0 * 64
  | .MMU => p.l2_tlb.getD 0 * 64
  | .L2C => sizeBytes p.l2_size + sizeBytes p.l3_size + sizeBytes p.slc_size

def totalBits (p : CpuProfile) : Int := (UNITS.map p.unit_bits).sum

def weights (p : CpuProfile) (u : EdUnit) : ℚ := if p.totalBits = 0 then 0 else p.unit_bits u / p.totalBits

end CpuProfile

def DEFAULT_CEILINGS : EdUnit → ℚ
  | .IFU => 0
  | .MMU => 1 / 5
  | .OoO | .IEX | .LSU | .FSU | .L2C => 1

def DEFAULT_RHO : EdUnit → ℚ
  | .IFU => 0
  | .OoO => 1 / 20
  | .IEX => 1 / 20
  | .LSU => 1 / 20
  | .FSU => 1 / 100
  | .MMU => 0
  | .L2C => 45 / 100

def PROT_RHO : List (String × ℚ) :=
  [("none", 1), ("parity", 1 / 2), ("parity_interleaved", 1 / 2), ("sed", 1 / 2), ("secded", 0),
    ("ecc_claimed_no_evidence", 1 / 2)]

namespace CpuProfile

/-- The `rho` that follows from the protection.  In the second-level cache it is that of the tags. -/
def rho_from_protection (p : CpuProfile) (u : EdUnit) : ℚ :=
  if u = .L2C then
    let prot := ((p.l2_prot.filter (· ≠ "")).getD "none").toLower
    if "secded".toList <:+: prot.toList then DEFAULT_RHO .L2C else (PROT_RHO.lookup prot).getD 1 * (45 / 100)
  else
    match ((p.prot u).filterMap fun s => PROT_RHO.lookup s.toLower).max? with
    | some best => if best < 1 then best * DEFAULT_RHO u else DEFAULT_RHO u
    | none => DEFAULT_RHO u

def rho_initial (p : CpuProfile) (u : EdUnit) : ℚ := (p.rho_overrides u).getD (p.rho_from_protection u)

def ceiling (p : CpuProfile) (u : EdUnit) : ℚ := (p.ceilings u).getD (DEFAULT_CEILINGS u)

theorem weights_of_only {p : CpuProfile} {u : EdUnit} (hu : p.unit_bits u ≠ 0)
    (hother : ∀ v, v ≠ u → p.unit_bits v = 0) (v : EdUnit) : p.weights v = if v = u then 1 else 0 := by
  have htotal : p.totalBits = p.unit_bits u := by
    unfold totalBits
    cases u <;> simp [UNITS, hother]
  rw [weights, htotal, if_neg hu]
  by_cases hv : v = u
  · rw [if_pos hv, hv, div_self (by exact_mod_cast hu)]
  · rw [if_neg hv, hother v hv]
    simp

/-! ### Bytes and bits -/

def cacheBytes (p : CpuProfile) : EdUnit → Int
  | .IFU => sizeBytes p.l1i_size
  | .LSU => sizeBytes p.l1d_size
  | .L2C => sizeBytes p.l2_size + sizeBytes p.l3_size + sizeBytes p.slc_size
  | .OoO | .IEX | .FSU | .MMU => 0

def storageBits (p : CpuProfile) : EdUnit → Int
  | .IFU => 8 * sizeBytes p.l1i_size + p.btb.bits + p.ras.bits + p.l1i_tlb.getD 0 * 64
  | .LSU =>
    8 * sizeBytes p.l1d_size + p.lq.getD 0 * (64 + 64) + p.sq.getD 0 * (64 + 64) + p.l1d_tlb.getD 0 * 64
  | .L2C => 8 * sizeBytes p.l2_size + 8 * sizeBytes p.l3_size + 8 * sizeBytes p.slc_size
  | .OoO => p.unit_bits .OoO
  | .IEX => p.unit_bits .IEX
  | .FSU => p.unit_bits .FSU
  | .MMU => p.unit_bits .MMU

def totalCache (p : CpuProfile) : Int := (UNITS.map p.cacheBytes).sum

def totalStorage (p : CpuProfile) : Int := (UNITS.map p.storageBits).sum

def storageShare (p : CpuProfile) (u : EdUnit) : ℚ := p.storageBits u / p.totalStorage

theorem storageBits_eq (p : CpuProfile) (u : EdUnit) : p.storageBits u = p.unit_bits u + 7 * p.cacheBytes u := by
  cases u <;> simp only [storageBits, unit_bits, cacheBytes] <;> ring

theorem totalStorage_eq (p : CpuProfile) : p.totalStorage = p.totalBits + 7 * p.totalCache := by
  have hunits : p.storageBits = fun u => p.unit_bits u + 7 * p.cacheBytes u := funext p.storageBits_eq
  rw [totalStorage, hunits, List.sum_map_add, List.sum_map_mul_left]
  rfl

/-- The weights are the shares in the storage exactly if there is storage and each unit has the same part of the cache
bytes as of the bits that the profile counts. -/
theorem weights_eq_share_iff (p : CpuProfile) (h : p.totalBits ≠ 0) :
    (∀ u, p.weights u = p.storageShare u) ↔
      p.totalStorage ≠ 0 ∧ ∀ u, p.cacheBytes u * p.totalBits = p.unit_bits u * p.totalCache := by
  have hbits : (p.totalBits : ℚ) ≠ 0 := Int.cast_ne_zero.2 h
  by_cases hstorage : p.totalStorage = 0
  · -- all shares are 0, so the weights would be, and with them the bits
    refine iff_of_false (fun hall => h ?_) fun hne => hne.1 hstorage
    have hzero : p.unit_bits = fun _ => 0 := by
      funext u
      have hu := hall u
      rw [weights, if_neg h, storageShare, hstorage, Int.cast_zero, div_zero, div_eq_zero_iff] at hu
      exact_mod_cast hu.resolve_right hbits
    simp [totalBits, hzero]
  · rw [and_iff_right hstorage]
    refine forall_congr' fun u => ?_
    have hshare : p.weights u = p.storageShare u ↔
        p.unit_bits u * p.totalStorage = p.storageBits u * p.totalBits := by
      rw [weights, if_neg h, storageShare, div_eq_div_iff hbits (Int.cast_ne_zero.2 hstorage)]
      norm_cast
    rw [hshare, storageBits_eq, totalStorage_eq]
    constructor
    · intro heq
      linarith
    · intro heq
      linarith

/-- The weights of a profile without caches are the shares, here of a branch target buffer and a second-level TLB. -/
theorem weights_eq_share_btb :
    let p : CpuProfile := { btb := { entries := some 1, width := some 64 }, l2_tlb := some 1 }
    p.totalBits ≠ 0 ∧ ∀ u, p.weights u = p.storageShare u :=
  ⟨by decide +kernel, (weights_eq_share_iff _ (by decide +kernel)).2 (by decide +kernel)⟩

/-- A first-level cache of 8 bytes has as much storage as a buffer of one entry of 64 bits, but with it the weight of the
unit is 1/9 and not 1/2. -/
theorem cache_weight_in_bytes :
    let cache : CpuProfile := { l1i_size := some ⟨.number 8, rfl⟩, l2_tlb := some 1 }
    let buffer : CpuProfile := { btb := { entries := some 1, width := some 64 }, l2_tlb := some 1 }
    (∀ u, cache.storageBits u = buffer.storageBits u) ∧ cache.totalBits ≠ 0 ∧ cache.storageShare .IFU = 1 / 2 ∧
    cache.weights .IFU = 1 / 9 ∧ buffer.weights .IFU = 1 / 2 := by
  decide +kernel

end CpuProfile

end GemFI.Tools
