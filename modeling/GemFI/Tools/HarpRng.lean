import GemFI.Lib.BitLinear
import GemFI.Tools.HarpChecker
import Mathlib.Data.Finite.Prod
import Mathlib.Data.List.Iterate
import Mathlib.Dynamics.PeriodicPts.Lemmas

/-!
# The generator of the wrapper

The registers and the memory of a wrapped sequence are filled by `xs64`, whose state is a pair of words.  The update
of the state is a bijection and linear over the bits, so every seed comes back and a seed other than zero never
becomes zero (`xs64_update`).

The value that is returned is twice a word of the state, since `xs1` has been set already when it is added to `s2`, so
its lowest bit is 0.  The update has a fixed point, and the pattern of bits that are 0 in it is 0 in every value.
Every seed brings a value with the bit set for seven of the positions, and for each other position there is a seed
that never does (`live_bit_iff`).
-/

namespace GemFI.Tools.HarpWrap

open BitLinear

/-! ### The update of the state -/

theorem nextXs_injective : Function.Injective nextXs := by
  rintro ⟨a1, a2⟩ ⟨b1, b2⟩ h
  obtain ⟨hs2, hxs2⟩ := Xs.mk.inj h
  have h2 : a2 = b2 := xor_shiftLeft_injective (by decide : 0 < 23) hs2
  subst h2
  have h1 : a1 = b1 := xor_shiftRight_injective (by decide : 0 < 17) ((BitVec.xor_left_inj _).1 hxs2)
  rw [h1]

instance : Finite Xs :=
  Finite.of_injective (fun r : Xs => (r.xs1.toFin, r.xs2.toFin)) fun a b h => by
    obtain ⟨h1, h2⟩ := Prod.mk.inj h
    cases a
    cases b
    exact congrArg₂ Xs.mk (BitVec.toFin_inj.1 h1) (BitVec.toFin_inj.1 h2)

theorem nextXs_eq_zero_iff (r : Xs) : nextXs r = ⟨0, 0⟩ ↔ r = ⟨0, 0⟩ := by
  have hzero : nextXs ⟨0, 0⟩ = ⟨0, 0⟩ := by decide
  constructor
  · intro h
    exact nextXs_injective (h.trans hzero.symm)
  · rintro rfl
    exact hzero

theorem iterate_nextXs_ne_zero {r : Xs} (hr : r ≠ ⟨0, 0⟩) (n : Nat) : nextXs^[n] r ≠ ⟨0, 0⟩ := by
  induction n with
  | zero => exact hr
  | succ n ih =>
    rw [Function.iterate_succ_apply']
    exact fun h => ih ((nextXs_eq_zero_iff _).1 h)

/-- The update is a bijection that maps only zero to zero; every other seed never becomes zero, and comes back. -/
theorem xs64_update :
    Function.Bijective nextXs ∧ (∀ r, nextXs r = ⟨0, 0⟩ ↔ r = ⟨0, 0⟩) ∧
    ∀ r, r ≠ ⟨0, 0⟩ → (∀ n, nextXs^[n] r ≠ ⟨0, 0⟩) ∧ ∃ n, 0 < n ∧ nextXs^[n] r = r := by
  refine ⟨Finite.injective_iff_bijective.1 nextXs_injective, nextXs_eq_zero_iff, fun r hr => ?_⟩
  obtain ⟨n, hpos, hperiod⟩ := Function.mem_periodicPts.1 (nextXs_injective.mem_periodicPts r)
  exact ⟨iterate_nextXs_ne_zero hr, n, hpos, hperiod⟩

def defaultSeeds : Xs := ⟨0x9510D3BF1AA8D548, 0xA5C11881A68E546E⟩

theorem xs64_update_default :
    (∀ n, nextXs^[n] defaultSeeds ≠ ⟨0, 0⟩) ∧ ∃ n, 0 < n ∧ nextXs^[n] defaultSeeds = defaultSeeds :=
  xs64_update.2.2 defaultSeeds (by decide)

/-! ### Masks -/

def parity (m r : Xs) : ZMod 2 := dot m.xs1 r.xs1 + dot m.xs2 r.xs2

/-- The mask that sees before an update what `m` sees behind it. -/
def adjoint (m : Xs) : Xs :=
  let y := m.xs1 ^^^ (m.xs2 <<< 26)
  ⟨m.xs2 ^^^ (m.xs2 <<< 17), y ^^^ (y >>> 23)⟩

theorem parity_adjoint (m r : Xs) : parity (adjoint m) r = parity m (nextXs r) := by
  obtain ⟨u, v⟩ := m
  obtain ⟨x1, x2⟩ := r
  simp only [parity, adjoint, nextXs, xs64]
  rw [dot_xor_left (u ^^^ _), ← dot_shiftLeft, ← dot_xor_right, dot_xor_left u, ← dot_shiftRight, dot_xor_left v,
    ← dot_shiftRight, dot_xor_right v, dot_xor_right v x1]
  exact add_left_comm ..

def number (m : Xs) : Nat := 2 ^ 64 * m.xs2.toNat + m.xs1.toNat

def mask (n : Nat) : Xs := ⟨BitVec.ofNat 64 n, BitVec.ofNat 64 (n / 2 ^ 64)⟩

theorem mask_number (m : Xs) : mask (number m) = m := by
  have h1 := m.xs1.isLt
  have h2 := m.xs2.isLt
  have hlow : BitVec.ofNat 64 (number m) = m.xs1 := by
    refine BitVec.eq_of_toNat_eq ?_
    rw [BitVec.toNat_ofNat, number, Nat.mul_add_mod, Nat.mod_eq_of_lt h1]
  have hhigh : BitVec.ofNat 64 (number m / 2 ^ 64) = m.xs2 := by
    refine BitVec.eq_of_toNat_eq ?_
    rw [BitVec.toNat_ofNat, number, Nat.mul_add_div (by decide), Nat.div_eq_of_lt h1, Nat.add_zero, Nat.mod_eq_of_lt h2]
  rw [mask, hlow, hhigh]

theorem number_lt (m : Xs) : number m < 2 ^ 128 := by
  have h1 := m.xs1.isLt
  have h2 := m.xs2.isLt
  unfold number
  omega

theorem parity_mask_xor (a b : Nat) (r : Xs) : parity (mask (a ^^^ b)) r = parity (mask a) r + parity (mask b) r := by
  simp only [parity, mask, Nat.xor_div_two_pow, BitVec.ofNat_xor, dot_xor_left]
  exact add_add_add_comm ..

theorem parity_mask_zero (r : Xs) : parity (mask 0) r = 0 := by
  have hzero : mask 0 = ⟨0#64, 0#64⟩ := rfl
  rw [hzero, parity, dot_zero_left, dot_zero_left, add_zero]

private theorem ofNat_two_pow (i : Nat) : BitVec.ofNat 64 (2 ^ i) = BitVec.twoPow 64 i := by
  refine BitVec.eq_of_toNat_eq ?_
  rw [BitVec.toNat_ofNat, BitVec.toNat_twoPow]

theorem parity_mask_low {i : Nat} (hi : i < 64) (r : Xs) : parity (mask (2 ^ i)) r = bit (r.xs1.getLsbD i) := by
  have hhigh : 2 ^ i / 2 ^ 64 = 0 := Nat.div_eq_of_lt (Nat.pow_lt_pow_right (by decide) hi)
  rw [mask, parity, ofNat_two_pow, hhigh, dot_twoPow hi, dot_zero_left, add_zero]

theorem parity_mask_high {i : Nat} (hi : i < 64) (r : Xs) : parity (mask (2 ^ (64 + i))) r = bit (r.xs2.getLsbD i) := by
  have hlow : BitVec.ofNat 64 (2 ^ (64 + i)) = 0#64 := by
    refine BitVec.eq_of_toNat_eq ?_
    rw [BitVec.toNat_ofNat, Nat.pow_add, Nat.mul_mod_right]
    rfl
  have hhigh : 2 ^ (64 + i) / 2 ^ 64 = 2 ^ i := by
    rw [Nat.pow_add, Nat.mul_div_cancel_left _ (by decide)]
  rw [mask, parity, hlow, hhigh, ofNat_two_pow, dot_twoPow hi, dot_zero_left, zero_add]

/-! ### Bits that tell states apart -/

/-- What the bit `j` of `xs1` shows behind the first 128 updates, as masks for the state before them. -/
def probes (j : Nat) : List Nat := (List.iterate adjoint ⟨BitVec.twoPow 64 j, 0⟩ 128).map number

def telling : List Nat := [4, 13, 18, 27, 36, 49, 53]

theorem eliminate_probes : ∀ j ∈ telling, eliminate 128 (probes j) = (List.range 128).map (2 ^ ·) := by
  decide +kernel

theorem probes_silent {j : Nat} {r : Xs} (h : Silent parity nextXs r ⟨BitVec.twoPow 64 j, 0⟩) :
    ∀ n ∈ probes j, Silent parity nextXs r (mask n) := by
  have hiter : ∀ k, Silent parity nextXs r (adjoint^[k] ⟨BitVec.twoPow 64 j, 0⟩) := by
    intro k
    induction k with
    | zero => exact h
    | succ k ih =>
      rw [Function.iterate_succ_apply']
      exact ih.adjoint parity_adjoint
  intro n hn
  obtain ⟨m, hm, rfl⟩ := List.mem_map.1 hn
  obtain ⟨k, -, rfl⟩ := List.mem_iterate.1 hm
  rw [mask_number]
  exact hiter k

theorem eq_zero_of_silent {j : Nat} (hj : j ∈ telling) {r : Xs}
    (h : Silent parity nextXs r ⟨BitVec.twoPow 64 j, 0⟩) : r = ⟨0, 0⟩ := by
  have hlt : ∀ n ∈ probes j, n < 2 ^ 128 := by
    intro n hn
    obtain ⟨m, -, rfl⟩ := List.mem_map.1 hn
    exact number_lt m
  have hzero : Silent parity nextXs r (mask 0) := fun n => parity_mask_zero _
  have hxor : ∀ a b, Silent parity nextXs r (mask a) → Silent parity nextXs r (mask b) →
      Silent parity nextXs r (mask (a ^^^ b)) := by
    intro a b ha hb n
    rw [parity_mask_xor, ha n, hb n, add_zero]
  have hpivots := eliminate_forall (by decide) hzero hxor hlt (probes_silent h)
  rw [eliminate_probes j hj] at hpivots
  have hbit : ∀ i < 128, parity (mask (2 ^ i)) r = 0 := fun i hi =>
    hpivots _ (List.mem_map.2 ⟨i, List.mem_range.2 hi, rfl⟩) 0
  have h1 : r.xs1 = 0#64 := by
    refine BitVec.eq_of_getLsbD_eq fun i hi => ?_
    have hi' := hbit i (by omega)
    rw [parity_mask_low hi, bit_eq_zero] at hi'
    rw [hi', BitVec.getLsbD_zero]
  have h2 : r.xs2 = 0#64 := by
    refine BitVec.eq_of_getLsbD_eq fun i hi => ?_
    have hi' := hbit (64 + i) (by omega)
    rw [parity_mask_high hi, bit_eq_zero] at hi'
    rw [hi', BitVec.getLsbD_zero]
  cases r
  exact congrArg₂ Xs.mk h1 h2

/-! ### The values -/

theorem output_getLsbD (r : Xs) (n b : Nat) :
    (output r n).getLsbD b = (decide (0 < b) && decide (b < 64) && (nextXs^[n + 1] r).xs1.getLsbD (b - 1)) := by
  have hdouble : ∀ x : BitVec 64, x + x = x <<< 1 := by
    intro x
    refine BitVec.eq_of_toNat_eq ?_
    rw [BitVec.toNat_add, BitVec.toNat_shiftLeft, Nat.shiftLeft_eq]
    omega
  have hvalue : output r n = (nextXs^[n + 1] r).xs1 + (nextXs^[n + 1] r).xs1 := by
    rw [Function.iterate_succ_apply']
    rfl
  rw [hvalue, hdouble, BitVec.getLsbD_shiftLeft]
  by_cases hb : 0 < b
  · have hge : ¬b < 1 := by omega
    simp [hb, hge]
  · have hlt : b < 1 := by omega
    simp [hb, hlt]

theorem initial_even (p : CheckerParams) (v : Fin 8 → BitVec 128) :
    (∀ i, ((initial p v).g_reg i).getLsbD 0 = false) ∧
    ∀ k : Fin p.size, k.val % 8 = 0 → ((initial p v).mem k).getLsbD 0 = false := by
  have heven : ∀ n, (output p.seeds n).getLsbD 0 = false := fun n => by
    rw [output_getLsbD]
    rfl
  refine ⟨fun i => heven i, fun k hk => ?_⟩
  show (Bytes.byteOf (output p.seeds (NREGS + k / 8)) (k % 8)).getLsbD 0 = false
  rw [hk, Bytes.getLsbD_byteOf]
  exact heven _

def liveBits : List Nat := [5, 14, 19, 28, 37, 50, 54]

theorem live_of_mem {b : Nat} (hb : b ∈ liveBits) {r : Xs} (hr : r ≠ ⟨0, 0⟩) :
    ∃ n, (output r n).getLsbD b = true := by
  have hbit : 0 < b ∧ b < 64 ∧ b - 1 ∈ telling := by
    revert b
    decide
  by_contra hnone
  have hsilent : Silent parity nextXs (nextXs r) ⟨BitVec.twoPow 64 (b - 1), 0⟩ := by
    intro n
    have hfalse : (output r n).getLsbD b = false := by
      rw [← Bool.not_eq_true]
      exact fun h => hnone ⟨n, h⟩
    rw [output_getLsbD, decide_eq_true hbit.1, decide_eq_true hbit.2.1, Bool.true_and, Bool.true_and,
      Function.iterate_succ_apply] at hfalse
    rw [parity, dot_twoPow (by omega), hfalse]
    show bit false + dot 0#64 _ = 0
    rw [dot_zero_left, add_zero]
    rfl
  exact hr ((nextXs_eq_zero_iff r).1 (eq_zero_of_silent hbit.2.2 hsilent))

/-- A seed whose values never have the bit `b`, and the length of its orbit. -/
def quietSeed (b : Nat) : Xs × Nat :=
  if b = 1 ∨ b = 46 ∨ b = 55 then (⟨0xbf2b0792fcc82972, 0xd8f02f813b6d300⟩, 7)
  else if b = 59 then (⟨0xba133b05e78069e7, 0x208c47a5358464⟩, 341)
  else (⟨0x8462201008042011, 0x8462620000842011⟩, 1)

private theorem quietSeed_orbit : ∀ b < 64, b ∉ liveBits →
    (quietSeed b).1 ≠ ⟨0, 0⟩ ∧ nextXs^[(quietSeed b).2] (quietSeed b).1 = (quietSeed b).1 ∧ 0 < (quietSeed b).2 ∧
    ((List.iterate nextXs (nextXs (quietSeed b).1) (quietSeed b).2).all fun s =>
      !(decide (0 < b) && s.xs1.getLsbD (b - 1))) = true := by
  decide +kernel

theorem quiet_of_not_mem {b : Nat} (hb : b ∉ liveBits) :
    ∃ r : Xs, r ≠ ⟨0, 0⟩ ∧ ∀ n, (output r n).getLsbD b = false := by
  by_cases h64 : b < 64
  · obtain ⟨hne, hperiod, hpos, hquiet⟩ := quietSeed_orbit b h64 hb
    refine ⟨_, hne, fun n => ?_⟩
    -- the state is one of those on the orbit
    have hmod : nextXs^[n % (quietSeed b).2] (quietSeed b).1 = nextXs^[n] (quietSeed b).1 :=
      Function.IsPeriodicPt.iterate_mod_apply hperiod n
    have hmem : nextXs^[n + 1] (quietSeed b).1 ∈
        List.iterate nextXs (nextXs (quietSeed b).1) (quietSeed b).2 := by
      refine List.mem_iterate.2 ⟨n % (quietSeed b).2, Nat.mod_lt _ hpos, ?_⟩
      rw [Function.iterate_succ_apply', ← hmod, ← Function.iterate_succ_apply' nextXs, Function.iterate_succ_apply]
    have hbit := List.all_eq_true.1 hquiet _ hmem
    rw [output_getLsbD, decide_eq_true h64, Bool.and_true]
    simpa only [Bool.not_eq_true'] using hbit
  · refine ⟨⟨1, 1⟩, by decide, fun n => ?_⟩
    rw [output_getLsbD, decide_eq_false h64]
    simp

/-- Every seed other than zero brings a value with the bit `b`, for exactly seven positions `b`. -/
theorem live_bit_iff (b : Nat) :
    (∀ r : Xs, r ≠ ⟨0, 0⟩ → ∃ n, (output r n).getLsbD b = true) ↔ b ∈ liveBits := by
  refine ⟨fun h => ?_, fun hb r hr => live_of_mem hb hr⟩
  by_contra hb
  obtain ⟨r, hr, hquiet⟩ := quiet_of_not_mem hb
  obtain ⟨n, hn⟩ := h r hr
  rw [hquiet n] at hn
  cases hn

theorem live_bit_five : ∃ n, (output defaultSeeds n).getLsbD 5 = true :=
  (live_bit_iff 5).2 (by decide) defaultSeeds (by decide)

/-- With the seeds of the command line no value has the bit 0.  The second seeds are a fixed point, so that every register
and every word of the memory gets the same value, in which 53 bits are 0. -/
theorem stuck_bits :
    (∀ n, (output defaultSeeds n).getLsbD 0 = false) ∧
    ∀ n, output ⟨0x8462201008042011, 0x8462620000842011⟩ n = 0x08c4402010084022 := by
  refine ⟨fun n => ?_, fun n => ?_⟩
  · rw [output_getLsbD]
    rfl
  · have hfix : nextXs ⟨0x8462201008042011, 0x8462620000842011⟩ = ⟨0x8462201008042011, 0x8462620000842011⟩ := by decide
    rw [output, Function.iterate_fixed hfix]
    decide

end GemFI.Tools.HarpWrap
