import GemFI.Lib.BitSet
import GemFI.Lib.Force
import Mathlib.Algebra.Order.Ring.Nat
import Mathlib.Data.List.AList

/-!
# Faults of a byte

What the memory and the cache injector have in common: the random draws and the masks and distances made from them, the
fault types with what they do to a byte, and the table of stuck-at faults, which keeps one record for each location.
-/

namespace GemFI.Mem

/-! ### Draws -/

/-- The engine: its draws and how many have been used.  A distribution turns one draw into one sample. -/
structure Rng where
  draw : Nat → Nat
  drawn : Nat := 0

namespace Rng

def next (rng : Rng) : Nat × Rng := (rng.draw rng.drawn, { rng with drawn := rng.drawn + 1 })

/-- A sample of `uniform_int_distribution(0, n - 1)`. -/
def below (rng : Rng) (n : Nat) : Nat × Rng := (rng.next.1 % n, rng.next.2)

def samples (size : Nat) : Nat → Rng → List Nat
  | 0, _ => []
  | n + 1, rng => (rng.below size).1 :: samples size n (rng.below size).2

theorem samples_length (size n : Nat) (rng : Rng) : (rng.samples size n).length = n := by
  induction n generalizing rng with
  | zero => rfl
  | succ n ih => rw [samples, List.length_cons, ih]

theorem samples_lt {size : Nat} (hsize : 0 < size) {n : Nat} {rng : Rng} : ∀ b ∈ rng.samples size n, b < size := by
  induction n generalizing rng with
  | zero => simp [samples]
  | succ n ih =>
    rw [samples, List.forall_mem_cons]
    exact ⟨Nat.mod_lt _ hsize, ih⟩

/-- The loop of the functions `generateRandomMask`: each round sets a random bit of the first `size`. -/
def setBits {w : Nat} (size : Nat) : Nat → Rng → BitVec w → BitVec w × Rng
  | 0, rng, mask => (mask, rng)
  | n + 1, rng, mask => setBits size n (rng.below size).2 (mask ||| (1#w <<< (rng.below size).1))

theorem setBits_eq_setAll {w : Nat} (size n : Nat) (rng : Rng) (mask : BitVec w) :
    (setBits size n rng mask).1 = setAll mask (rng.samples size n) := by
  induction n generalizing rng mask with
  | zero => rfl
  | succ n ih => exact ih _ _

/-- `generateRandomMask`; no round is made for a negative number of bits. -/
def generateRandomMask (rng : Rng) (bits_to_change : Int) (size : Nat) : BitVec 8 × Rng :=
  setBits size bits_to_change.toNat rng 0#8

theorem generateRandomMask_eq_zero_iff (rng : Rng) (bits : Int) :
    (rng.generateRandomMask bits 8).1 = 0#8 ↔ bits ≤ 0 := by
  have hlen := samples_length 8 bits.toNat rng
  rw [generateRandomMask, setBits_eq_setAll, ← ones_eq_zero_iff, ones_setAll (samples_lt (by decide)),
    Finset.card_eq_zero, List.toFinset_eq_empty_iff, ← List.length_eq_zero_iff, hlen]
  omega

end Rng

theorem gate_outcomes {σ : Type} (p q : Prop) [Decidable p] [Decidable q] (s s' : σ) :
    (if p then (decide q, s') else (false, s)) = (false, s) ∨
    (if p then (decide q, s') else (false, s)) = (false, s') ∨
    p ∧ (if p then (decide q, s') else (false, s)) = (true, s') := by
  by_cases hp : p
  · rw [if_pos hp]
    by_cases hq : q
    · exact .inr (.inr ⟨hp, by rw [decide_eq_true hq]⟩)
    · exact .inr (.inl (by rw [decide_eq_false hq]))
  · exact .inl (if_neg hp)

/-- The ticks from one attack to the next: the drawn number of cycles, but at least one, times the ratio.  The operands
are an `unsigned` and an `int`, so the product wraps at 32 bits. -/
def nextDistance (dist_cycles tick_to_clock_ratio : BitVec 32) : Nat :=
  ((if dist_cycles < 1 then 1 else dist_cycles) * tick_to_clock_ratio).toNat

theorem eq_some_iff_isSome {event : Option Nat} {x : Nat} (h : ∀ u, event = some u → u = x) (t : Nat) :
    event = some t ↔ event.isSome ∧ t = x := by
  constructor
  · intro ht
    exact ⟨by rw [ht]; rfl, h t ht⟩
  · rintro ⟨hsome, rfl⟩
    obtain ⟨u, hu⟩ := Option.isSome_iff_exists.1 hsome
    rw [hu, h u hu]

/-! ### Fault types -/

inductive FaultType where
  | BitFlip | StuckAtZero | StuckAtOne | Random
  deriving DecidableEq, Repr

/-- `static_cast<FaultType>` of a sample of the three weights. -/
def FaultType.ofIndex : Fin 3 → FaultType
  | 0 => .BitFlip
  | 1 => .StuckAtZero
  | 2 => .StuckAtOne

def firstType : Nat → Fin 3 := fun _ => 0

/-- The type of a fault: the configured one, or a random one of the three. -/
def FaultType.choose (configured : FaultType) (random_fault_distribution : Nat → Fin 3) (rng : Rng) : FaultType × Rng :=
  if configured = .Random then (.ofIndex (random_fault_distribution rng.next.1), rng.next.2) else (configured, rng)

def FaultType.force (mask : BitVec 8) : FaultType → Option (Force 8)
  | .StuckAtZero => some ⟨mask, false⟩
  | .StuckAtOne => some ⟨mask, true⟩
  | _ => none

def FaultType.corrupt (ty : FaultType) (mask data : BitVec 8) : BitVec 8 :=
  match ty with
  | .StuckAtZero => data &&& ~~~mask
  | .StuckAtOne => data ||| mask
  | .BitFlip => data ^^^ mask
  | .Random => data

def FaultType.faultBit (ty : FaultType) (bit : Bool) : Bool :=
  match ty with
  | .StuckAtZero => false
  | .StuckAtOne => true
  | .BitFlip => !bit
  | .Random => bit

theorem getLsbD_corrupt (ty : FaultType) (mask data : BitVec 8) {j : Nat} (hj : j < 8) :
    (ty.corrupt mask data).getLsbD j =
      if mask.getLsbD j then ty.faultBit (data.getLsbD j) else data.getLsbD j := by
  cases ty <;>
    simp only [FaultType.corrupt, FaultType.faultBit, BitVec.getLsbD_xor, BitVec.getLsbD_and, BitVec.getLsbD_or,
      BitVec.getLsbD_not, hj] <;>
    cases mask.getLsbD j <;> simp

structure PermanentFault where
  fault_type : FaultType
  mask : BitVec 8
  update : Bool
  deriving DecidableEq, Repr

/-- The byte after `checkPermanent` has applied the record to it. -/
def PermanentFault.reapply (fault : PermanentFault) (data : BitVec 8) : BitVec 8 :=
  match fault.fault_type with
  | .StuckAtZero => data &&& ~~~fault.mask
  | .StuckAtOne => data ||| fault.mask
  | _ => data

/-- What a check does to the byte of a record: records that are not to be updated are skipped. -/
def PermanentFault.check (fault : PermanentFault) (data : BitVec 8) : BitVec 8 :=
  if fault.update then fault.reapply data else data

def record {κ : Type} [DecidableEq κ] (faults : AList fun _ : κ => PermanentFault) (key : κ) (ty : FaultType)
    (mask : BitVec 8) : AList fun _ : κ => PermanentFault :=
  match ty with
  | .StuckAtZero | .StuckAtOne => faults.insert key ⟨ty, mask, true⟩
  | _ => faults

theorem reapply_eq {ty : FaultType} {mask : BitVec 8} {f : Force 8} (h : ty.force mask = some f) (b : Bool)
    (data : BitVec 8) : (PermanentFault.mk ty mask b).reapply data = f.apply data := by
  cases ty <;> simp only [FaultType.force, Option.some.injEq, reduceCtorEq] at h <;> subst h <;> rfl

theorem force_eq_none_iff {ty : FaultType} {mask : BitVec 8} :
    ty.force mask = none ↔ ty ≠ .StuckAtZero ∧ ty ≠ .StuckAtOne := by
  cases ty <;> simp [FaultType.force]

theorem lookup_record {κ : Type} [DecidableEq κ] (faults : AList fun _ : κ => PermanentFault) (key k : κ)
    (ty : FaultType) (mask : BitVec 8) :
    (record faults key ty mask).lookup k =
      if k = key ∧ (ty.force mask).isSome then some ⟨ty, mask, true⟩ else faults.lookup k := by
  have hins : ∀ f : PermanentFault, (faults.insert key f).lookup k = if k = key then some f else faults.lookup k := by
    intro f
    by_cases hk : k = key
    · rw [hk, AList.lookup_insert, if_pos rfl]
    · rw [AList.lookup_insert_ne hk, if_neg hk]
  cases ty <;> simp [record, FaultType.force, hins]

def Updating {κ : Type} [DecidableEq κ] (faults : AList fun _ : κ => PermanentFault) : Prop :=
  ∀ key fault, faults.lookup key = some fault → fault.update = true

theorem Updating.record {κ : Type} [DecidableEq κ] {faults : AList fun _ : κ => PermanentFault} (h : Updating faults)
    (key : κ) (ty : FaultType) (mask : BitVec 8) : Updating (record faults key ty mask) := by
  intro k fault hf
  rw [lookup_record] at hf
  split at hf
  · cases hf
    rfl
  · exact h k fault hf

theorem check_of_update {fault : PermanentFault} (h : fault.update = true) (data : BitVec 8) :
    fault.check data = fault.reapply data := by
  rw [PermanentFault.check, if_pos h]

def popcount (mask : BitVec 8) : Nat := ((List.range 8).filter fun i => mask.getLsbD i).length

/-! ### The check of a byte -/

/-- What a check does to a byte whose location has this record, if any. -/
def checked (r : Option PermanentFault) (data : BitVec 8) : BitVec 8 := r.elim data fun fault => fault.check data

def PermanentFault.Idle (fault : PermanentFault) : Prop :=
  fault.update = true → ∀ f ∈ fault.fault_type.force fault.mask, f.mask = 0#8

theorem check_eq_self_iff (fault : PermanentFault) : (∀ b, fault.check b = b) ↔ fault.Idle := by
  obtain ⟨ty, mask, update⟩ := fault
  cases update with
  | false => simp [PermanentFault.check, PermanentFault.Idle]
  | true =>
    cases hforce : ty.force mask with
    | none =>
      have htype := force_eq_none_iff.1 hforce
      have hkeep : ∀ b, (PermanentFault.mk ty mask true).check b = b := by
        intro b
        cases ty <;> simp_all [PermanentFault.check, PermanentFault.reapply]
      simp [hkeep, PermanentFault.Idle, hforce]
    | some f =>
      have happly : ∀ b, (PermanentFault.mk ty mask true).check b = f.apply b := reapply_eq hforce true
      simp [happly, Force.apply_eq_self_iff, PermanentFault.Idle, hforce]

theorem checked_eq_self_iff (r : Option PermanentFault) : (∀ b, checked r b = b) ↔ ∀ fault ∈ r, fault.Idle := by
  cases r with
  | none => simp [checked]
  | some fault => simpa [checked] using check_eq_self_iff fault

theorem checked_record_iff {κ : Type} [DecidableEq κ] (faults : AList fun _ : κ => PermanentFault) (key : κ)
    (ty : FaultType) {mask : BitVec 8} (hmask : mask ≠ 0#8) :
    (∀ b, checked ((record faults key ty mask).lookup key) b = b) ↔
      ty.force mask = none ∧ ∀ fault ∈ faults.lookup key, fault.Idle := by
  rw [checked_eq_self_iff, lookup_record]
  cases hforce : ty.force mask with
  | none => simp
  | some f =>
    have hf : f.mask = mask := by
      cases ty <;> simp only [FaultType.force, Option.some.injEq, reduceCtorEq] at hforce <;> subst hforce <;> rfl
    simp [PermanentFault.Idle, hforce, hf, hmask]

end GemFI.Mem
