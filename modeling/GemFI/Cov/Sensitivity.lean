import GemFI.Cov.Timeline
import GemFI.Lib.Flip
import Mathlib.Algebra.Order.Floor.Div

/-!
# Input sensitivity of the integer units

One issue in sixteen of an adder or a multiplier is sampled: every input bit is flipped, and the flips that change the
result are counted.  A sum shows every flip (`sensBits_add`); a product hides the flip of a bit exactly if the
trailing zeros of the other operand move it out of the word (`sensBits_mul`), and leading zeros hide nothing.

The counters at the end of a run are read off the operands of the issues inside the windows (`issues`), of which every
sixteenth, from the first on, is sampled (`sampledFrom`).
-/

namespace GemFI.Cov

open CHAOSCov Flip

variable {cfg : Config}

/-! ### One sample -/

private theorem sensBits_eq (op : BitVec 64 → BitVec 64 → BitVec 64) (a b : BitVec 64) :
    sensBits op a b = ((List.range 64).filter fun i => op (flip a i) b != op a b).length +
      ((List.range 64).filter fun i => op a (flip b i) != op a b).length := rfl

theorem sensBits_add (a b : BitVec 64) : sensBits (· + ·) a b = 128 := by
  have hleft : (List.range 64).filter (fun i => flip a i + b != a + b) = List.range 64 :=
    List.filter_eq_self.2 fun i hi => bne_iff_ne.2 (flip_add_ne a b (List.mem_range.1 hi))
  have hright : (List.range 64).filter (fun i => a + flip b i != a + b) = List.range 64 :=
    List.filter_eq_self.2 fun i hi => bne_iff_ne.2 (add_flip_ne a b (List.mem_range.1 hi))
  rw [sensBits_eq, hleft, hright, List.length_range]

theorem sensBits_mul (a b : BitVec 64) :
    sensBits (· * ·) a b = (64 - min 64 (trailingZeros a)) + (64 - min 64 (trailingZeros b)) := by
  have hright : (List.range 64).filter (fun i => a * flip b i != a * b) =
      (List.range 64).filter fun i => flip b i * a != b * a := by
    refine List.filter_congr fun i _ => ?_
    rw [BitVec.mul_comm a, BitVec.mul_comm a]
  have ha := trailingZeros_le a
  have hb := trailingZeros_le b
  rw [sensBits_eq, length_filter_flip_mul, hright, length_filter_flip_mul, Nat.min_eq_right ha, Nat.min_eq_right hb,
    Nat.add_comm]

/-! ### The two units -/

inductive IexUnit where
  | add | mul
  deriving DecidableEq, Repr

def IexUnit.operands : IexUnit → Event cfg → Option (BitVec 64 × BitVec 64)
  | .add, .addIssue a b => some (a, b)
  | .mul, .mulIssue a b => some (a, b)
  | _, _ => none

def IexUnit.counters : IexUnit → CHAOSCov cfg → Nat × Nat × Nat
  | .add, s => (s.iex_add_issues, s.iex_add_sampled, s.iex_sens_bits)
  | .mul, s => (s.iex_mul_issues, s.iex_mul_sampled, s.iex_mul_sens_bits)

def IexUnit.sens : IexUnit → BitVec 64 × BitVec 64 → Nat
  | .add, _ => 128
  | .mul, p => (64 - min 64 (trailingZeros p.1)) + (64 - min 64 (trailingZeros p.2))

def IexUnit.count (φ : IexUnit) (c : Nat × Nat × Nat) (p : BitVec 64 × BitVec 64) : Nat × Nat × Nat :=
  if (c.1 + 1) % SENS_SAMPLE = 1 then (c.1 + 1, c.2.1 + 1, c.2.2 + φ.sens p) else (c.1 + 1, c.2)

variable (φ : IexUnit) {s : CHAOSCov cfg}

theorem count_snd (c : Nat × Nat × Nat) (p : BitVec 64 × BitVec 64) :
    (φ.count c p).2 = if (c.1 + 1) % 16 = 1 then (c.2.1 + 1, c.2.2 + φ.sens p) else c.2 := by
  unfold IexUnit.count SENS_SAMPLE
  split <;> rfl

theorem iexOnAddIssue_counters (ha : s.roi_active = true) (a b : BitVec 64) :
    IexUnit.add.counters (s.iexOnAddIssue a b) = IexUnit.add.count (IexUnit.add.counters s) (a, b) := by
  unfold iexOnAddIssue
  rw [ha, if_neg (by decide)]
  dsimp only [IexUnit.count, IexUnit.counters, IexUnit.sens]
  by_cases h : (s.iex_add_issues + 1) % SENS_SAMPLE = 1
  · rw [if_neg (not_not_intro h), if_pos h, sensBits_add]
  · rw [if_pos h, if_neg h]

theorem iexOnMulIssue_counters (ha : s.roi_active = true) (a b : BitVec 64) :
    IexUnit.mul.counters (s.iexOnMulIssue a b) = IexUnit.mul.count (IexUnit.mul.counters s) (a, b) := by
  unfold iexOnMulIssue
  rw [ha, if_neg (by decide)]
  dsimp only [IexUnit.count, IexUnit.counters, IexUnit.sens]
  by_cases h : (s.iex_mul_issues + 1) % SENS_SAMPLE = 1
  · rw [if_neg (not_not_intro h), if_pos h, sensBits_mul]
  · rw [if_pos h, if_neg h]

private theorem fuOnIssueValue_counters (s : CHAOSCov cfg) (c : Int) (l : List Int) :
    φ.counters (s.fuOnIssueValue c l) = φ.counters s := by
  unfold fuOnIssueValue
  split
  · rfl
  · split
    · rfl
    · refine List.foldlRecOn l _ (motive := fun t => φ.counters t = φ.counters s) rfl fun t ht x _ => ?_
      split
      · exact ht
      · cases φ <;> exact ht

theorem counters_frame (s : CHAOSCov cfg) {e : Event cfg} (h : φ.operands e = none) :
    φ.counters (step s e) = φ.counters s := by
  by_cases hp : e.part = .side
  swap
  · refine step_frame s e ?_
    cases φ <;> cases hpart : e.part <;> simp_all [Part.Unseen, IexUnit.counters]
  cases e with
  | addIssue a b =>
    cases φ with
    | add => cases h
    | mul =>
      simp only [step, iexOnAddIssue]
      split
      · rfl
      · split <;> rfl
  | mulIssue a b =>
    cases φ with
    | mul => cases h
    | add =>
      simp only [step, iexOnMulIssue]
      split
      · rfl
      · split <;> rfl
  | loadWriteback q =>
    simp only [step, loadOnWriteback]
    split <;> cases φ <;> rfl
  | loadUse q =>
    simp only [step, loadOnUse]
    split
    · rfl
    · split <;> cases φ <;> rfl
  | fuIssue c n =>
    simp only [step, fuOnIssue]
    split
    · rfl
    · split <;> cases φ <;> rfl
  | fuIssueValue c l => exact fuOnIssueValue_counters φ s c l
  | _ => cases hp

/-! ### Runs -/

/-- The operands of the issues of the unit inside the windows. -/
def IexUnit.issues (φ : IexUnit) (xs : List (Stamped cfg)) : List (BitVec 64 × BitVec 64) :=
  xs.filterMap fun x => if x.clock.active then φ.operands x.event else none

def sampledFrom {α : Type} : Nat → List α → List α
  | _, [] => []
  | n, p :: ps => if (n + 1) % SENS_SAMPLE = 1 then p :: sampledFrom (n + 1) ps else sampledFrom (n + 1) ps

private theorem counters_step {k : Clock} (hk : Ticks k s) (e : Event cfg) :
    φ.counters (step s e) = (φ.issues [⟨k, e⟩]).foldl φ.count (φ.counters s) := by
  cases ha : s.roi_active with
  | false =>
    have hissues : φ.issues [(⟨k, e⟩ : Stamped cfg)] = [] := by simp [IexUnit.issues, hk.1, ha]
    rw [hissues]
    cases e with
    | addIssue a b | mulIssue a b => simp [step, iexOnAddIssue, iexOnMulIssue, ha]
    | _ => exact counters_frame φ s (by cases φ <;> rfl)
  | true =>
    cases ho : φ.operands e with
    | none =>
      have hissues : φ.issues [(⟨k, e⟩ : Stamped cfg)] = [] := by simp [IexUnit.issues, ho]
      rw [hissues]
      exact counters_frame φ s ho
    | some p =>
      have hissues : φ.issues [(⟨k, e⟩ : Stamped cfg)] = [p] := by simp [IexUnit.issues, ho, hk.1, ha]
      rw [hissues, List.foldl_cons, List.foldl_nil]
      cases φ with
      | add =>
        cases e with
        | addIssue a b =>
          cases Option.some.inj ho
          exact iexOnAddIssue_counters ha a b
        | _ => cases ho
      | mul =>
        cases e with
        | mulIssue a b =>
          cases Option.some.inj ho
          exact iexOnMulIssue_counters ha a b
        | _ => cases ho

private theorem counters_run {k : Clock} (hk : Ticks k s) (es : List (Event cfg)) :
    φ.counters (run s es) = (φ.issues (stamp k es)).foldl φ.count (φ.counters s) := by
  induction es generalizing k s with
  | nil => rfl
  | cons e es ih =>
    have hsplit : φ.issues (stamp k (e :: es)) = φ.issues [⟨k, e⟩] ++ φ.issues (stamp (k.next e) es) := by
      rw [IexUnit.issues, IexUnit.issues, IexUnit.issues, ← List.filterMap_append]
      rfl
    rw [hsplit, List.foldl_append, ← counters_step φ hk e]
    exact ih (ticks_step hk e)

private theorem foldl_count (n m b : Nat) (ps : List (BitVec 64 × BitVec 64)) :
    ps.foldl φ.count (n, m, b) =
      (n + ps.length, m + (sampledFrom n ps).length, b + ((sampledFrom n ps).map φ.sens).sum) := by
  induction ps generalizing n m b with
  | nil => rfl
  | cons p ps ih =>
    rw [List.foldl_cons, IexUnit.count, sampledFrom]
    by_cases h : (n + 1) % SENS_SAMPLE = 1
    · rw [if_pos h, if_pos h, ih]
      simp only [List.length_cons, List.map_cons, List.sum_cons, Prod.mk.injEq]
      omega
    · rw [if_neg h, if_neg h]
      exact (ih (n + 1) m b).trans (by rw [List.length_cons, Nat.add_right_comm, Nat.add_assoc])

private theorem length_sampledFrom {α : Type} (n : Nat) (ps : List α) :
    n ⌈/⌉ SENS_SAMPLE + (sampledFrom n ps).length = (n + ps.length) ⌈/⌉ SENS_SAMPLE := by
  simp only [Nat.ceilDiv_eq_add_pred_div, SENS_SAMPLE]
  induction ps generalizing n with
  | nil => rfl
  | cons p ps ih =>
    have hnext := ih (n + 1)
    rw [sampledFrom, List.length_cons]
    by_cases h : (n + 1) % SENS_SAMPLE = 1
    · rw [if_pos h, List.length_cons]
      rw [SENS_SAMPLE] at h
      omega
    · rw [if_neg h]
      rw [SENS_SAMPLE] at h
      omega

theorem counters_fresh_run (es : List (Event cfg)) :
    φ.counters (run (fresh cfg) es) =
      ((φ.issues (timeline es)).length, (φ.issues (timeline es)).length ⌈/⌉ SENS_SAMPLE,
        ((sampledFrom 0 (φ.issues (timeline es))).map φ.sens).sum) := by
  have hfresh : φ.counters (fresh cfg) = (0, 0, 0) := by cases φ <;> rfl
  have hlen := length_sampledFrom 0 (φ.issues (timeline es))
  rw [counters_run φ (ticks_fresh cfg) es, hfresh, foldl_count]
  simp only [Nat.zero_add, zero_ceilDiv] at hlen ⊢
  rw [← hlen]
  rfl

private theorem iexOnIssue_inactive (ha : s.roi_active = false) (a b : BitVec 64) :
    s.iexOnAddIssue a b = s ∧ s.iexOnMulIssue a b = s := by
  simp [iexOnAddIssue, iexOnMulIssue, ha]

/-- A sampled addition counts 128 sensitive bits, a sampled multiplication one for each bit that the trailing zeros of
its operands leave, and of `n` issues inside the windows `⌈n / 16⌉` are sampled.  A bit of a factor is hidden only by the
trailing zeros of the other one. -/
theorem iex_sensitivity (s : CHAOSCov cfg) (es : List (Event cfg)) (a b : BitVec 64) (i : Fin 64) :
    ((s.iexOnAddIssue a b).iex_add_sampled, (s.iexOnAddIssue a b).iex_sens_bits) =
      (if s.roi_active ∧ (s.iex_add_issues + 1) % 16 = 1 then (s.iex_add_sampled + 1, s.iex_sens_bits + 128)
        else (s.iex_add_sampled, s.iex_sens_bits)) ∧
    ((s.iexOnMulIssue a b).iex_mul_sampled, (s.iexOnMulIssue a b).iex_mul_sens_bits) =
      (if s.roi_active ∧ (s.iex_mul_issues + 1) % 16 = 1 then
        (s.iex_mul_sampled + 1,
          s.iex_mul_sens_bits + ((64 - min 64 (trailingZeros a)) + (64 - min 64 (trailingZeros b))))
        else (s.iex_mul_sampled, s.iex_mul_sens_bits)) ∧
    (run (fresh cfg) es).iex_add_sampled = (IexUnit.add.issues (timeline es)).length ⌈/⌉ 16 ∧
    (run (fresh cfg) es).iex_mul_sampled = (IexUnit.mul.issues (timeline es)).length ⌈/⌉ 16 ∧
    ((a ^^^ (1#64 <<< i.val)) * b = a * b ↔ 64 ≤ i.val + trailingZeros b) ∧
    (a * (b ^^^ (1#64 <<< i.val)) = a * b ↔ 64 ≤ i.val + trailingZeros a) := by
  have hadd := counters_fresh_run .add es
  have hmul := counters_fresh_run .mul es
  simp only [IexUnit.counters, Prod.mk.injEq] at hadd hmul
  refine ⟨?_, ?_, hadd.2.1, hmul.2.1, flip_mul_eq_iff a b i.isLt, ?_⟩
  · cases ha : s.roi_active with
    | false => simp [iexOnIssue_inactive ha]
    | true =>
      simp only [true_and]
      exact (congrArg Prod.snd (iexOnAddIssue_counters ha a b)).trans (count_snd .add _ _)
  · cases ha : s.roi_active with
    | false => simp [iexOnIssue_inactive ha]
    | true =>
      simp only [true_and]
      exact (congrArg Prod.snd (iexOnMulIssue_counters ha a b)).trans (count_snd .mul _ _)
  · rw [BitVec.mul_comm a, BitVec.mul_comm a]
    exact flip_mul_eq_iff b a i.isLt

end GemFI.Cov
