import Mathlib.Algebra.Order.Field.Rat
import Mathlib.Algebra.Order.Ring.Nat

/-!
# The wake-up hook of the issue-queue injector

`hookWakeDependents` decides for every dependent that `wakeDependents` is about to wake: `None` lets the wake-up pass,
`Omit` skips it and `Defer` moves it to the next call.  The decision does not depend on the dependent, so the answers
of one call form a stream (`answers`).

Probabilities and draws are rational numbers, which single-precision floats are; `rng i` is draw `i` of the uniform
distribution.  The poller of the two other modes, the log file and the legality counters are left out.
-/

namespace GemFI.IQ

inductive Mode where
  | SrcReadyBitFlip | TagSub | WakePhase | WakeOmit
  deriving DecidableEq, Repr

inductive HookAction where
  | None | Omit | Defer
  deriving DecidableEq, Repr

structure Injector where
  fi_mode : Mode
  probability : ℚ
  first_clock : Nat
  /-- `0`: the window has no end. -/
  last_clock : Nat
  /-- `0`: no limit. -/
  max_faults : Nat
  rng : Nat → ℚ
  faults_injected_count : Nat := 0
  numFaultsInjected : Nat := 0
  drawn : Nat := 0

/-- The injector with the deferred wake-ups; `α` are the instructions. -/
structure CHAOSIQ (α : Type) extends Injector where
  pending_wakeups : List (α × Nat) := []

namespace Injector

/-- The probability gate: a draw is made only if the probability is below one. -/
def gate (q : Injector) : Bool × Injector :=
  if q.probability < 1 then (decide (q.rng q.drawn < q.probability), { q with drawn := q.drawn + 1 }) else (true, q)

def hookWakeDependents (now : Nat) (q : Injector) : HookAction × Injector :=
  if q.fi_mode ≠ .WakeOmit ∧ q.fi_mode ≠ .WakePhase then (.None, q)
  else if q.probability = 0 then (.None, q)
  else if now < q.first_clock then (.None, q)
  else if q.last_clock ≠ 0 ∧ q.last_clock < now then (.None, q)
  else
    let (pass, q) := q.gate
    if !pass then (.None, q)
    else if q.max_faults ≠ 0 ∧ q.max_faults ≤ q.faults_injected_count then (.None, q)
    else
      (if q.fi_mode = .WakeOmit then .Omit else .Defer,
        { q with
          faults_injected_count := q.faults_injected_count + 1
          numFaultsInjected := q.numFaultsInjected + 1 })

def after (now : Nat) (q : Injector) (n : Nat) : Injector := (fun q => (hookWakeDependents now q).2)^[n] q

def answers (now : Nat) (q : Injector) (i : Nat) : HookAction := (hookWakeDependents now (q.after now i)).1

theorem after_succ (now : Nat) (q : Injector) (n : Nat) :
    q.after now (n + 1) = ((hookWakeDependents now q).2).after now n := rfl

theorem answers_zero (now : Nat) (q : Injector) : q.answers now 0 = (hookWakeDependents now q).1 := rfl

theorem answers_succ (now : Nat) (q : Injector) (i : Nat) :
    q.answers now (i + 1) = ((hookWakeDependents now q).2).answers now i := rfl

/-! ### When the hook lets wake-ups pass -/

def Armed (now : Nat) (q : Injector) : Prop :=
  (q.fi_mode = .WakeOmit ∨ q.fi_mode = .WakePhase) ∧ q.probability ≠ 0 ∧ q.first_clock ≤ now ∧
  (q.last_clock = 0 ∨ now ≤ q.last_clock)

def Exhausted (q : Injector) : Prop := q.max_faults ≠ 0 ∧ q.max_faults ≤ q.faults_injected_count

instance (now : Nat) (q : Injector) : Decidable (q.Armed now) := inferInstanceAs (Decidable (_ ∧ _ ∧ _ ∧ _))

instance (q : Injector) : Decidable q.Exhausted := inferInstanceAs (Decidable (_ ∧ _))

variable {now : Nat} {q : Injector}

theorem hook_of_not_armed (h : ¬ q.Armed now) : hookWakeDependents now q = (.None, q) := by
  unfold hookWakeDependents
  by_cases hmode : q.fi_mode ≠ .WakeOmit ∧ q.fi_mode ≠ .WakePhase
  · rw [if_pos hmode]
  rw [if_neg hmode]
  by_cases hp : q.probability = 0
  · rw [if_pos hp]
  rw [if_neg hp]
  by_cases hfirst : now < q.first_clock
  · rw [if_pos hfirst]
  rw [if_neg hfirst]
  by_cases hlast : q.last_clock ≠ 0 ∧ q.last_clock < now
  · rw [if_pos hlast]
  · refine absurd ⟨?_, hp, by omega, by omega⟩ h
    simpa only [ne_eq, not_and_or, not_not] using hmode

theorem hook_of_armed (h : q.Armed now) :
    hookWakeDependents now q =
      if q.gate.1 = true ∧ ¬ q.Exhausted then
        (if q.fi_mode = .WakeOmit then .Omit else .Defer,
          { q.gate.2 with
            faults_injected_count := q.faults_injected_count + 1
            numFaultsInjected := q.numFaultsInjected + 1 })
      else (.None, q.gate.2) := by
  obtain ⟨hmode, hp, hfirst, hlast⟩ := h
  have h1 : ¬ (q.fi_mode ≠ .WakeOmit ∧ q.fi_mode ≠ .WakePhase) := by
    rcases hmode with h | h <;> simp [h]
  have h2 : ¬ now < q.first_clock := by omega
  have h3 : ¬ (q.last_clock ≠ 0 ∧ q.last_clock < now) := by omega
  have hgate : q.gate.2.max_faults = q.max_faults ∧ q.gate.2.faults_injected_count = q.faults_injected_count ∧
      q.gate.2.fi_mode = q.fi_mode ∧ q.gate.2.numFaultsInjected = q.numFaultsInjected := by
    unfold gate
    split <;> exact ⟨rfl, rfl, rfl, rfl⟩
  simp only [hookWakeDependents, if_neg h1, if_neg hp, if_neg h2, if_neg h3, hgate, Exhausted]
  cases q.gate.1 with
  | false => simp
  | true =>
    by_cases hmax : q.max_faults ≠ 0 ∧ q.max_faults ≤ q.faults_injected_count <;> simp [hmax]

def skip (q : Injector) : HookAction := if q.fi_mode = .WakeOmit then .Omit else .Defer

theorem skip_ne_none (q : Injector) : q.skip ≠ .None := by
  unfold skip
  split <;> simp

theorem hook_mode (now : Nat) (q : Injector) :
    ((hookWakeDependents now q).1 = .None ∨ (hookWakeDependents now q).1 = q.skip) ∧
    (hookWakeDependents now q).2.fi_mode = q.fi_mode := by
  by_cases h : q.Armed now
  · have hgate : q.gate.2.fi_mode = q.fi_mode := by
      unfold gate
      split <;> rfl
    rw [hook_of_armed h]
    split
    · exact ⟨.inr rfl, hgate⟩
    · exact ⟨.inl rfl, hgate⟩
  · rw [hook_of_not_armed h]
    exact ⟨.inl rfl, rfl⟩

private theorem gate_frame (now : Nat) (q : Injector) :
    (q.gate.2.Armed now ↔ q.Armed now) ∧ (q.gate.2.Exhausted ↔ q.Exhausted) := by
  unfold gate
  split <;> exact ⟨Iff.rfl, Iff.rfl⟩

private theorem answers_of_not_armed (h : ¬ q.Armed now) (i : Nat) : q.answers now i = .None := by
  induction i with
  | zero => rw [answers_zero, hook_of_not_armed h]
  | succ i ih =>
    rw [answers_succ, hook_of_not_armed h]
    exact ih

private theorem answers_of_exhausted (harmed : q.Armed now) (h : q.Exhausted) (i : Nat) :
    q.answers now i = .None := by
  have hhook : hookWakeDependents now q = (.None, q.gate.2) := by
    rw [hook_of_armed harmed, if_neg fun hpass => hpass.2 h]
  induction i generalizing q with
  | zero => rw [answers_zero, hhook]
  | succ i ih =>
    rw [answers_succ, hhook]
    have harmed' := (gate_frame now q).1.2 harmed
    have h' := (gate_frame now q).2.2 h
    exact ih harmed' h' (by rw [hook_of_armed harmed', if_neg fun hpass => hpass.2 h'])

private theorem answers_zero_iff (harmed : q.Armed now) (hexh : ¬ q.Exhausted) :
    q.answers now 0 = .None ↔ q.probability < 1 ∧ q.probability ≤ q.rng q.drawn := by
  rw [answers_zero, hook_of_armed harmed]
  by_cases hp : q.probability < 1
  · by_cases hdraw : q.rng q.drawn < q.probability
    · have hgate : q.gate.1 = true := by simp [gate, hp, hdraw]
      rw [if_pos ⟨hgate, hexh⟩]
      simp only [hp, not_le.2 hdraw, and_false, iff_false]
      split <;> simp
    · simp [gate, hp, hdraw, not_lt.1 hdraw]
  · have hgate : q.gate.1 = true := by simp [gate, hp]
    rw [if_pos ⟨hgate, hexh⟩]
    simp only [hp, false_and, iff_false]
    split <;> simp

private theorem hook_of_high_draw (harmed : q.Armed now) (hp : q.probability < 1)
    (hdraw : q.probability ≤ q.rng q.drawn) : (hookWakeDependents now q).2 = { q with drawn := q.drawn + 1 } := by
  rw [hook_of_armed harmed]
  simp [gate, hp, not_lt.2 hdraw]

theorem answers_none_iff (now : Nat) (q : Injector) (n : Nat) :
    (∀ i < n, q.answers now i = .None) ↔
      n = 0 ∨ ¬ q.Armed now ∨ q.Exhausted ∨
      (q.probability < 1 ∧ ∀ i < n, q.probability ≤ q.rng (q.drawn + i)) := by
  by_cases harmed : q.Armed now
  swap
  · simp only [harmed, not_false_eq_true, true_or, or_true, iff_true]
    exact fun i _ => answers_of_not_armed harmed i
  by_cases hexh : q.Exhausted
  · simp only [hexh, true_or, or_true, iff_true]
    exact fun i _ => answers_of_exhausted harmed hexh i
  simp only [harmed, hexh, not_true_eq_false, false_or]
  induction n generalizing q with
  | zero => simp
  | succ n ih =>
    -- the first wake-up, and the rest after its draw
    rw [Nat.forall_lt_succ_left, Nat.forall_lt_succ_left, answers_zero_iff harmed hexh]
    by_cases hfirst : q.probability < 1 ∧ q.probability ≤ q.rng q.drawn
    · obtain ⟨hp, hdraw⟩ := hfirst
      have hrest : ∀ i, q.answers now (i + 1) = Injector.answers now { q with drawn := q.drawn + 1 } i := by
        intro i
        rw [answers_succ, hook_of_high_draw harmed hp hdraw]
      have hdrawn : ∀ i, q.drawn + 1 + i = q.drawn + (i + 1) := by omega
      have hih := ih { q with drawn := q.drawn + 1 } harmed hexh
      simp only [hdrawn] at hih
      simp only [hrest, hih, hp, hdraw, Nat.add_zero, true_and, Nat.add_one_ne_zero, false_or, or_iff_right_iff_imp]
      rintro rfl i hi
      omega
    · constructor
      · rintro ⟨h, -⟩
        exact absurd h hfirst
      · rintro (h | ⟨hp, hdraw, -⟩)
        · omega
        · exact absurd ⟨hp, hdraw⟩ hfirst

private theorem hook_of_always (harmed : q.Armed now) (hp : ¬ q.probability < 1) (hmax : q.max_faults = 0) :
    hookWakeDependents now q = (q.skip,
      { q with
        faults_injected_count := q.faults_injected_count + 1, numFaultsInjected := q.numFaultsInjected + 1 }) := by
  have hexh : ¬ q.Exhausted := fun h => h.1 hmax
  have hgate : q.gate = (true, q) := by simp [gate, hp]
  rw [hook_of_armed harmed, hgate, if_pos ⟨rfl, hexh⟩]
  rfl

theorem answers_of_always (harmed : q.Armed now) (hp : ¬ q.probability < 1) (hmax : q.max_faults = 0) (i : Nat) :
    q.answers now i ≠ .None := by
  induction i generalizing q with
  | zero =>
    rw [answers_zero, hook_of_always harmed hp hmax]
    exact q.skip_ne_none
  | succ i ih =>
    rw [answers_succ, hook_of_always harmed hp hmax]
    exact ih harmed hp hmax

end Injector

namespace CHAOSIQ

variable {α : Type}

def recordDeferred (q : CHAOSIQ α) (inst : α) (reg_idx : Nat) : CHAOSIQ α :=
  { q with pending_wakeups := q.pending_wakeups ++ [(inst, reg_idx)] }

def takePendingWakeups (q : CHAOSIQ α) : List (α × Nat) × CHAOSIQ α :=
  (q.pending_wakeups, { q with pending_wakeups := [] })

end CHAOSIQ

end GemFI.IQ
