import Mathlib.Data.Option.Basic

/-!
# Events of a queue

An event object is scheduled for a tick or not.  Squashing leaves it in the queue until its tick, where it is dropped
without running; meanwhile it counts as scheduled, so it cannot be scheduled again.
-/

namespace GemFI

structure Pending where
  tick : Nat
  squashed : Bool := false
  deriving DecidableEq, Repr

namespace Pending

def schedule (event : Option Pending) (tick : Nat) : Option Pending :=
  if event.isNone then some { tick := tick } else event

def squash (event : Option Pending) : Option Pending := event.map fun p => { p with squashed := true }

def RunsAt (event : Option Pending) (tick : Nat) : Prop := event = some { tick := tick }

def isAt (event : Option Pending) (tick : Nat) : Bool := event.any fun p => p.tick = tick

@[simp] theorem schedule_none (tick : Nat) : schedule none tick = some { tick := tick } := rfl

theorem runsAt_self (p : Pending) : RunsAt (some p) p.tick ↔ p.squashed = false := by
  cases p
  simp [RunsAt]

theorem map_tick_ite (p : Pending) (c : Prop) [Decidable c] (next t : Nat) :
    (if p.squashed = false ∧ c then some ({ tick := next } : Pending) else none).map (·.tick) = some t ↔
      (RunsAt (some p) p.tick ∧ c) ∧ t = next := by
  rw [runsAt_self]
  by_cases h : p.squashed = false ∧ c
  · rw [if_pos h, Option.map_some, Option.some_inj, and_iff_right h]
    exact eq_comm
  · rw [if_neg h]
    exact iff_of_false (Option.some_ne_none t).symm fun hand => h hand.1

theorem not_runsAt_squash (event : Option Pending) (tick : Nat) : ¬RunsAt (squash event) tick := by
  cases event <;> simp [RunsAt, squash]

theorem isAt_iff (event : Option Pending) (tick : Nat) : isAt event tick = true ↔ ∃ p, event = some p ∧ p.tick = tick := by
  cases event <;> simp [isAt]

theorem map_tick_of_isAt {event : Option Pending} {tick : Nat} (h : isAt event tick = true) :
    event.map (·.tick) = some tick := by
  obtain ⟨p, rfl, rfl⟩ := (isAt_iff event tick).1 h
  rfl

theorem handled {σ : Type*} (count : σ → Nat) (event : σ → Option Pending) (Spent : σ → Prop) {p : Pending}
    {s' attacked : σ} (dropped : σ) {c : Prop} [Decidable c] {next more : Nat}
    (hstep : s' = if p.squashed then dropped else attacked) (hdropped : event dropped = none)
    (hcount : count attacked = count dropped + more)
    (hnext : event attacked = if c then some { tick := next } else none) (hspent : c → ¬Spent attacked) :
    count s' = count dropped + (if p.squashed then 0 else more) ∧
    event s' = (if p.squashed = false ∧ c then some { tick := next } else none) ∧
    ∀ q, event s' = some q → ¬Spent s' := by
  cases hsquashed : p.squashed with
  | true =>
    rw [if_pos hsquashed] at hstep
    rw [hstep, hdropped]
    exact ⟨rfl, (if_neg fun h => absurd h.1 (by decide)).symm, fun q hq => by cases hq⟩
  | false =>
    rw [if_neg (by rw [hsquashed]; decide)] at hstep
    rw [hstep, hnext]
    refine ⟨hcount, by simp only [true_and], fun q hq => ?_⟩
    split at hq
    · rename_i hc
      exact hspent hc
    · cases hq

end Pending

end GemFI
