import GemFI.Cov.Frame

/-!
# The ROI clock

The clock says, for every event of a sequence, whether it falls into a ROI window, in which ROI cycle, and how many
instructions the window has committed before.  It is read off the events alone; `ticks_step` says that the analyzer
keeps the same window and cycle.
-/

namespace GemFI.Cov

open CHAOSCov

variable {cfg : Config}

structure Clock where
  active : Bool
  cycles : Nat
  commits : Nat
  deriving DecidableEq, Repr

def Clock.start (cfg : Config) : Clock := ⟨decide (cfg.roi_mode = .all), 0, 0⟩

def Clock.next (k : Clock) : Event cfg → Clock
  | .workBegin => if cfg.roi_mode = .m5ops then { k with active := true } else k
  | .workEnd => if cfg.roi_mode = .m5ops then { k with active := false } else k
  | .cycle .. => if k.active then { k with cycles := k.cycles + 1 } else k
  | .sliceCommit _ => if k.active then { k with commits := k.commits + 1 } else k
  | _ => k

structure Stamped (cfg : Config) where
  clock : Clock
  event : Event cfg

def stamp (k : Clock) : List (Event cfg) → List (Stamped cfg)
  | [] => []
  | e :: es => ⟨k, e⟩ :: stamp (k.next e) es

def timeline (es : List (Event cfg)) : List (Stamped cfg) := stamp (Clock.start cfg) es

theorem cycles_le_next (k : Clock) (e : Event cfg) : k.cycles ≤ (k.next e).cycles := by
  cases e <;> simp only [Clock.next, Nat.le_refl] <;> split <;> simp

theorem stamp_ordered (k : Clock) (es : List (Event cfg)) :
    (∀ x ∈ stamp k es, k.cycles ≤ x.clock.cycles) ∧
    (stamp k es).Pairwise fun x y => x.clock.cycles ≤ y.clock.cycles := by
  induction es generalizing k with
  | nil => exact ⟨by simp [stamp], .nil⟩
  | cons e es ih =>
    obtain ⟨h1, h2⟩ := ih (k.next e)
    have h3 : ∀ x ∈ stamp (k.next e) es, k.cycles ≤ x.clock.cycles := fun x hx =>
      Nat.le_trans (cycles_le_next k e) (h1 x hx)
    refine ⟨?_, List.pairwise_cons.2 ⟨h3, h2⟩⟩
    intro x hx
    rcases List.mem_cons.1 hx with rfl | hx
    · exact Nat.le_refl _
    · exact h3 x hx

/-! ### The analyzer keeps the clock -/

def Ticks (k : Clock) (s : CHAOSCov cfg) : Prop := k.active = s.roi_active ∧ k.cycles = s.roi_cycles

theorem ticks_fresh (cfg : Config) : Ticks (Clock.start cfg) (fresh cfg) := ⟨rfl, rfl⟩

variable (s : CHAOSCov cfg)

private theorem finishStats_clock :
    s.finishStats.roi_active = s.roi_active ∧ s.finishStats.roi_cycles = s.roi_cycles := by
  unfold finishStats solveSliceAndSdc
  split <;> exact ⟨rfl, rfl⟩

theorem step_cycle (n m : Int) :
    (step s (.cycle n m)).roi_active = s.roi_active ∧
    (step s (.cycle n m)).roi_cycles = if s.roi_active then s.roi_cycles + 1 else s.roi_cycles := by
  cases h : s.roi_active with
  | false => simp [step, onCycle, tickROICycles, h]
  | true =>
    simp only [step, onCycle, tickROICycles, irfSampleOccupancy, h, true_and, ↓reduceIte]
    split <;> exact ⟨rfl, rfl⟩

theorem step_workBegin :
    (step s .workBegin).roi_active = (if cfg.roi_mode = .m5ops then true else s.roi_active) ∧
    (step s .workBegin).roi_cycles = s.roi_cycles := by
  by_cases h : cfg.roi_mode = .m5ops <;> simp [step, onWorkBegin, h]

theorem step_workEnd :
    (step s .workEnd).roi_active = (if cfg.roi_mode = .m5ops then false else s.roi_active) ∧
    (step s .workEnd).roi_cycles = s.roi_cycles := by
  by_cases h : cfg.roi_mode = .m5ops <;> simp [step, onWorkEnd, h, finishStats_clock]

theorem step_preDumpStats :
    (step s .preDumpStats).roi_active = s.roi_active ∧ (step s .preDumpStats).roi_cycles = s.roi_cycles :=
  finishStats_clock s

private theorem next_clock_of_part (k : Clock) {e : Event cfg} (h : e.part ≠ .roi) :
    (k.next e).active = k.active ∧ (k.next e).cycles = k.cycles := by
  cases e with
  | cycle | workBegin | workEnd | preDumpStats => exact absurd rfl h
  | sliceCommit inst => simp only [Clock.next]; split <;> exact ⟨rfl, rfl⟩
  | _ => exact ⟨rfl, rfl⟩

theorem ticks_step {k : Clock} {s : CHAOSCov cfg} (h : Ticks k s) (e : Event cfg) : Ticks (k.next e) (step s e) := by
  obtain ⟨ha, hc⟩ := h
  by_cases hp : e.part = .roi
  · cases e with
    | cycle n m =>
      rw [Ticks, (step_cycle s n m).1, (step_cycle s n m).2, ← ha, ← hc]
      simp only [Clock.next]
      split <;> exact ⟨rfl, rfl⟩
    | workBegin =>
      rw [Ticks, (step_workBegin s).1, (step_workBegin s).2, ← ha, ← hc]
      simp only [Clock.next]
      split <;> exact ⟨rfl, rfl⟩
    | workEnd =>
      rw [Ticks, (step_workEnd s).1, (step_workEnd s).2, ← ha, ← hc]
      simp only [Clock.next]
      split <;> exact ⟨rfl, rfl⟩
    | preDumpStats =>
      rw [Ticks, (step_preDumpStats s).1, (step_preDumpStats s).2]
      exact ⟨ha, hc⟩
    | _ => cases hp
  · obtain ⟨h1, h2⟩ := clock_frame s hp
    obtain ⟨h3, h4⟩ := next_clock_of_part k hp
    rw [Ticks, h1, h2, h3, h4]
    exact ⟨ha, hc⟩

theorem roi_cycles_le_step (e : Event cfg) : s.roi_cycles ≤ (step s e).roi_cycles := by
  have h := ticks_step (k := ⟨s.roi_active, s.roi_cycles, 0⟩) ⟨rfl, rfl⟩ e
  exact le_of_le_of_eq (cycles_le_next ⟨s.roi_active, s.roi_cycles, 0⟩ e) h.2

theorem roi_active_step {s : CHAOSCov cfg} {e : Event cfg} (h : s.roi_active = true) (he : e ≠ .workEnd) :
    (step s e).roi_active = true := by
  have ht := ticks_step (k := ⟨s.roi_active, s.roi_cycles, 0⟩) ⟨rfl, rfl⟩ e
  rw [← ht.1]
  cases e with
  | workEnd => exact absurd rfl he
  | _ => simp [Clock.next, h]

theorem roi_active_step_of_mode (h : cfg.roi_mode ≠ .m5ops) (s : CHAOSCov cfg) (e : Event cfg) :
    (step s e).roi_active = s.roi_active := by
  have ht := ticks_step (k := ⟨s.roi_active, s.roi_cycles, 0⟩) ⟨rfl, rfl⟩ e
  rw [← ht.1]
  cases e with
  | workBegin | workEnd => simp [Clock.next, h]
  | cycle | sliceCommit => simp only [Clock.next]; split <;> rfl
  | _ => rfl

end GemFI.Cov
