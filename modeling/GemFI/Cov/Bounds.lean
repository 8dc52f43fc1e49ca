import GemFI.Cov.Cache
import GemFI.Cov.Irf
import GemFI.Cov.StoreQueue

/-!
# Bounds on the ledgers

What the handlers add to a ledger are differences `now - since` (`intervals`, `cycles_run`).  In every state that a
run reaches, `since` is not after `now`, so no difference wraps, and the ledgers stay below the number of their cells
times the elapsed cycles (`ledgers_le`).
-/

namespace GemFI.Cov

open CHAOSCov Lifetime

variable {cfg : Config}

inductive Ledger where
  | irf (κ : ReadKind) (c : RegCls)
  | sq (φ : SqFace)
  | sqAggregate
  | cache (c : Nat)
  deriving DecidableEq, Repr

def Ledger.cycles (s : CHAOSCov cfg) : Ledger → Nat
  | .irf κ c => κ.ledger s c
  | .sq φ => φ.ledger s
  | .sqAggregate => s.sq_ace_cycles
  | .cache c => aceCycles s c

/-- The difference `now - since` that a handler adds to a ledger. -/
structure Interval where
  ledger : Ledger
  now : Nat
  since : Nat
  deriving DecidableEq, Repr

def Interval.length (x : Interval) : Nat := x.now - x.since

/-- The cycle from which the next read of a register is charged. -/
def ReadKind.since (κ : ReadKind) (s : CHAOSCov cfg) (q : Slot cfg) : Option Nat :=
  (κ.cell (s.irf_state q)).map Live.anchor

/-- The cycle from which the next use of a slot of the store queue is charged. -/
def SqFace.since (φ : SqFace) (s : CHAOSCov cfg) (slot_idx : Nat) : Option Nat :=
  if h : slot_idx < cfg.sq_entries then (φ.cell (s.sq_state ⟨slot_idx, h⟩)).map Live.anchor else none

def difference (l : Ledger) (now : Nat) (since : Option Nat) : List Interval :=
  (since.map fun t => ⟨l, now, t⟩).toList

def intervals (s : CHAOSCov cfg) (e : Event cfg) : List Interval :=
  if !s.roi_active then []
  else
    let now := s.roi_cycles
    match e with
    | .irfRead q => difference (.irf .issue q.1) now (ReadKind.issue.since s q)
    | .irfCommitRead q => difference (.irf .commit q.1) now (ReadKind.commit.since s q)
    | .sqConsume i =>
      difference .sqAggregate now s.harp_sq_open.head? ++ difference (.sq .wb) now (SqFace.wb.since s i)
    | .sqForward i => difference (.sq .fwd) now (SqFace.fwd.since s i)
    | .cacheRead c b => difference (.cache c) now (openSince s c b)
    | _ => []

def added (l : Ledger) (xs : List Interval) : Nat :=
  ((xs.filter fun x => decide (x.ledger = l)).map Interval.length).sum

/-! ### The differences make up the ledgers -/

private theorem added_nil (l : Ledger) : added l [] = 0 := rfl

private theorem added_append (l : Ledger) (xs ys : List Interval) : added l (xs ++ ys) = added l xs + added l ys := by
  simp [added]

private theorem added_difference (l l' : Ledger) (now : Nat) (since : Option Nat) :
    added l (difference l' now since) = if l' = l then (since.map (now - ·)).getD 0 else 0 := by
  cases since with
  | none => simp [added, difference]
  | some t => by_cases h : l' = l <;> simp [added, difference, h, Interval.length]

private theorem gain_use (c : Option Live) (t : Nat) :
    gain c t (.use true) = ((c.map Live.anchor).map (t - ·)).getD 0 := by
  cases c <;> rfl

variable (s : CHAOSCov cfg)

variable (φ : SqFace) (κ : ReadKind) (es : List (Event cfg)) (e : Event cfg)

private theorem irf_added (κ : ReadKind) (c : RegCls) :
    added (.irf κ c) (intervals s e) =
      slotGain (fun q => κ.cell (s.irf_state q)) c s.roi_cycles (κ.irfOp s.roi_active e) := by
  cases ha : s.roi_active with
  | false => cases e <;> simp [intervals, ha, added_nil, ReadKind.irfOp, slotGain, gain]
  | true =>
    cases e with
    | irfRead q | irfCommitRead q =>
      cases κ <;> simp [intervals, ha, added_difference, ReadKind.irfOp, slotGain, ReadKind.since, gain_use]
    | sqConsume i => simp [intervals, ha, added_append, added_difference, ReadKind.irfOp, slotGain]
    | sqForward i | cacheRead c b => simp [intervals, ha, added_difference, ReadKind.irfOp, slotGain]
    | _ => simp [intervals, added_nil, ReadKind.irfOp, slotGain, gain]

private theorem sq_added (φ : SqFace) :
    added (.sq φ) (intervals s e) =
      entryGain (fun j => φ.cell (s.sq_state j)) s.roi_cycles (φ.sqOp s.roi_active e) := by
  have hgain : ∀ ψ : SqFace, ∀ i, ((ψ.since s i).map (s.roi_cycles - ·)).getD 0 =
      entryGain (fun j => ψ.cell (s.sq_state j)) s.roi_cycles (some (i, .use true)) := by
    intro ψ i
    by_cases hi : i < cfg.sq_entries <;> simp [SqFace.since, entryGain, hi, gain_use]
  cases ha : s.roi_active with
  | false => cases e <;> simp [intervals, ha, added_nil, SqFace.sqOp, entryGain]
  | true =>
    cases e with
    | sqConsume i =>
      cases φ <;> simp [intervals, ha, added_append, added_difference, SqFace.sqOp, hgain, entryGain]
    | sqForward i =>
      cases φ <;> simp [intervals, ha, added_difference, SqFace.sqOp, hgain, entryGain]
    | irfRead q | irfCommitRead q | cacheRead c b => simp [intervals, ha, added_difference, SqFace.sqOp, entryGain]
    | _ => simp [intervals, added_nil, SqFace.sqOp, entryGain, gain]

private theorem aggregate_step : (step s e).sq_ace_cycles = s.sq_ace_cycles + added .sqAggregate (intervals s e) := by
  by_cases hp : e.part = .sq
  swap
  · rw [(sq_frame s hp).2.2.1]
    cases e with
    | irfRead q | irfCommitRead q | cacheRead c b =>
      cases ha : s.roi_active <;> simp [intervals, ha, added_nil, added_difference]
    | sqWrite | sqConsume | sqFree | sqForward => exact absurd rfl hp
    | _ => simp [intervals, added_nil]
  cases ha : s.roi_active with
  | false =>
    rw [step_sq_inactive ha hp]
    simp [intervals, ha, added_nil]
  | true =>
    cases e with
    | sqWrite i => simp [step, (sqOnWrite_fields ha i).2.2.1, intervals, added_nil]
    | sqFree i => simp [step, (sqOnFree_fields ha i).2.2.1, intervals, added_nil]
    | sqForward i => simp [step, (sqOnForward_fields ha i).2.2.1, intervals, ha, added_difference]
    | sqConsume i =>
      simp [step, (sqOnConsume_fields ha i).2.2.1, intervals, ha, added_append, added_difference, popGain]
    | _ => cases hp

private theorem cache_added (c : Nat) : added (.cache c) (intervals s e) = readGain s c e := by
  cases ha : s.roi_active with
  | false => cases e <;> simp [intervals, ha, added_nil, readGain]
  | true =>
    cases e with
    | cacheRead c' b => by_cases hc : c' = c <;> simp [intervals, ha, added_difference, readGain, hc]
    | sqConsume i => simp [intervals, ha, added_append, added_difference, readGain]
    | irfRead q | irfCommitRead q | sqForward i => simp [intervals, ha, added_difference, readGain]
    | _ => simp [intervals, added_nil, readGain]

/-- An event adds to a ledger the differences that its handler evaluates for it. -/
theorem cycles_step (l : Ledger) : l.cycles (step s e) = l.cycles s + added l (intervals s e) := by
  cases l with
  | irf κ c => rw [irf_added]; exact ledger_step_gain κ s e c
  | sq φ =>
    rw [sq_added, ← sum_onEntry]
    exact sqLedger_step φ s e
  | sqAggregate => exact aggregate_step s e
  | cache c => rw [cache_added]; exact aceCycles_step s e c

def runIntervals : CHAOSCov cfg → List (Event cfg) → List Interval
  | _, [] => []
  | s, e :: es => intervals s e ++ runIntervals (step s e) es

theorem cycles_run (l : Ledger) : l.cycles (run s es) = l.cycles s + added l (runIntervals s es) := by
  induction es generalizing s with
  | nil => rfl
  | cons e es ih =>
    rw [runIntervals, added_append, ← Nat.add_assoc, ← cycles_step]
    exact ih (step s e)

/-! ### The ledgers are bounded -/

private theorem irf_ledger_le (c : RegCls) :
    κ.ledger (run (fresh cfg) es) c ≤ cfg.numPhysRegs c * (run (fresh cfg) es).roi_cycles := by
  have h := sum_charge_le (fun s e (i : Fin (cfg.numPhysRegs c)) => κ.hookOp s e ⟨c, i⟩)
    (fun _ _ _ _ h => onSlot_time h) roi_cycles_le_step (fresh cfg) es
  rw [Fintype.card_fin] at h
  rw [ledger_run]
  simpa only [opsOf_comap step κ.hookOp (Sigma.mk c), run] using h

private theorem sq_ledger_le : φ.ledger (run (fresh cfg) es) ≤ cfg.sq_entries * (run (fresh cfg) es).roi_cycles := by
  have h := ledger_foldl (fun s j => φ.cell (s.sq_state j)) φ.ledger (sqCell_step φ) (sqLedger_step φ) (fresh cfg) es
  have h0 : φ.ledger (fresh cfg) = 0 := by cases φ <;> rfl
  have hcell : ∀ j, φ.cell ((fresh cfg).sq_state j) = none := fun j => by cases φ <;> rfl
  simp only [h0, hcell, Nat.zero_add] at h
  rw [run, h]
  simpa using sum_charge_le φ.hookOp (fun _ _ _ _ h => onEntry_time h) roi_cycles_le_step (fresh cfg) es

private theorem cache_ledger_le {led : CacheLedger} (h : led ∈ (run (fresh cfg) es).cache_ledgers) :
    led.ace_cycles ≤ led.state.keys.length * (run (fresh cfg) es).roi_cycles :=
  have hinv := ledgerInv_run es led h
  Nat.le_trans hinv.charged (keySum_le hinv.past)

/-! ### No difference wraps -/

private theorem irf_since_le (q : Slot cfg) {t : Nat}
    (h : κ.since (run (fresh cfg) es) q = some t) : t ≤ (run (fresh cfg) es).roi_cycles := by
  obtain ⟨l, hl, rfl⟩ := Option.map_eq_some_iff.1 h
  have hnone : κ.cell ((fresh cfg).irf_state q) = none := by cases κ <;> rfl
  rw [cell_run, hnone] at hl
  exact anchor_after_le (timed_opsOf (fun _ _ _ _ h => onSlot_time h) roi_cycles_le_step (fresh cfg) es q).2.1 hl

private theorem sq_since_le (i : Nat) {t : Nat}
    (h : φ.since (run (fresh cfg) es) i = some t) : t ≤ (run (fresh cfg) es).roi_cycles := by
  unfold SqFace.since at h
  split at h
  case isFalse => cases h
  case isTrue hi =>
    obtain ⟨l, hl, rfl⟩ := Option.map_eq_some_iff.1 h
    have hrun := cell_foldl (fun s j => φ.cell (s.sq_state j)) (sqCell_step φ) (fresh cfg) es ⟨i, hi⟩
    have hnone : φ.cell ((fresh cfg).sq_state ⟨i, hi⟩) = none := by cases φ <;> rfl
    rw [hnone] at hrun
    exact anchor_after_le (timed_opsOf (fun _ _ _ _ h => onEntry_time h) roi_cycles_le_step (fresh cfg) es _).2.1
      (hrun.symm.trans hl)

private theorem open_past_step (h : ∀ b ∈ s.harp_sq_open, b ≤ s.roi_cycles) :
    ∀ b ∈ (step s e).harp_sq_open, b ≤ (step s e).roi_cycles := by
  intro b hb
  refine Nat.le_trans ?_ (roi_cycles_le_step s e)
  by_cases hp : e.part = .sq
  swap
  · rw [(sq_frame s hp).2.1] at hb
    exact h b hb
  cases ha : s.roi_active with
  | false =>
    rw [step_sq_inactive ha hp] at hb
    exact h b hb
  | true =>
    cases e with
    | sqWrite i =>
      rw [step, (sqOnWrite_fields ha i).2.1, List.mem_append, List.mem_singleton] at hb
      rcases hb with hb | rfl
      · exact h b hb
      · exact Nat.le_refl _
    | sqConsume i => exact h b (List.mem_of_mem_tail (by simpa [step, (sqOnConsume_fields ha i).2.1] using hb))
    | sqFree i => exact h b (List.mem_of_mem_tail (by simpa [step, (sqOnFree_fields ha i).2.1] using hb))
    | sqForward i => exact h b (by simpa [step, (sqOnForward_fields ha i).2.1] using hb)
    | _ => cases hp

private theorem open_past_run : ∀ b ∈ (run (fresh cfg) es).harp_sq_open, b ≤ (run (fresh cfg) es).roi_cycles :=
  List.foldlRecOn (motive := fun s : CHAOSCov cfg => ∀ b ∈ s.harp_sq_open, b ≤ s.roi_cycles) es step
    (fun _ hb => by cases hb) fun s hs e _ => open_past_step s e hs

private theorem difference_ordered {l : Ledger} {now : Nat} {since : Option Nat} (h : ∀ t, since = some t → t ≤ now) :
    ∀ x ∈ difference l now since, x.since ≤ x.now := by
  intro x hx
  obtain ⟨t, ht, rfl⟩ : ∃ t, since = some t ∧ _ = x := by simpa [difference] using hx
  exact h t ht

private theorem intervals_ordered : ∀ x ∈ intervals (run (fresh cfg) es) e, x.since ≤ x.now := by
  intro x hx
  unfold intervals at hx
  split at hx
  · cases hx
  cases e with
  | irfRead q => exact difference_ordered (fun _ => irf_since_le .issue es q) x hx
  | irfCommitRead q => exact difference_ordered (fun _ => irf_since_le .commit es q) x hx
  | sqConsume i =>
    rcases List.mem_append.1 hx with hx | hx
    · exact difference_ordered (fun t ht => open_past_run es t (List.mem_of_head? ht)) x hx
    · exact difference_ordered (fun _ => sq_since_le .wb es i) x hx
  | sqForward i => exact difference_ordered (fun _ => sq_since_le .fwd es i) x hx
  | cacheRead c b => exact difference_ordered (fun _ => openSince_le es) x hx
  | _ => cases hx

/-- In every state that a run reaches, each ledger is at most the number of its cells times the elapsed cycles, and no
difference of the next event is below zero. -/
theorem ledgers_le (es : List (Event cfg)) :
    let s := run (fresh cfg) es
    (∀ c, s.irf_ace_cycles c ≤ cfg.numPhysRegs c * s.roi_cycles ∧
      s.irf_ace_commit_cycles c ≤ cfg.numPhysRegs c * s.roi_cycles) ∧
    s.sq_fwd_ace_cycles ≤ cfg.sq_entries * s.roi_cycles ∧ s.sq_wb_ace_cycles ≤ cfg.sq_entries * s.roi_cycles ∧
    (∀ led ∈ s.cache_ledgers, led.ace_cycles ≤ led.state.keys.length * s.roi_cycles) ∧
    ∀ e, ∀ x ∈ intervals s e, x.since ≤ x.now :=
  ⟨fun c => ⟨irf_ledger_le .issue es c, irf_ledger_le .commit es c⟩, sq_ledger_le .fwd es, sq_ledger_le .wb es,
    fun _ h => cache_ledger_le es h, intervals_ordered es⟩

end GemFI.Cov
