import GemFI.Cov.Irf
import GemFI.Cov.Slice

/-!
# The event log and its replay

The analyzer logs the writes and the commit reads of the registers (`logged`), up to the capacity of the log.  Its
cycles never go back, so the stable sort of `solveSliceAndSdc` keeps the order (`sdc_events_sorted`), and the replay
is a bank of lifetime cells in which the reads of marked nodes count (`replay_ace`).
-/

namespace GemFI.Cov

open CHAOSCov Lifetime

variable {cfg : Config} (nodes : List SliceNode)

/-! ### The log -/

def logged (s : CHAOSCov cfg) : Event cfg → Option (SdcEvent cfg)
  | .irfWrite q =>
    if s.roi_active ∧ s.sdc_events.length < eventCap then some ⟨true, q, -1, s.roi_cycles⟩ else none
  | .irfCommitRead q =>
    if s.roi_active ∧ (s.irf_state q).has_value ∧ s.sdc_events.length < eventCap ∧ s.slice_nodes ≠ [] then
      some ⟨false, q, (s.slice_nodes.length : Int) - 1, s.roi_cycles⟩
    else none
  | _ => none

variable (r : Replay cfg) (s : CHAOSCov cfg) (es : List (Event cfg))

theorem sdc_events_step (e : Event cfg) : (step s e).sdc_events = s.sdc_events ++ (logged s e).toList := by
  by_cases hp : e.part = .irf
  swap
  · rw [(irf_frame s hp).2.2.2]
    cases e with
    | irfWrite | irfRead | irfCommitRead | irfAlloc | irfFree => exact absurd rfl hp
    | _ => simp [logged]
  cases e with
  | irfWrite q =>
    cases ha : s.roi_active with
    | false => simp [step, irfOnWrite, logged, ha]
    | true =>
      simp only [step, irfOnWrite, logged, ha, Bool.not_true, Bool.false_eq_true, true_and, ↓reduceIte]
      split <;> simp
  | irfRead q =>
    cases ha : s.roi_active <;> cases hv : (s.irf_state q).has_value <;>
      cases hr : (s.irf_state q).ever_read <;> simp [step, irfOnRead, renameDistSample, logged, ha, hv, hr]
  | irfCommitRead q =>
    cases ha : s.roi_active with
    | false => simp [step, irfOnCommitRead, logged, ha]
    | true =>
      cases hv : (s.irf_state q).has_value with
      | false => simp [step, irfOnCommitRead, logged, ha, hv]
      | true =>
        simp only [step, irfOnCommitRead, logged, ha, hv, Bool.not_true, Bool.false_eq_true, true_and, ↓reduceIte]
        split <;> simp
  | irfAlloc q | irfFree q => simp [step, irfOnAlloc, irfOnFree, logged]
  | _ => cases hp

theorem logged_cycle {s : CHAOSCov cfg} {e : Event cfg} {ev : SdcEvent cfg} (h : logged s e = some ev) :
    ev.cycle = s.roi_cycles := by
  cases e with
  | irfWrite q | irfCommitRead q =>
    simp only [logged] at h
    split at h
    · cases h
      rfl
    · cases h
  | _ => cases h

def logOf (s : CHAOSCov cfg) : List (Event cfg) → List (SdcEvent cfg)
  | [] => []
  | e :: es => (logged s e).toList ++ logOf (step s e) es

theorem sdc_events_run : (run s es).sdc_events = s.sdc_events ++ logOf s es := by
  induction es generalizing s with
  | nil => simp [run, logOf]
  | cons e es ih => rw [logOf, ← List.append_assoc, ← sdc_events_step]; exact ih (step s e)

private theorem logOf_sorted :
    (∀ ev ∈ logOf s es, s.roi_cycles ≤ ev.cycle) ∧ (logOf s es).Pairwise fun a b => a.cycle ≤ b.cycle := by
  induction es generalizing s with
  | nil => exact ⟨by simp [logOf], .nil⟩
  | cons e es ih =>
    obtain ⟨h1, h2⟩ := ih (step s e)
    have h3 : ∀ ev ∈ logOf (step s e) es, s.roi_cycles ≤ ev.cycle := fun ev hev =>
      Nat.le_trans (roi_cycles_le_step s e) (h1 ev hev)
    cases hl : logged s e with
    | none => simpa only [logOf, hl, Option.toList_none, List.nil_append] using ⟨h3, h2⟩
    | some ev =>
      have hc := logged_cycle hl
      simp only [logOf, hl, Option.toList_some, List.singleton_append, List.forall_mem_cons, List.pairwise_cons, hc]
      exact ⟨⟨Nat.le_refl _, h3⟩, h3, h2⟩

theorem sdc_events_sorted : (run (fresh cfg) es).sdc_events.Pairwise fun a b => a.cycle ≤ b.cycle := by
  rw [sdc_events_run]
  exact (logOf_sorted (fresh cfg) es).2

theorem logOf_full {s : CHAOSCov cfg} (h : eventCap ≤ s.sdc_events.length) (es : List (Event cfg)) :
    logOf s es = [] := by
  induction es generalizing s with
  | nil => rfl
  | cons e es ih =>
    have hnone : logged s e = none := by
      cases e with
      | irfWrite q | irfCommitRead q =>
        have : ¬ s.sdc_events.length < eventCap := Nat.not_lt.2 h
        simp [logged, this]
      | _ => rfl
    rw [logOf, hnone, ih]
    · rfl
    · rw [sdc_events_step, hnone, Option.toList_none, List.append_nil]
      exact h

/-! ### The replay -/

/-- A logged event as an operation on a cell, where `m` says which nodes are marked. -/
def SdcEvent.op (m : Int → Bool) (ev : SdcEvent cfg) : Slot cfg × Op :=
  (ev.slot, if ev.is_write then .start else .use (m ev.node))

def logOps (m : Int → Bool) (q : Slot cfg) (log : List (SdcEvent cfg)) : List (Nat × Op) :=
  log.filterMap fun ev => onSlot q ev.cycle (some (ev.op m))

def SdcSlot.cell (st : SdcSlot) : Option Live :=
  if st.has_value then some ⟨st.birth, st.last_read, st.ever_read⟩ else none

private theorem sdcCell_step (ev : SdcEvent cfg) (q : Slot cfg) :
    SdcSlot.cell ((replayEvent nodes r ev).sdc_st q) =
      after (SdcSlot.cell (r.sdc_st q)) (onSlot q ev.cycle (some (ev.op (onPath nodes)))).toList := by
  by_cases hq : ev.slot = q
  · subst hq
    cases hw : ev.is_write with
    | true => simp [replayEvent, hw, onSlot, SdcEvent.op, after, next, SdcSlot.cell]
    | false =>
      cases hv : (r.sdc_st ev.slot).has_value <;> cases hm : onPath nodes ev.node <;>
        simp [replayEvent, hw, hv, hm, onSlot, SdcEvent.op, after, next, SdcSlot.cell]
  · cases hw : ev.is_write <;> cases hv : (r.sdc_st ev.slot).has_value <;> cases hm : onPath nodes ev.node <;>
      simp [replayEvent, hw, hv, hm, onSlot, SdcEvent.op, after, hq, Function.update_of_ne (Ne.symm hq)]

private theorem sdcLedger_step (ev : SdcEvent cfg) (c : RegCls) :
    (replayEvent nodes r ev).ace c = r.ace c + ∑ i : Fin (cfg.numPhysRegs c), charge
      (SdcSlot.cell (r.sdc_st ⟨c, i⟩)) (onSlot ⟨c, i⟩ ev.cycle (some (ev.op (onPath nodes)))).toList := by
  rw [sum_onSlot (fun q => SdcSlot.cell (r.sdc_st q))]
  cases hw : ev.is_write with
  | true => simp [replayEvent, hw, slotGain, SdcEvent.op, gain]
  | false =>
    cases hv : (r.sdc_st ev.slot).has_value with
    | false => cases hm : onPath nodes ev.node <;> simp [replayEvent, hw, hv, hm, slotGain, SdcEvent.op, gain, SdcSlot.cell]
    | true =>
      cases hm : onPath nodes ev.node with
      | false => simp [replayEvent, hw, hv, hm, slotGain, SdcEvent.op, gain]
      | true =>
        cases hr : (r.sdc_st ev.slot).ever_read <;>
          simp [replayEvent, hw, hv, hm, hr, slotGain, SdcEvent.op, gain, SdcSlot.cell, Live.anchor, update_ledger]

private theorem opsOf_replay (log : List (SdcEvent cfg)) (q : Slot cfg) :
    opsOf (replayEvent nodes) (fun _ ev q => onSlot q ev.cycle (some (ev.op (onPath nodes)))) r log q =
      logOps (onPath nodes) q log := by
  induction log generalizing r with
  | nil => rfl
  | cons ev log ih =>
    rw [opsOf, ih, logOps, logOps, List.filterMap_cons]
    cases onSlot q ev.cycle (some (ev.op (onPath nodes))) <;> rfl

theorem replay_ace {log : List (SdcEvent cfg)} (hlog : log.Pairwise fun a b => a.cycle ≤ b.cycle) (c : RegCls) :
    (replay nodes log).ace c = ∑ i : Fin (cfg.numPhysRegs c), charge none (logOps (onPath nodes) ⟨c, i⟩ log) := by
  have h := ledger_foldl (fun (r : Replay cfg) i => SdcSlot.cell (r.sdc_st ⟨c, i⟩)) (fun r => r.ace c)
    (fun r ev i => sdcCell_step nodes r ev ⟨c, i⟩) (fun r ev => sdcLedger_step nodes r ev c) {} log
  rw [replay, hlog.insertionSort_eq, h]
  simp only [SdcSlot.cell, Bool.false_eq_true, ↓reduceIte, Nat.zero_add]
  refine Finset.sum_congr rfl fun i _ => ?_
  rw [opsOf_comap (replayEvent nodes) (fun _ ev q => onSlot q ev.cycle (some (ev.op (onPath nodes)))) (Sigma.mk c),
    opsOf_replay]

end GemFI.Cov
