import GemFI.Cov.Timeline
import GemFI.Lib.Lifetime
import GemFI.Lib.Run

/-!
# Register file residency

The issue-read ledger (`irf_ace_cycles`) and the commit-read ledger (`irf_ace_commit_cycles`).  Each is a bank of
lifetime cells, one for each physical register: an event acts on it by its operation (`cell_step`, `ledger_step`), and
the library turns this into statements about runs.  In one ROI window both ledgers are the sum, over the values of
each register, of the time from the write to the last read (`irf_ledgers_eq_total`).
-/

namespace GemFI.Cov

open CHAOSCov Lifetime

variable {cfg : Config}

inductive ReadKind where
  | issue | commit
  deriving DecidableEq, Repr

def ReadKind.ledger : ReadKind → CHAOSCov cfg → RegCls → Nat
  | .issue, s => s.irf_ace_cycles
  | .commit, s => s.irf_ace_commit_cycles

def ReadKind.cell : ReadKind → PrfRegState → Option Live
  | .issue, st => if st.has_value then some ⟨st.birth, st.last_read, st.ever_read⟩ else none
  | .commit, st => if st.has_value then some ⟨st.birth, st.last_commit_read, st.ever_commit_read⟩ else none

/-- The operation of an event on the cell of a register, inside or outside a window. -/
def ReadKind.irfOp (κ : ReadKind) (active : Bool) : Event cfg → Option (Slot cfg × Op)
  | .irfWrite p => if active then some (p, .start) else none
  | .irfRead p => if active ∧ κ = .issue then some (p, .use true) else none
  | .irfCommitRead p => if active ∧ κ = .commit then some (p, .use true) else none
  | .irfAlloc p | .irfFree p => some (p, .stop)
  | _ => none

def onSlot (q : Slot cfg) (t : Nat) (x : Option (Slot cfg × Op)) : Option (Nat × Op) :=
  x.bind fun y => if y.1 = q then some (t, y.2) else none

def ReadKind.hookOp (κ : ReadKind) (s : CHAOSCov cfg) (e : Event cfg) (q : Slot cfg) : Option (Nat × Op) :=
  onSlot q s.roi_cycles (κ.irfOp s.roi_active e)

/-! ### One step -/

variable (κ : ReadKind) {s : CHAOSCov cfg}

theorem irfOp_of_part (active : Bool) {e : Event cfg} (h : e.part ≠ .irf) : κ.irfOp active e = none := by
  cases e with
  | irfWrite | irfRead | irfCommitRead | irfAlloc | irfFree => exact absurd rfl h
  | _ => rfl

private theorem cell_update (s : CHAOSCov cfg) (p q : Slot cfg) (st : PrfRegState) {t : Nat} {o : Op}
    (h : κ.cell st = next (κ.cell (s.irf_state p)) t o) :
    κ.cell (Function.update s.irf_state p st q) =
      after (κ.cell (s.irf_state q)) (onSlot q t (some (p, o))).toList := by
  by_cases hq : p = q
  · subst hq
    simp [onSlot, after, h]
  · simp [onSlot, hq, after, Function.update_of_ne (Ne.symm hq)]

private theorem cell_update_same (s : CHAOSCov cfg) (p q : Slot cfg) (st : PrfRegState)
    (h : κ.cell st = κ.cell (s.irf_state p)) :
    κ.cell (Function.update s.irf_state p st q) = κ.cell (s.irf_state q) := by
  by_cases hq : p = q
  · subst hq
    simp [h]
  · rw [Function.update_of_ne (Ne.symm hq)]

private theorem irfOnRead_live {p : Slot cfg} (ha : s.roi_active = true) (hv : (s.irf_state p).has_value = true) :
    (s.irfOnRead p).irf_state =
      Function.update s.irf_state p { s.irf_state p with ever_read := true, last_read := s.roi_cycles } ∧
    (s.irfOnRead p).irf_ace_cycles = Function.update s.irf_ace_cycles p.1
      (s.irf_ace_cycles p.1 + gain (ReadKind.issue.cell (s.irf_state p)) s.roi_cycles (.use true)) ∧
    (s.irfOnRead p).irf_ace_commit_cycles = s.irf_ace_commit_cycles := by
  cases hr : (s.irf_state p).ever_read <;>
    simp [irfOnRead, renameDistSample, ha, hv, hr, gain, ReadKind.cell, Live.anchor]

private theorem irfOnCommitRead_live {p : Slot cfg} (ha : s.roi_active = true) (hv : (s.irf_state p).has_value = true) :
    (s.irfOnCommitRead p).irf_state = Function.update s.irf_state p
      { s.irf_state p with ever_commit_read := true, last_commit_read := s.roi_cycles } ∧
    (s.irfOnCommitRead p).irf_ace_commit_cycles = Function.update s.irf_ace_commit_cycles p.1
      (s.irf_ace_commit_cycles p.1 + gain (ReadKind.commit.cell (s.irf_state p)) s.roi_cycles (.use true)) ∧
    (s.irfOnCommitRead p).irf_ace_cycles = s.irf_ace_cycles := by
  cases hr : (s.irf_state p).ever_commit_read <;>
    simp [irfOnCommitRead, ha, hv, hr, gain, ReadKind.cell, Live.anchor]

theorem cell_eq_none {st : PrfRegState} (hv : st.has_value = false) : κ.cell st = none := by
  cases κ <;> simp [ReadKind.cell, hv]

private theorem after_use_none (s : CHAOSCov cfg) (p q : Slot cfg) (t : Nat) (hv : (s.irf_state p).has_value = false) :
    after (κ.cell (s.irf_state q)) (onSlot q t (some (p, .use true))).toList = κ.cell (s.irf_state q) := by
  by_cases hq : p = q
  · subst hq
    simp [onSlot, after, cell_eq_none κ hv, next]
  · simp [onSlot, hq, after]

theorem cell_step (s : CHAOSCov cfg) (e : Event cfg) (q : Slot cfg) :
    κ.cell ((step s e).irf_state q) = after (κ.cell (s.irf_state q)) (κ.hookOp s e q).toList := by
  by_cases hp : e.part = .irf
  swap
  · rw [(irf_frame s hp).1, ReadKind.hookOp, irfOp_of_part κ _ hp]
    rfl
  cases e with
  | irfWrite p =>
    cases ha : s.roi_active with
    | false => simp [step, irfOnWrite, ReadKind.hookOp, ReadKind.irfOp, ha, onSlot, after]
    | true =>
      simp only [step, irfOnWrite, ReadKind.hookOp, ReadKind.irfOp, ha, Bool.not_true, Bool.false_eq_true, ↓reduceIte]
      exact cell_update κ s p q _ (by cases κ <;> rfl)
  | irfRead p =>
    cases ha : s.roi_active with
    | false => simp [step, irfOnRead, ReadKind.hookOp, ReadKind.irfOp, ha, onSlot, after]
    | true =>
      cases hv : (s.irf_state p).has_value with
      | false =>
        have hs : step s (.irfRead p) = s := by simp [step, irfOnRead, ha, hv]
        cases κ with
        | issue => rw [hs, ReadKind.hookOp, ha]; exact (after_use_none _ s p q _ hv).symm
        | commit => rw [hs, ReadKind.hookOp, ha]; rfl
      | true =>
        rw [step, (irfOnRead_live ha hv).1, ReadKind.hookOp, ha]
        cases κ with
        | issue => exact cell_update .issue s p q _ (by simp [ReadKind.cell, hv, next])
        | commit => exact cell_update_same .commit s p q _ rfl
  | irfCommitRead p =>
    cases ha : s.roi_active with
    | false => simp [step, irfOnCommitRead, ReadKind.hookOp, ReadKind.irfOp, ha, onSlot, after]
    | true =>
      cases hv : (s.irf_state p).has_value with
      | false =>
        have hs : step s (.irfCommitRead p) = s := by simp [step, irfOnCommitRead, ha, hv]
        cases κ with
        | issue => rw [hs, ReadKind.hookOp, ha]; rfl
        | commit => rw [hs, ReadKind.hookOp, ha]; exact (after_use_none _ s p q _ hv).symm
      | true =>
        rw [step, (irfOnCommitRead_live ha hv).1, ReadKind.hookOp, ha]
        cases κ with
        | issue => exact cell_update_same .issue s p q _ rfl
        | commit => exact cell_update .commit s p q _ (by simp [ReadKind.cell, hv, next])
  | irfAlloc p => exact cell_update κ s p q _ (by cases κ <;> rfl)
  | irfFree p => exact cell_update κ s p q _ (by cases κ <;> rfl)
  | _ => cases hp

def slotGain (cell : Slot cfg → Option Live) (c : RegCls) (t : Nat) : Option (Slot cfg × Op) → Nat
  | some (p, o) => if p.1 = c then gain (cell p) t o else 0
  | none => 0

theorem sum_onSlot (cell : Slot cfg → Option Live) (c : RegCls) (t : Nat) (x : Option (Slot cfg × Op)) :
    ∑ i : Fin (cfg.numPhysRegs c), charge (cell ⟨c, i⟩) (onSlot ⟨c, i⟩ t x).toList = slotGain cell c t x := by
  cases x with
  | none => exact Finset.sum_eq_zero fun i _ => rfl
  | some y =>
    obtain ⟨⟨c', j⟩, o⟩ := y
    by_cases hc : c' = c
    · subst hc
      rw [sum_charge_eq_single (fun i => cell ⟨c', i⟩) _ j fun i hi => by simp [onSlot, Ne.symm hi]]
      simp [onSlot, charge, slotGain]
    · rw [sum_charge_eq_zero (fun i => cell ⟨c, i⟩) _ fun i => by simp [onSlot, hc]]
      simp [slotGain, hc]

theorem update_ledger (a : RegCls → Nat) (p c : RegCls) (n : Nat) :
    Function.update a p (a p + n) c = a c + if p = c then n else 0 := by
  by_cases h : p = c
  · subst h; simp
  · simp [h, Function.update_of_ne (Ne.symm h)]

theorem ledger_step_gain (s : CHAOSCov cfg) (e : Event cfg) (c : RegCls) :
    κ.ledger (step s e) c =
      κ.ledger s c + slotGain (fun q => κ.cell (s.irf_state q)) c s.roi_cycles (κ.irfOp s.roi_active e) := by
  by_cases hp : e.part = .irf
  swap
  · obtain ⟨-, h1, h2, -⟩ := irf_frame s hp
    rw [irfOp_of_part κ _ hp]
    cases κ <;> simp [ReadKind.ledger, slotGain, h1, h2]
  cases e with
  | irfWrite p =>
    cases ha : s.roi_active <;> cases κ <;>
      simp [step, irfOnWrite, ha, ReadKind.irfOp, slotGain, ReadKind.ledger, gain]
  | irfRead p =>
    cases ha : s.roi_active with
    | false => cases κ <;> simp [step, irfOnRead, ha, ReadKind.irfOp, slotGain]
    | true =>
      cases hv : (s.irf_state p).has_value with
      | false =>
        cases κ <;> simp [step, irfOnRead, ha, hv, ReadKind.irfOp, slotGain, gain, cell_eq_none]
      | true =>
        obtain ⟨-, h1, h2⟩ := irfOnRead_live ha hv
        cases κ with
        | issue => simp [step, ReadKind.ledger, h1, ReadKind.irfOp, slotGain, update_ledger]
        | commit => simp [step, ReadKind.ledger, h2, ReadKind.irfOp, slotGain]
  | irfCommitRead p =>
    cases ha : s.roi_active with
    | false => cases κ <;> simp [step, irfOnCommitRead, ha, ReadKind.irfOp, slotGain]
    | true =>
      cases hv : (s.irf_state p).has_value with
      | false =>
        cases κ <;> simp [step, irfOnCommitRead, ha, hv, ReadKind.irfOp, slotGain, gain, cell_eq_none]
      | true =>
        obtain ⟨-, h1, h2⟩ := irfOnCommitRead_live ha hv
        cases κ with
        | issue => simp [step, ReadKind.ledger, h2, ReadKind.irfOp, slotGain]
        | commit => simp [step, ReadKind.ledger, h1, ReadKind.irfOp, slotGain, update_ledger]
  | irfAlloc p | irfFree p =>
    cases κ <;> simp [step, irfOnAlloc, irfOnFree, ReadKind.irfOp, slotGain, ReadKind.ledger, gain]
  | _ => cases hp

theorem ledger_step (s : CHAOSCov cfg) (e : Event cfg) (c : RegCls) :
    κ.ledger (step s e) c = κ.ledger s c +
      ∑ i : Fin (cfg.numPhysRegs c), charge (κ.cell (s.irf_state ⟨c, i⟩)) (κ.hookOp s e ⟨c, i⟩).toList := by
  rw [ledger_step_gain]
  exact congrArg _ (sum_onSlot (fun q => κ.cell (s.irf_state q)) c _ _).symm

/-! ### Runs -/

theorem cell_run (s : CHAOSCov cfg) (es : List (Event cfg)) (q : Slot cfg) :
    κ.cell ((run s es).irf_state q) = after (κ.cell (s.irf_state q)) (opsOf step κ.hookOp s es q) :=
  cell_foldl (fun s q => κ.cell (s.irf_state q)) (cell_step κ) s es q

theorem ledger_run (es : List (Event cfg)) (c : RegCls) :
    κ.ledger (run (fresh cfg) es) c =
      ∑ i : Fin (cfg.numPhysRegs c), charge none (opsOf step κ.hookOp (fresh cfg) es ⟨c, i⟩) := by
  have h := ledger_foldl (fun s i => κ.cell (s.irf_state ⟨c, i⟩)) (fun s => κ.ledger s c)
    (fun s e i => cell_step κ s e ⟨c, i⟩) (fun s e => ledger_step κ s e c) (fresh cfg) es
  have h0 : κ.ledger (fresh cfg) c = 0 := by cases κ <;> rfl
  have hcell : ∀ i, κ.cell ((fresh cfg).irf_state ⟨c, i⟩) = none := fun i => by cases κ <;> rfl
  simpa only [run, h0, hcell, Nat.zero_add, opsOf_comap step κ.hookOp (Sigma.mk c)] using h

/-! ### The meaning of the ledgers -/

/-- What an event means for the value in a register: a write in a window starts a value that counts, any write, alloc
or free ends the value before it. -/
def ReadKind.valueOp (κ : ReadKind) (counted : Clock → Bool) (x : Stamped cfg) : Option (Slot cfg × Op) :=
  match x.event with
  | .irfWrite p => some (p, if x.clock.active then .start else .stop)
  | .irfRead p => if x.clock.active ∧ κ = .issue then some (p, .use (counted x.clock)) else none
  | .irfCommitRead p => if x.clock.active ∧ κ = .commit then some (p, .use (counted x.clock)) else none
  | .irfAlloc p | .irfFree p => some (p, .stop)
  | _ => none

def ReadKind.valueOps (κ : ReadKind) (counted : Clock → Bool) (q : Slot cfg) (xs : List (Stamped cfg)) :
    List (Nat × Op) :=
  xs.filterMap fun x => onSlot q x.clock.cycles (κ.valueOp counted x)

theorem valueOps_cons (counted : Clock → Bool) (q : Slot cfg) (k : Clock) (e : Event cfg) (es : List (Event cfg)) :
    κ.valueOps counted q (stamp k (e :: es)) =
      (onSlot q k.cycles (κ.valueOp counted ⟨k, e⟩)).toList ++ κ.valueOps counted q (stamp (k.next e) es) := by
  rw [ReadKind.valueOps, stamp, List.filterMap_cons]
  cases onSlot q k.cycles (κ.valueOp counted ⟨k, e⟩) <;> rfl

theorem onSlot_time {q : Slot cfg} {t : Nat} {x : Option (Slot cfg × Op)} {o : Nat × Op} (h : onSlot q t x = some o) :
    o.1 = t := by
  obtain ⟨y, -, hy⟩ := Option.bind_eq_some_iff.1 h
  split at hy
  · exact (Option.some.inj hy) ▸ rfl
  · cases hy

theorem valueOps_timed (counted : Clock → Bool) (q : Slot cfg) (es : List (Event cfg)) :
    Timed 0 (κ.valueOps counted q (timeline es)) := by
  refine ⟨fun o _ => Nat.zero_le _, (stamp_ordered _ es).2.filterMap _ ?_⟩
  intro x y hxy a ha b hb
  rw [onSlot_time ha, onSlot_time hb]
  exact hxy

private theorem valueOps_counted {κ : ReadKind} {q : Slot cfg} {xs : List (Stamped cfg)} {o : Nat × Op}
    (ho : o ∈ κ.valueOps (fun _ => true) q xs) (huse : isUse o = true) : isCounted o = true := by
  obtain ⟨x, -, hx⟩ := List.mem_filterMap.1 ho
  obtain ⟨y, hy, hyo⟩ := Option.bind_eq_some_iff.1 hx
  split at hyo
  · cases Option.some.inj hyo
    obtain ⟨k, e⟩ := x
    cases e with
    | irfWrite p =>
      cases Option.some.inj hy
      cases hk : k.active <;> simp [hk, isUse] at huse
    | irfRead p | irfCommitRead p =>
      simp only [ReadKind.valueOp] at hy
      split at hy
      · cases Option.some.inj hy
        rfl
      · cases hy
    | irfAlloc p | irfFree p =>
      cases Option.some.inj hy
      cases huse
    | _ => cases hy
  · cases hyo

/-- A write outside a window finds no value in the register. -/
def Settled (s : CHAOSCov cfg) : Event cfg → Prop
  | .irfWrite q => s.roi_active = false → (s.irf_state q).has_value = false
  | _ => True

instance (s : CHAOSCov cfg) (e : Event cfg) : Decidable (Settled s e) := by
  rcases e
  case irfWrite q => exact inferInstanceAs (Decidable (s.roi_active = false → (s.irf_state q).has_value = false))
  all_goals exact .isTrue trivial

private theorem hookOp_eq_valueOp {k : Clock} (hk : Ticks k s) {e : Event cfg} (h : Settled s e) (q : Slot cfg) :
    after (κ.cell (s.irf_state q)) (onSlot q k.cycles (κ.valueOp (fun _ => true) ⟨k, e⟩)).toList =
      after (κ.cell (s.irf_state q)) (κ.hookOp s e q).toList ∧
    charge (κ.cell (s.irf_state q)) (onSlot q k.cycles (κ.valueOp (fun _ => true) ⟨k, e⟩)).toList =
      charge (κ.cell (s.irf_state q)) (κ.hookOp s e q).toList := by
  obtain ⟨ha, hc⟩ := hk
  cases e with
  | irfWrite p =>
    cases hact : s.roi_active with
    | true => simp [ReadKind.valueOp, ReadKind.hookOp, ReadKind.irfOp, ha, hc, hact]
    | false =>
      by_cases hq : p = q
      · subst hq
        simp [ReadKind.valueOp, ReadKind.hookOp, ReadKind.irfOp, ha, hact, onSlot, after, charge, next, gain,
          cell_eq_none κ (h hact)]
      · simp [ReadKind.valueOp, ReadKind.hookOp, ReadKind.irfOp, ha, hact, onSlot, hq]
  | irfRead p | irfCommitRead p | irfAlloc p | irfFree p =>
    simp [ReadKind.valueOp, ReadKind.hookOp, ReadKind.irfOp, ha, hc]
  | _ => exact ⟨rfl, rfl⟩

theorem charge_valueOps {k : Clock} (hk : Ticks k s) {es : List (Event cfg)} (h : Along step Settled s es)
    (q : Slot cfg) :
    charge (κ.cell (s.irf_state q)) (κ.valueOps (fun _ => true) q (stamp k es)) =
      charge (κ.cell (s.irf_state q)) (opsOf step κ.hookOp s es q) := by
  induction es generalizing k s with
  | nil => rfl
  | cons e es ih =>
    obtain ⟨h1, h2⟩ := hookOp_eq_valueOp κ hk h.1 q
    rw [valueOps_cons, opsOf, charge_append, charge_append, h1, h2, ← cell_step, ih (ticks_step hk e) h.2]

/-! ### One window -/

theorem cell_eq_none_iff {st : PrfRegState} : κ.cell st = none ↔ st.has_value = false := by
  cases κ <;> simp [ReadKind.cell]

private theorem cell_step_inactive (ha : s.roi_active = false) (e : Event cfg) {q : Slot cfg}
    (hq : ReadKind.issue.cell (s.irf_state q) = none) : ReadKind.issue.cell ((step s e).irf_state q) = none := by
  rw [cell_step, hq, ReadKind.hookOp, ha]
  cases e with
  | irfAlloc p | irfFree p =>
    by_cases hp : p = q <;> simp [ReadKind.irfOp, onSlot, hp, after, next]
  | _ => rfl

private theorem settled_of_no_workEnd {es : List (Event cfg)} (h : Event.workEnd ∉ es)
    (hs : s.roi_active = false → ∀ q, ReadKind.issue.cell (s.irf_state q) = none) : Along step Settled s es := by
  induction es generalizing s with
  | nil => trivial
  | cons e es ih =>
    rw [List.mem_cons, not_or] at h
    refine ⟨?_, ih h.2 fun ha q => ?_⟩
    · cases e with
      | irfWrite q => exact fun ha => (cell_eq_none_iff .issue).1 (hs ha q)
      | _ => trivial
    have hin : s.roi_active = false := by
      by_contra hact
      rw [roi_active_step (by simpa using hact) (Ne.symm h.1)] at ha
      cases ha
    exact cell_step_inactive hin e (hs hin q)

private theorem ledger_eq_total {es : List (Event cfg)} (h : Event.workEnd ∉ es) (c : RegCls) :
    κ.ledger (run (fresh cfg) es) c =
      ∑ i : Fin (cfg.numPhysRegs c), total (κ.valueOps (fun _ => true) ⟨c, i⟩ (timeline es)) := by
  rw [ledger_run]
  refine Finset.sum_congr rfl fun i _ => ?_
  have hset : Along step Settled (fresh cfg) es := settled_of_no_workEnd h fun _ _ => rfl
  have hcharge := charge_valueOps κ (ticks_fresh cfg) hset ⟨c, i⟩
  have hcell : κ.cell ((fresh cfg).irf_state ⟨c, i⟩) = none := (cell_eq_none_iff κ).2 rfl
  rw [hcell] at hcharge
  rw [← hcharge, timeline]
  exact charge_eq_total (valueOps_timed κ _ _ es) fun o ho huse => valueOps_counted ho huse

/-- In one ROI window of a fresh analyzer the issue-read and the commit-read ledger of a class are the sums, over all
values of all its registers, of the cycles from the write of the value to its last read. -/
theorem irf_ledgers_eq_total (es : List (Event cfg)) (h : Event.workEnd ∉ es) (c : RegCls) :
    (run (fresh cfg) es).irf_ace_cycles c =
      ∑ i : Fin (cfg.numPhysRegs c), total (ReadKind.issue.valueOps (fun _ => true) ⟨c, i⟩ (timeline es)) ∧
    (run (fresh cfg) es).irf_ace_commit_cycles c =
      ∑ i : Fin (cfg.numPhysRegs c), total (ReadKind.commit.valueOps (fun _ => true) ⟨c, i⟩ (timeline es)) :=
  ⟨ledger_eq_total .issue h c, ledger_eq_total .commit h c⟩

/-- A value written in cycle 0 and read in cycles 1 and 3 counts three cycles; its commit read in cycle 2 counts two. -/
theorem irf_ledgers_eq_total_tiny :
    let r : Slot tiny := ⟨.int, 1⟩
    let es : List (Event tiny) := [.workBegin, .irfWrite r, .tick, .irfRead r, .tick, .irfCommitRead r, .tick,
      .irfRead r, .irfFree r, .tick, .irfRead r]
    Event.workEnd ∉ es ∧ (run (fresh tiny) es).irf_ace_cycles .int = 3 ∧
      (run (fresh tiny) es).irf_ace_commit_cycles .int = 2 :=
  ⟨by decide, (irf_ledgers_eq_total _ (by decide) .int).1.trans (by decide),
    (irf_ledgers_eq_total _ (by decide) .int).2.trans (by decide)⟩

end GemFI.Cov
