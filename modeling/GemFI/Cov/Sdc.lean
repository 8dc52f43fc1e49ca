import GemFI.Cov.Finish

/-!
# The SDC ledger

`irf_ace_sdc_cycles` is recomputed from the log by the replay; `irf_ace_commit_cycles` is kept online.  The replay
holds the values that the online cells hold and charges no later uses (`lags_step`), so the SDC ledger never exceeds
the commit ledger, whatever was logged (`sdc_le_commit`).

The SDC ledger is meant to be the sum, over the values written in a window, of the time from the write to the last
commit read on the slice (`sdcMeaning`).  The replay moves `last_read` with every read, so cycles get lost if a read
off the slice falls between two reads on it (`gapCycles`).  A write outside of the windows is not noticed, so the
value before it may be charged in a later window (`staleCycles`).  The ledger has its meaning exactly when these
cycles are equal in number (`sdc_eq_meaning_iff`).
-/

namespace GemFI.Cov

open CHAOSCov Lifetime

variable {cfg : Config} (m : Int → Bool) {q : Slot cfg} {s : CHAOSCov cfg}

private theorem logOps_append (q : Slot cfg) (xs ys : List (SdcEvent cfg)) :
    logOps m q (xs ++ ys) = logOps m q xs ++ logOps m q ys := List.filterMap_append

private theorem logOps_some (p q : Slot cfg) (w : Bool) (n : Int) (t : Nat) :
    logOps m q [⟨w, p, n, t⟩] = if p = q then [(t, if w then .start else .use (m n))] else [] := by
  by_cases h : p = q <;> simp [logOps, onSlot, SdcEvent.op, h]

private theorem onSlot_toList (p q : Slot cfg) (t : Nat) (o : Op) :
    (onSlot q t (some (p, o))).toList = if p = q then [(t, o)] else [] := by
  by_cases h : p = q <;> simp [onSlot, h]

private theorem logOps_other (s : CHAOSCov cfg) {p q : Slot cfg} (hq : ¬p = q) :
    logOps m q (logged s (.irfWrite p)).toList = [] ∧ logOps m q (logged s (.irfCommitRead p)).toList = [] := by
  constructor <;>
  · simp only [logged]
    split
    · simp [logOps_some, hq]
    · rfl

/-! ### The replay stays behind the commit ledger -/

private theorem last_le_step (h : ∀ l, ReadKind.commit.cell (s.irf_state q) = some l → l.last ≤ s.roi_cycles)
    (e : Event cfg) :
    ∀ l, ReadKind.commit.cell ((step s e).irf_state q) = some l → l.last ≤ (step s e).roi_cycles := by
  intro l hl
  refine Nat.le_trans ?_ (roi_cycles_le_step s e)
  rw [cell_step] at hl
  cases ho : ReadKind.commit.hookOp s e q with
  | none => rw [ho] at hl; exact h l hl
  | some x =>
    rw [ho] at hl
    have ht : x.1 = s.roi_cycles := onSlot_time ho
    simp only [Option.toList_some, after, List.foldl_cons, List.foldl_nil, ht] at hl
    exact next_last_le hl

private theorem lags_step {rep : Option Live}
    (hlast : ∀ l, ReadKind.commit.cell (s.irf_state q) = some l → l.last ≤ s.roi_cycles)
    (hlag : Lags (ReadKind.commit.cell (s.irf_state q)) rep) (hroom : s.sdc_events.length < eventCap) (e : Event cfg) :
    Lags (ReadKind.commit.cell ((step s e).irf_state q)) (after rep (logOps m q (logged s e).toList)) ∧
    charge rep (logOps m q (logged s e).toList) + slack (ReadKind.commit.cell ((step s e).irf_state q))
        (after rep (logOps m q (logged s e).toList)) ≤
      charge (ReadKind.commit.cell (s.irf_state q)) (ReadKind.commit.hookOp s e q).toList +
        slack (ReadKind.commit.cell (s.irf_state q)) rep := by
  rw [cell_step, ReadKind.hookOp]
  -- an event that does not concern the register
  have hidle : ∀ on : Option Live, Lags on rep →
      Lags (after on []) (after rep []) ∧ charge rep [] + slack (after on []) (after rep []) ≤ charge on [] + slack on rep :=
    fun on h => ⟨h, by simp [after, charge]⟩
  cases e with
  | irfWrite p =>
    cases ha : s.roi_active with
    | false => simpa [logged, ha, ReadKind.irfOp, onSlot, logOps] using hidle _ hlag
    | true =>
      simp only [logged, ha, hroom, and_self, ↓reduceIte, Option.toList_some, ReadKind.irfOp, logOps_some, onSlot_toList]
      by_cases hq : p = q
      · simp only [hq, ↓reduceIte, after, List.foldl_cons, List.foldl_nil, charge]
        exact ⟨lags_start _ _ _, by simp [next, slack, gain]⟩
      · simpa [hq] using hidle _ hlag
  | irfCommitRead p =>
    cases ha : s.roi_active with
    | false => simpa [logged, ha, ReadKind.irfOp, onSlot, logOps] using hidle _ hlag
    | true =>
      simp only [ReadKind.irfOp, and_self, ↓reduceIte, onSlot_toList]
      by_cases hq : p = q
      swap
      · rw [(logOps_other m s hq).2]
        simpa [hq] using hidle _ hlag
      subst hq
      simp only [↓reduceIte]
      cases hv : (s.irf_state p).has_value with
      | false =>
        have hnone := cell_eq_none .commit hv
        simp only [logged, ha, hv, Bool.false_eq_true, false_and, and_false, ↓reduceIte, Option.toList_none, hnone]
        exact ⟨lags_none _, by simp [logOps, after, next, charge, gain, slack]⟩
      | true =>
        by_cases hn : s.slice_nodes = []
        · simp only [logged, hn, ne_eq, not_true_eq_false, and_false, ↓reduceIte, Option.toList_none]
          obtain ⟨h1, h2⟩ := hlag.use_left hlast
          exact ⟨h1, by simpa [logOps, after, charge] using h2⟩
        · simp only [logged, ha, hv, hroom, ne_eq, hn, not_false_eq_true, and_self, ↓reduceIte, Option.toList_some,
            logOps_some, Bool.false_eq_true]
          have hne : ReadKind.commit.cell (s.irf_state p) ≠ none := by simp [ReadKind.cell, hv]
          obtain ⟨h1, h2⟩ := hlag.use hne hlast (m ((s.slice_nodes.length : Int) - 1))
          exact ⟨h1, by simpa [after, charge] using h2⟩
  | irfAlloc p | irfFree p =>
    simp only [logged, Option.toList_none, ReadKind.irfOp, onSlot_toList]
    by_cases hq : p = q
    · simp only [hq, ↓reduceIte]
      exact ⟨lags_none _, by simp [logOps, after, next, charge, gain, slack]⟩
    · simpa [hq, logOps] using hidle _ hlag
  | irfRead p => simpa [logged, ReadKind.irfOp, onSlot, logOps] using hidle _ hlag
  | _ => exact hidle _ hlag

private theorem charge_log_le {rep : Option Live}
    (hlast : ∀ l, ReadKind.commit.cell (s.irf_state q) = some l → l.last ≤ s.roi_cycles)
    (hlag : Lags (ReadKind.commit.cell (s.irf_state q)) rep) (es : List (Event cfg)) :
    charge rep (logOps m q (logOf s es)) ≤
      charge (ReadKind.commit.cell (s.irf_state q)) (opsOf step ReadKind.commit.hookOp s es q) +
        slack (ReadKind.commit.cell (s.irf_state q)) rep := by
  induction es generalizing s rep with
  | nil => exact Nat.zero_le _
  | cons e es ih =>
    by_cases hroom : s.sdc_events.length < eventCap
    · obtain ⟨h1, h2⟩ := lags_step m hlast hlag hroom e
      have h3 := ih (last_le_step hlast e) h1
      rw [logOf, logOps_append, charge_append, opsOf, charge_append, ← cell_step]
      omega
    · rw [logOf_full (Nat.not_lt.1 hroom)]
      exact Nat.zero_le _

/-! ### The ledger after a solve -/

theorem sdc_solve (es : List (Event cfg)) (c : RegCls) :
    (solveSliceAndSdc (run (fresh cfg) es)).irf_ace_sdc_cycles c =
      ∑ i : Fin (cfg.numPhysRegs c), charge none (logOps
        (onPath (backwardSweep (run (fresh cfg) es).slice_nodes.length (run (fresh cfg) es).slice_nodes))
        ⟨c, i⟩ (logOf (fresh cfg) es)) := by
  have hlog : (run (fresh cfg) es).sdc_events = logOf (fresh cfg) es := sdc_events_run (fresh cfg) es
  by_cases hn : (run (fresh cfg) es).slice_nodes = []
  · have hzero := congrArg Prod.fst (sdcResults_no_nodes hn).2
    change (run (fresh cfg) es).irf_ace_sdc_cycles = fun _ => 0 at hzero
    rw [solveSliceAndSdc, if_pos hn, hzero, hn]
    refine (Finset.sum_eq_zero fun i _ => charge_eq_zero (fun o ho => ?_) none).symm
    obtain ⟨ev, -, hev⟩ := List.mem_filterMap.1 ho
    obtain ⟨y, hy, hyo⟩ := Option.bind_eq_some_iff.1 hev
    cases Option.some.inj hy
    split at hyo
    · cases Option.some.inj hyo
      cases hw : ev.is_write <;> simp [SdcEvent.op, hw, isCounted, onPath, backwardSweep]
    · cases hyo
  · rw [solveSliceAndSdc, if_neg hn, ← hlog]
    exact replay_ace _ (sdc_events_sorted es) c

/-- After any run and a solve, the SDC ledger of a class is at most its commit ledger. -/
theorem sdc_le_commit (es : List (Event cfg)) (c : RegCls) :
    (solveSliceAndSdc (run (fresh cfg) es)).irf_ace_sdc_cycles c ≤
      (solveSliceAndSdc (run (fresh cfg) es)).irf_ace_commit_cycles c := by
  have hcommit : (solveSliceAndSdc (run (fresh cfg) es)).irf_ace_commit_cycles =
      (run (fresh cfg) es).irf_ace_commit_cycles := by
    unfold solveSliceAndSdc
    split <;> rfl
  have hledger := ledger_run .commit es c
  rw [ReadKind.ledger] at hledger
  rw [hcommit, sdc_solve, hledger]
  refine Finset.sum_le_sum fun i _ => ?_
  exact charge_log_le (s := fresh cfg) (q := ⟨c, i⟩) (onPath _) (fun l hl => by cases hl) (lags_none none) es

/-! ### The meaning of the SDC ledger -/

open Classical in
noncomputable def onSliceAt (nodes : List SliceNode) (k : Clock) : Bool :=
  decide (0 < k.commits ∧ OnSlice nodes (k.commits - 1))

/-- The values written to class `c` in a window, each from its write to its last commit read by an instruction on the
slice. -/
noncomputable def sdcMeaning (es : List (Event cfg)) (c : RegCls) : Nat :=
  ∑ i : Fin (cfg.numPhysRegs c),
    total (ReadKind.commit.valueOps (onSliceAt (run (fresh cfg) es).slice_nodes) ⟨c, i⟩ (timeline es))

/-- The writes, reads and ends of the values of register `q`, where the reads on the slice count. -/
noncomputable def sdcOps (es : List (Event cfg)) (q : Slot cfg) : List (Nat × Op) :=
  ReadKind.commit.valueOps (onSliceAt (run (fresh cfg) es).slice_nodes) q (timeline es)

/-- The cycles between the last read on the slice and the read from which the next one is charged. -/
noncomputable def gapCycles (es : List (Event cfg)) (q : Slot cfg) : Nat := total (sdcOps es q) - charge none (sdcOps es q)

/-- The analyzer takes no notice of a write outside of the windows. -/
def seen (x : Stamped cfg) : Bool :=
  match x.event with
  | .irfWrite _ => x.clock.active
  | _ => true

/-- The cycles charged for values of register `q` that a write outside of the windows has ended. -/
noncomputable def staleCycles (es : List (Event cfg)) (q : Slot cfg) : Nat :=
  stale (fun x => onSlot q x.clock.cycles (ReadKind.commit.valueOp (onSliceAt (run (fresh cfg) es).slice_nodes) x)) seen
    none false (timeline es)

def Fits (s : CHAOSCov cfg) : Event cfg → Prop
  | .irfWrite _ | .irfCommitRead _ => s.roi_active = true → s.sdc_events.length < eventCap
  | .sliceCommit _ => s.roi_active = true → s.slice_nodes.length < nodeCap
  | _ => True

instance (s : CHAOSCov cfg) (e : Event cfg) : Decidable (Fits s e) := by
  rcases e
  case irfWrite | irfCommitRead => exact inferInstanceAs (Decidable (s.roi_active = true → s.sdc_events.length < eventCap))
  case sliceCommit => exact inferInstanceAs (Decidable (s.roi_active = true → s.slice_nodes.length < nodeCap))
  all_goals exact .isTrue trivial

private theorem commits_step {k : Clock} (hk : Ticks k s) (h : k.commits = s.slice_nodes.length) {e : Event cfg}
    (hfit : Fits s e) : (k.next e).commits = (step s e).slice_nodes.length := by
  by_cases hroi : e.part = .roi
  · have hnext : (k.next e).commits = k.commits := by
      cases e with
      | cycle | workBegin | workEnd => simp only [Clock.next]; split <;> rfl
      | preDumpStats => rfl
      | _ => cases hroi
    rw [hnext, h]
    obtain ⟨-, hn | hn⟩ := slice_step_roi s hroi
    · rw [hn]
    · rw [hn]
      simpa [recorded] using congrArg List.length (recorded_backwardSweep s.slice_nodes.length s.slice_nodes).symm
  by_cases hslice : e.part = .slice
  · cases e with
    | sliceCommit inst =>
      cases ha : s.roi_active with
      | false => simp [step, sliceOnCommit, Clock.next, hk.1, ha, h]
      | true => simp [step, sliceOnCommit, Clock.next, hk.1, ha, h, Nat.not_le.2 (hfit ha)]
    | _ => cases hslice
  · have hnext : k.next e = k := by
      cases e with
      | cycle | workBegin | workEnd | preDumpStats => exact absurd rfl hroi
      | sliceCommit => exact absurd rfl hslice
      | _ => rfl
    rw [hnext, h, (slice_frame s hroi hslice).1]

private theorem commits_le_next (k : Clock) (e : Event cfg) : k.commits ≤ (k.next e).commits := by
  cases e <;> simp only [Clock.next, Nat.le_refl] <;> split <;> simp

/-- The cell `v` of the meaning and the cell `rep` of the replay follow register `q` of the analyzer. -/
private structure Tracks (k : Clock) (s : CHAOSCov cfg) (q : Slot cfg) (v rep : Option Live) : Prop where
  ticks : Ticks k s
  commits : k.commits = s.slice_nodes.length
  live : v = none ↔ ReadKind.commit.cell (s.irf_state q) = none
  agrees : Agrees v rep
  /-- Before the first recorded instruction nothing has counted. -/
  unused : k.commits = 0 → ∀ l, v = some l → l.used = false

private def opOf (m : Int → Bool) (q : Slot cfg) (x : Stamped cfg) : Option (Nat × Op) :=
  onSlot q x.clock.cycles (ReadKind.commit.valueOp (fun k => m ((k.commits : Int) - 1)) x)

private def meant (m : Int → Bool) (k : Clock) (e : Event cfg) (q : Slot cfg) : List (Nat × Op) :=
  if seen ⟨k, e⟩ then (opOf m q ⟨k, e⟩).toList else []

/-- The operations `ov`, `ol` and `oh` of an event on the cell of the meaning, of the replay and of the analyzer charge
the same and keep the cells together. -/
private def Kept (k : Clock) (v rep on : Option Live) (ov ol oh : List (Nat × Op)) : Prop :=
  charge v ov = charge rep ol ∧ (after v ov = none ↔ after on oh = none) ∧ Agrees (after v ov) (after rep ol) ∧
  (k.commits = 0 → ∀ l, after v ov = some l → l.used = false)

section Kept

variable {k : Clock} {v rep on : Option Live}

private theorem kept_start (k : Clock) (v rep on : Option Live) (t : Nat) :
    Kept k v rep on [(t, .start)] [(t, .start)] [(t, .start)] := by
  refine ⟨rfl, Iff.intro (fun h => by cases h) (fun h => by cases h), agrees_start v rep t, ?_⟩
  intro _ l hl
  cases Option.some.inj hl
  rfl

private theorem kept_dead {ov oh : List (Nat × Op)} (hv : after v ov = none) (hc : charge v ov = 0)
    (hon : after on oh = none) : Kept k v rep on ov [] oh := by
  refine ⟨hc, by rw [hv, hon], ?_, ?_⟩
  · rw [hv]
    exact agrees_none _
  · intro _ l hl
    rw [hv] at hl
    cases hl

private theorem kept_use (hk : k.commits ≠ 0) (hlive : v = none ↔ on = none) (hag : Agrees v rep) (hv : v ≠ none)
    (t : Nat) (f : Bool) : Kept k v rep on [(t, .use f)] [(t, .use f)] [(t, .use true)] := by
  obtain ⟨h1, h2⟩ := hag.use hv t f
  refine ⟨?_, ?_, h1, fun h => absurd h hk⟩
  · simpa [charge] using h2
  · simpa [after, next] using hlive

private theorem kept_use_unlogged (hlive : v = none ↔ on = none) (hag : Agrees v rep)
    (hunused : ∀ l, v = some l → l.used = false) (t : Nat) :
    Kept k v rep on [(t, .use false)] [] [(t, .use true)] := by
  refine ⟨rfl, by simpa [after, next] using hlive, hag.use_left hunused t, ?_⟩
  intro _ l hl
  obtain ⟨l', hl', rfl⟩ := Option.map_eq_some_iff.1 hl
  simp [hunused l' hl']

end Kept

private theorem kept_step {m : Int → Bool} (hm : m (-1) = false) {k : Clock} {v rep : Option Live}
    (h : Tracks k s q v rep) {e : Event cfg} (hfit : Fits s e) :
    Kept k v rep (ReadKind.commit.cell (s.irf_state q)) (meant m k e q) (logOps m q (logged s e).toList)
      (ReadKind.commit.hookOp s e q).toList := by
  obtain ⟨⟨hact, hcyc⟩, hcom, hlive, hag, hunused⟩ := h
  have hidle : Kept k v rep (ReadKind.commit.cell (s.irf_state q)) [] [] [] := ⟨rfl, hlive, hag, hunused⟩
  have hnone : (s.irf_state q).has_value = false → v = none := fun hv => hlive.2 (cell_eq_none _ hv)
  rw [meant, ReadKind.hookOp, opOf]
  cases e with
  | irfWrite p =>
    cases ha : s.roi_active with
    | false => simpa [seen, hact, ha, logged, ReadKind.irfOp, onSlot, logOps] using hidle
    | true =>
      simp only [seen, ReadKind.valueOp, hact, ha, ↓reduceIte, onSlot_toList, logged, hfit ha, and_self,
        Option.toList_some, logOps_some, ReadKind.irfOp, hcyc]
      split
      · exact kept_start ..
      · exact hidle
  | irfCommitRead p =>
    rw [show seen ⟨k, .irfCommitRead p⟩ = true from rfl, if_pos rfl]
    cases ha : s.roi_active with
    | false => simpa [ReadKind.valueOp, hact, ha, onSlot, logged, ReadKind.irfOp, logOps] using hidle
    | true =>
      by_cases hq : p = q
      swap
      · rw [(logOps_other m s hq).2]
        simpa [ReadKind.valueOp, hact, ha, onSlot, ReadKind.irfOp, hq] using hidle
      subst hq
      simp only [ReadKind.valueOp, hact, ha, and_self, ↓reduceIte, onSlot_toList, ReadKind.irfOp, hcyc]
      cases hv : (s.irf_state p).has_value with
      | false =>
        have hlog : logged s (.irfCommitRead p) = none := by simp [logged, hv]
        rw [hlog, hnone hv, cell_eq_none _ hv]
        exact kept_dead rfl (by cases m ((k.commits : Int) - 1) <;> rfl) rfl
      | true =>
        have hne : v ≠ none := fun hvn => by
          have := hlive.1 hvn
          simp [ReadKind.cell, hv] at this
        by_cases hn : s.slice_nodes = []
        · have h0 : k.commits = 0 := by rw [hcom, hn]; rfl
          have hlog : logged s (.irfCommitRead p) = none := by simp [logged, hn]
          rw [hlog, h0, show ((0 : Nat) : Int) - 1 = -1 from rfl, hm]
          exact kept_use_unlogged hlive hag (hunused h0) _
        · have hpos : k.commits ≠ 0 := by
            rw [hcom]
            exact fun h => hn (List.length_eq_zero_iff.1 h)
          have hlog : logged s (.irfCommitRead p) = some ⟨false, p, (k.commits : Int) - 1, s.roi_cycles⟩ := by
            simp [logged, ha, hv, hn, hfit ha, hcom]
          rw [hlog, Option.toList_some, logOps_some, if_pos rfl]
          exact kept_use hpos hlive hag hne _ _
  | irfAlloc p | irfFree p =>
    simp only [seen, ReadKind.valueOp, onSlot_toList, logged, ReadKind.irfOp, ↓reduceIte]
    by_cases hq : p = q
    · simp only [hq, ↓reduceIte]
      exact kept_dead rfl rfl rfl
    · simpa [hq, logOps] using hidle
  | irfRead p => simpa [seen, ReadKind.valueOp, onSlot, logged, ReadKind.irfOp, logOps] using hidle
  | _ => exact hidle

private theorem tracks_step {m : Int → Bool} (hm : m (-1) = false) {k : Clock} {v rep : Option Live}
    (h : Tracks k s q v rep) {e : Event cfg} (hfit : Fits s e) :
    Tracks (k.next e) (step s e) q (after v (meant m k e q)) (after rep (logOps m q (logged s e).toList)) := by
  obtain ⟨-, h2, h3, h4⟩ := kept_step hm h hfit
  refine ⟨ticks_step h.ticks e, commits_step h.ticks h.commits hfit, by rw [cell_step]; exact h2, h3, ?_⟩
  intro h0
  have := commits_le_next k e
  exact h4 (by omega)

private theorem of_not_seen {counted : Clock → Bool} {k : Clock} {e : Event cfg} (hs : seen ⟨k, e⟩ = false) {o : Nat × Op}
    (ho : onSlot q k.cycles (ReadKind.commit.valueOp counted ⟨k, e⟩) = some o) :
    e = .irfWrite q ∧ k.active = false ∧ o.2 = .stop := by
  cases e with
  | irfWrite p =>
    have hactive : k.active = false := hs
    simp only [ReadKind.valueOp, hactive, Bool.false_eq_true, ↓reduceIte, onSlot, Option.bind_some] at ho
    split at ho
    · rename_i hp
      subst hp
      exact ⟨rfl, hactive, Option.some.inj ho ▸ rfl⟩
    · cases ho
  | _ => cases hs

private theorem charge_log_eq {m : Int → Bool} (hm : m (-1) = false) {k : Clock} {v rep : Option Live}
    (h : Tracks k s q v rep) {es : List (Event cfg)} (hfit : Along step Fits s es) :
    charge rep (logOps m q (logOf s es)) = charge v (((stamp k es).filter seen).filterMap (opOf m q)) := by
  induction es generalizing k s v rep with
  | nil => rfl
  | cons e es ih =>
    obtain ⟨h1, -, -, -⟩ := kept_step hm h hfit.1
    have hcons : ((stamp k (e :: es)).filter seen).filterMap (opOf m q) =
        meant m k e q ++ ((stamp (k.next e) es).filter seen).filterMap (opOf m q) := by
      rw [stamp, meant]
      cases hs : seen ⟨k, e⟩ with
      | true =>
        rw [List.filter_cons_of_pos hs, List.filterMap_cons]
        cases opOf m q ⟨k, e⟩ <;> rfl
      | false => rw [List.filter_cons_of_neg (by simp [hs])]; rfl
    rw [logOf, logOps_append, charge_append, hcons, charge_append, h1, ih (tracks_step hm h hfit.1) hfit.2]

private theorem stale_eq_zero {m : Int → Bool} (hm : m (-1) = false) {k : Clock} {v rep : Option Live}
    (h : Tracks k s q v rep) {ended : Bool} (hended : ended = true → v = none) {es : List (Event cfg)}
    (hfit : Along step Fits s es) (hset : Along step Settled s es) : stale (opOf m q) seen v ended (stamp k es) = 0 := by
  induction es generalizing k s v rep ended with
  | nil => rfl
  | cons e es ih =>
    have hnext := tracks_step hm h hfit.1
    rw [meant] at hnext
    rw [stamp, stale]
    cases ho : opOf m q ⟨k, e⟩ with
    | none =>
      simp only [ho, Option.toList_none, ite_self] at hnext
      exact ih hnext hended hfit.2 hset.2
    | some o =>
      rw [ho] at hnext
      cases hs : seen ⟨k, e⟩ with
      | true =>
        rw [hs, if_pos rfl] at hnext
        have hgain : (if ended then gain v o.1 o.2 else 0) = 0 := by
          split
          · rw [hended ‹_›]
            obtain ⟨t, _ | k | _⟩ := o <;> try rfl
            cases k <;> rfl
          · rfl
        dsimp only
        rw [if_pos rfl, hgain, Nat.zero_add]
        refine ih hnext (fun hu => ?_) hfit.2 hset.2
        rw [Bool.and_eq_true] at hu
        show next v o.1 o.2 = none
        rw [hended hu.1]
        obtain ⟨t, _ | k | _⟩ := o
        · cases hu.2
        · rfl
        · rfl
      | false =>
        -- a write outside of the windows, which finds no value in the register
        obtain ⟨rfl, hactive, -⟩ := of_not_seen hs ho
        have hnone : v = none := h.live.2 (cell_eq_none .commit (hset.1 (h.ticks.1.symm.trans hactive)))
        rw [hs, if_neg Bool.false_ne_true] at hnext
        exact ih hnext (fun _ => hnone) hfit.2 hset.2

private theorem onSliceAt_eq (h : SliceInv s) :
    onSliceAt s.slice_nodes =
      fun k => onPath (backwardSweep s.slice_nodes.length s.slice_nodes) ((k.commits : Int) - 1) := by
  funext k
  rw [Bool.eq_iff_iff, onPath_iff, h.marked_iff]
  simp only [onSliceAt, decide_eq_true_eq]
  have h1 : ((k.commits : Int) - 1).toNat = k.commits - 1 := by omega
  rw [h1]
  constructor
  · rintro ⟨hpos, hs⟩
    exact ⟨by omega, hs⟩
  · rintro ⟨hpos, hs⟩
    exact ⟨by omega, hs⟩

/-- Within the capacities the SDC ledger has its meaning if and only if the cycles that get lost in gaps are as many as
those charged for values that have ended.  No cycle gets lost if and only if no value has a read off the slice, later than
a read on it, before a further read on it; none is charged for a value that has ended if no write outside of the windows
finds a value. -/
theorem sdc_eq_meaning_iff (es : List (Event cfg)) (hfit : Along step Fits (fresh cfg) es) (c : RegCls) :
    ((solveSliceAndSdc (run (fresh cfg) es)).irf_ace_sdc_cycles c = sdcMeaning es c ↔
      ∑ i : Fin (cfg.numPhysRegs c), staleCycles es ⟨c, i⟩ = ∑ i : Fin (cfg.numPhysRegs c), gapCycles es ⟨c, i⟩) ∧
    (∀ q, gapCycles es q = 0 ↔ ∀ l ∈ lifetimes (sdcOps es q), NoGap none l.2) ∧
    (Along step Settled (fresh cfg) es → ∀ q, staleCycles es q = 0) := by
  have htracks : ∀ q, Tracks (Clock.start cfg) (fresh cfg) q none none := fun q =>
    ⟨ticks_fresh cfg, rfl, Iff.intro (fun _ => rfl) fun _ => rfl, agrees_none _, fun _ l hl => by cases hl⟩
  have hpath : onPath (backwardSweep (run (fresh cfg) es).slice_nodes.length (run (fresh cfg) es).slice_nodes) (-1) =
      false := by simp [onPath]
  have hops := onSliceAt_eq (sliceInv_run es)
  have hgap : ∀ q, charge none (sdcOps es q) + gapCycles es q = total (sdcOps es q) := fun q =>
    Nat.add_sub_cancel' (charge_le_total (valueOps_timed _ _ _ es))
  refine ⟨?_, fun q => ?_, fun hset q => ?_⟩
  · have hcharge : ∀ i : Fin (cfg.numPhysRegs c), charge none (logOps (onPath
        (backwardSweep (run (fresh cfg) es).slice_nodes.length (run (fresh cfg) es).slice_nodes)) ⟨c, i⟩
        (logOf (fresh cfg) es)) = charge none (sdcOps es ⟨c, i⟩) + staleCycles es ⟨c, i⟩ := fun i => by
      rw [charge_log_eq hpath (htracks ⟨c, i⟩) hfit, sdcOps, staleCycles, hops]
      exact charge_seen _ _ (fun x _ hx o ho => (of_not_seen hx ho).2.2) none false
    have hmeaning : sdcMeaning es c = ∑ i : Fin (cfg.numPhysRegs c), (charge none (sdcOps es ⟨c, i⟩) +
        gapCycles es ⟨c, i⟩) := Finset.sum_congr rfl fun i _ => (hgap ⟨c, i⟩).symm
    rw [sdc_solve, hmeaning, Finset.sum_congr rfl fun i _ => hcharge i, Finset.sum_add_distrib, Finset.sum_add_distrib,
      Nat.add_left_cancel_iff]
  · have hzero : gapCycles es q = 0 ↔ charge none (sdcOps es q) = total (sdcOps es q) := by
      rw [← hgap]
      omega
    exact hzero.trans (charge_eq_total_iff (valueOps_timed _ _ _ es))
  · rw [staleCycles, hops]
    exact stale_eq_zero hpath (htracks q) (fun h => by cases h) hfit hset

/-- Two stores read a value in cycles 1 and 2 and an instruction off the slice in cycle 3: the ledger has its meaning. -/
theorem sdc_eq_meaning_iff_tiny :
    let r : Slot tiny := ⟨.int, 1⟩
    let store : DynInst := { isStore := true, dests := [], srcs := [⟨.intReg, 1⟩] }
    let other : DynInst := { isStore := false, dests := [⟨.intReg, 0⟩], srcs := [⟨.intReg, 1⟩] }
    let es : List (Event tiny) := [.workBegin, .irfWrite r, .tick, .sliceCommit store, .irfCommitRead r, .tick,
      .sliceCommit store, .irfCommitRead r, .tick, .sliceCommit other, .irfCommitRead r]
    Along step Fits (fresh tiny) es ∧
      (solveSliceAndSdc (run (fresh tiny) es)).irf_ace_sdc_cycles .int = sdcMeaning es .int := by
  intro r store other es
  have hfit : Along step Fits (fresh tiny) es := by decide
  refine ⟨hfit, (sdc_eq_meaning_iff es hfit .int).1.2 ?_⟩
  simp only [staleCycles, gapCycles, sdcOps, onSliceAt_eq (sliceInv_run _)]
  decide

/-- A value is written in cycle 0, a store reads it in cycles 1 and 3, and an instruction off the slice in cycle 2: the
replay charges the second store from cycle 2 only.  A value is written in a window and overwritten between it and the next
one, in which a store reads the new value: the replay charges the old one. -/
theorem sdc_off_slice_read_loses_cycle :
    let r : Slot tiny := ⟨.int, 1⟩
    let store : DynInst := { isStore := true, dests := [], srcs := [⟨.intReg, 1⟩] }
    let other : DynInst := { isStore := false, dests := [⟨.intReg, 0⟩], srcs := [⟨.intReg, 1⟩] }
    let es : List (Event tiny) := [.workBegin, .irfWrite r, .tick, .sliceCommit store, .irfCommitRead r, .tick,
      .sliceCommit other, .irfCommitRead r, .tick, .sliceCommit store, .irfCommitRead r]
    let fs : List (Event tiny) := [.workBegin, .irfWrite r, .tick, .workEnd, .irfWrite r, .workBegin, .tick,
      .sliceCommit store, .irfCommitRead r]
    (Along step Fits (fresh tiny) es ∧ Along step Settled (fresh tiny) es ∧
      (solveSliceAndSdc (run (fresh tiny) es)).irf_ace_sdc_cycles .int = 2 ∧ sdcMeaning es .int = 3) ∧
    Along step Fits (fresh tiny) fs ∧
      (solveSliceAndSdc (run (fresh tiny) fs)).irf_ace_sdc_cycles .int = 2 ∧ sdcMeaning fs .int = 0 := by
  refine ⟨⟨by decide, by decide, by decide, ?_⟩, by decide, by decide, ?_⟩
  all_goals
    rw [sdcMeaning, onSliceAt_eq (sliceInv_run _)]
    decide

end GemFI.Cov
