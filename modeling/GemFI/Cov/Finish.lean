import GemFI.Cov.Replay

/-!
# Finishing the statistics in the middle of a run

`finishStats` runs at the end of every window and before every dump.  It leaves marks on the slice nodes and counters
behind, and recomputes both when it runs again.  A run that calls it anywhere records the same nodes and the same log
as the run that never does (`SameRecords`), and its marks are on the slice of the final nodes too; so the results of
the last call do not depend on the earlier ones.
-/

namespace GemFI.Cov

open CHAOSCov

variable {cfg : Config}

/-- The step without its calls of `finishStats`: a dump does nothing, the end of a window only closes the window. -/
def quietStep (s : CHAOSCov cfg) : Event cfg → CHAOSCov cfg
  | .preDumpStats => s
  | .workEnd => if cfg.roi_mode ≠ .m5ops then s else { s with roi_active := false }
  | e => step s e

theorem quietStep_eq {e : Event cfg} (hdump : e ≠ .preDumpStats) (hend : e ≠ .workEnd) (s : CHAOSCov cfg) :
    quietStep s e = step s e := by
  cases e with
  | preDumpStats => exact absurd rfl hdump
  | workEnd => exact absurd rfl hend
  | _ => rfl

private theorem quietStep_of_part {e : Event cfg} (h : e.part ≠ .roi) (s : CHAOSCov cfg) : quietStep s e = step s e := by
  refine quietStep_eq ?_ ?_ s <;>
  · rintro rfl
    exact h rfl

def quietRun (s : CHAOSCov cfg) (es : List (Event cfg)) : CHAOSCov cfg := es.foldl quietStep s

/-- `es` with `calls i` more calls of `finishStats` before its event `i`, or at the end. -/
def withCalls (calls : Nat → Nat) : List (Event cfg) → List (Event cfg)
  | [] => List.replicate (calls 0) .preDumpStats
  | e :: es => List.replicate (calls 0) .preDumpStats ++ e :: withCalls (fun i => calls (i + 1)) es

private theorem quietRun_dumps (s : CHAOSCov cfg) (n : Nat) :
    quietRun s (List.replicate n .preDumpStats) = s := by
  induction n with
  | zero => rfl
  | succ n ih => exact ih

private theorem quietRun_withCalls (s : CHAOSCov cfg) (calls : Nat → Nat) (es : List (Event cfg)) :
    quietRun s (withCalls calls es) = quietRun s es := by
  induction es generalizing s calls with
  | nil => exact quietRun_dumps s _
  | cons e es ih =>
    have h : quietRun s (withCalls calls (e :: es)) =
        quietRun (quietStep (quietRun s (List.replicate (calls 0) .preDumpStats)) e)
          (withCalls (fun i => calls (i + 1)) es) := by
      simp only [withCalls, quietRun, List.foldl_append, List.foldl_cons]
    rw [h, quietRun_dumps, ih]
    rfl

/-! ### The records of a run -/

/-- The two analyzers differ at most in the marks of the slice and in what is derived from the records. -/
structure SameRecords (s t : CHAOSCov cfg) : Prop where
  active : s.roi_active = t.roi_active
  cycles : s.roi_cycles = t.roi_cycles
  state : s.irf_state = t.irf_state
  producer : s.slice_producer = t.slice_producer
  events : s.sdc_events = t.sdc_events
  nodes : recorded s.slice_nodes = recorded t.slice_nodes

variable {s t : CHAOSCov cfg}

theorem SameRecords.length (h : SameRecords s t) : s.slice_nodes.length = t.slice_nodes.length := by
  simpa [recorded] using congrArg List.length h.nodes

theorem SameRecords.no_nodes (h : SameRecords s t) : s.slice_nodes = [] ↔ t.slice_nodes = [] := by
  rw [← List.length_eq_zero_iff, ← List.length_eq_zero_iff, h.length]

theorem SameRecords.finishStats (h : SameRecords s t) : SameRecords s.finishStats t := by
  have hnodes : recorded s.finishStats.slice_nodes = recorded s.slice_nodes := by
    rw [CHAOSCov.finishStats, slice_nodes_solve, recorded_backwardSweep]
    rfl
  have hrest : s.finishStats.roi_active = s.roi_active ∧ s.finishStats.roi_cycles = s.roi_cycles ∧
      s.finishStats.irf_state = s.irf_state ∧ s.finishStats.slice_producer = s.slice_producer ∧
      s.finishStats.sdc_events = s.sdc_events := by
    unfold CHAOSCov.finishStats solveSliceAndSdc
    split <;> exact ⟨rfl, rfl, rfl, rfl, rfl⟩
  obtain ⟨ha, hc, hs, hp, he⟩ := hrest
  exact ⟨ha.trans h.active, hc.trans h.cycles, hs.trans h.state, hp.trans h.producer, he.trans h.events,
    hnodes.trans h.nodes⟩

private theorem irf_state_congr (h : SameRecords s t) (e : Event cfg) :
    (step s e).irf_state = (step t e).irf_state := by
  by_cases hp : e.part = .irf
  swap
  · rw [(irf_frame s hp).1, (irf_frame t hp).1, h.state]
  cases e with
  | irfWrite q => cases ha : t.roi_active <;> simp [step, irfOnWrite, h.active, h.cycles, h.state, ha]
  | irfRead q =>
    cases ha : t.roi_active <;> cases hv : (t.irf_state q).has_value <;> cases hr : (t.irf_state q).ever_read <;>
      simp [step, irfOnRead, renameDistSample, h.active, h.cycles, h.state, ha, hv, hr]
  | irfCommitRead q =>
    cases ha : t.roi_active <;> cases hv : (t.irf_state q).has_value <;>
      simp [step, irfOnCommitRead, h.active, h.cycles, h.state, ha, hv]
  | irfAlloc q | irfFree q => simp [step, irfOnAlloc, irfOnFree, h.state]
  | _ => cases hp

private theorem logged_congr (h : SameRecords s t) (e : Event cfg) : logged s e = logged t e := by
  cases e with
  | irfWrite q => simp only [logged, h.active, h.cycles, h.events]
  | irfCommitRead q =>
    have hne : s.slice_nodes ≠ [] ↔ t.slice_nodes ≠ [] := not_congr h.no_nodes
    simp only [logged, h.active, h.cycles, h.state, h.events, h.length, hne]
  | _ => rfl

private theorem sliceOnCommit_congr (h : SameRecords s t) (inst : DynInst) :
    (s.sliceOnCommit inst).slice_producer = (t.sliceOnCommit inst).slice_producer ∧
    recorded (s.sliceOnCommit inst).slice_nodes = recorded (t.sliceOnCommit inst).slice_nodes := by
  simp only [sliceOnCommit, h.active, h.length, h.producer]
  split
  · exact ⟨h.producer, h.nodes⟩
  · split
    · exact ⟨h.producer, h.nodes⟩
    · refine ⟨rfl, ?_⟩
      have := h.nodes
      simp only [recorded, List.map_append] at this ⊢
      rw [this]

private theorem SameRecords.step (h : SameRecords s t) {e : Event cfg} (hroi : e.part ≠ .roi) :
    SameRecords (step s e) (step t e) := by
  have hclock : (Cov.step s e).roi_active = (Cov.step t e).roi_active ∧
      (Cov.step s e).roi_cycles = (Cov.step t e).roi_cycles := by
    rw [(clock_frame s hroi).1, (clock_frame s hroi).2, (clock_frame t hroi).1, (clock_frame t hroi).2]
    exact ⟨h.active, h.cycles⟩
  have hslice : (Cov.step s e).slice_producer = (Cov.step t e).slice_producer ∧
      recorded (Cov.step s e).slice_nodes = recorded (Cov.step t e).slice_nodes := by
    by_cases hp : e.part = .slice
    · cases e with
      | sliceCommit inst => exact sliceOnCommit_congr h inst
      | _ => cases hp
    · obtain ⟨hn, hpr, -⟩ := slice_frame s hroi hp
      obtain ⟨hn', hpr', -⟩ := slice_frame t hroi hp
      rw [hn, hpr, hn', hpr']
      exact ⟨h.producer, h.nodes⟩
  have hevents : (Cov.step s e).sdc_events = (Cov.step t e).sdc_events := by
    rw [sdc_events_step, sdc_events_step, h.events, logged_congr h]
  exact ⟨hclock.1, hclock.2, irf_state_congr h e, hslice.1, hevents, hslice.2⟩

private theorem SameRecords.window (h : SameRecords s t) (active : Bool) :
    SameRecords { s with roi_active := active } { t with roi_active := active } :=
  ⟨rfl, h.cycles, h.state, h.producer, h.events, h.nodes⟩

private theorem SameRecords.cycle (h : SameRecords s t) (n m : Int) :
    SameRecords (Cov.step s (.cycle n m)) (Cov.step t (.cycle n m)) := by
  have hroi : ∀ s : CHAOSCov cfg, (Cov.step s (.cycle n m)).slice_nodes = s.slice_nodes ∧
      (Cov.step s (.cycle n m)).slice_producer = s.slice_producer := by
    intro s
    cases ha : s.roi_active with
    | false => simp [Cov.step, onCycle, tickROICycles, ha]
    | true =>
      simp only [Cov.step, onCycle, tickROICycles, irfSampleOccupancy, ha, true_and, ↓reduceIte]
      split <;> exact ⟨rfl, rfl⟩
  have hp : (Event.cycle n m : Event cfg).part ≠ .irf := by simp [Event.part]
  obtain ⟨hs, -, -, he⟩ := irf_frame s hp
  obtain ⟨ht, -, -, he'⟩ := irf_frame t hp
  constructor
  · rw [(step_cycle s n m).1, (step_cycle t n m).1, h.active]
  · rw [(step_cycle s n m).2, (step_cycle t n m).2, h.active, h.cycles]
  · rw [hs, ht, h.state]
  · rw [(hroi s).2, (hroi t).2, h.producer]
  · rw [he, he', h.events]
  · rw [(hroi s).1, (hroi t).1, h.nodes]

theorem sameRecords_step (h : SameRecords s t) (e : Event cfg) : SameRecords (step s e) (quietStep t e) := by
  by_cases hroi : e.part = .roi
  · cases e with
    | cycle n m => exact h.cycle n m
    | workBegin =>
      simp only [step, quietStep, onWorkBegin]
      split
      · exact h
      · exact h.window true
    | workEnd =>
      simp only [step, quietStep, onWorkEnd]
      split
      · exact h
      · exact (h.window false).finishStats
    | preDumpStats => exact h.finishStats
    | _ => cases hroi
  · rw [quietStep_of_part hroi]
    exact h.step hroi

theorem sameRecords_run (h : SameRecords s t) (es : List (Event cfg)) : SameRecords (run s es) (quietRun t es) := by
  induction es generalizing s t with
  | nil => exact h
  | cons e es ih => exact ih (sameRecords_step h e)

/-! ### Without nodes there are no results -/

def sdcResults (s : CHAOSCov cfg) : (RegCls → Nat) × Nat × Nat :=
  (s.irf_ace_sdc_cycles, s.sdc_on_path_reads, s.sdc_total_reads)

private theorem sdcResults_finishStats {s : CHAOSCov cfg} (hn : s.slice_nodes = []) :
    sdcResults s.finishStats = sdcResults s := by
  simp [sdcResults, finishStats, solveSliceAndSdc, irfFinish, hn]

private theorem sdcResults_quietStep (s : CHAOSCov cfg) (e : Event cfg) : sdcResults (quietStep s e) = sdcResults s := by
  by_cases hroi : e.part = .roi
  · cases e with
    | cycle n m =>
      cases ha : s.roi_active with
      | false => simp [quietStep, step, onCycle, tickROICycles, ha]
      | true =>
        simp only [quietStep, step, onCycle, tickROICycles, irfSampleOccupancy, ha, true_and, ↓reduceIte]
        split <;> rfl
    | workBegin =>
      simp only [quietStep, step, onWorkBegin]
      split <;> rfl
    | workEnd =>
      simp only [quietStep]
      split <;> rfl
    | preDumpStats => rfl
    | _ => cases hroi
  · have hu : e.part.Unseen fun s : CHAOSCov cfg => sdcResults s := by
      cases hp : e.part <;> simp_all [Part.Unseen, sdcResults]
    rw [quietStep_of_part hroi]
    exact step_frame s e hu

private theorem sdcResults_quietRun (s : CHAOSCov cfg) (es : List (Event cfg)) :
    sdcResults (quietRun s es) = sdcResults s := by
  induction es generalizing s with
  | nil => rfl
  | cons e es ih => exact (ih (quietStep s e)).trans (sdcResults_quietStep s e)

private theorem sdcResults_step {s : CHAOSCov cfg} (hn : s.slice_nodes = []) (e : Event cfg) :
    sdcResults (step s e) = sdcResults s := by
  by_cases hdump : e = .preDumpStats
  · subst hdump
    exact sdcResults_finishStats hn
  by_cases hend : e = .workEnd
  · subst hend
    simp only [step, onWorkEnd]
    split
    · rfl
    · exact sdcResults_finishStats hn
  · rw [← quietStep_eq hdump hend]
    exact sdcResults_quietStep s e

private theorem no_nodes_before {s : CHAOSCov cfg} {e : Event cfg} (h : (step s e).slice_nodes = []) :
    s.slice_nodes = [] := by
  by_cases hroi : e.part = .roi
  · obtain ⟨-, hn | hn⟩ := slice_step_roi s hroi
    · rwa [hn] at h
    · have hrec := recorded_backwardSweep s.slice_nodes.length s.slice_nodes
      rw [← hn, h] at hrec
      simpa [recorded] using hrec.symm
  by_cases hslice : e.part = .slice
  · cases e with
    | sliceCommit inst =>
      simp only [step, sliceOnCommit] at h
      split at h
      · exact h
      · split at h
        · exact h
        · simp at h
    | _ => cases hslice
  · rwa [(slice_frame s hroi hslice).1] at h

theorem sdcResults_no_nodes {s : CHAOSCov cfg} {es : List (Event cfg)} (h : (run s es).slice_nodes = []) :
    s.slice_nodes = [] ∧ sdcResults (run s es) = sdcResults s := by
  induction es generalizing s with
  | nil => exact ⟨h, rfl⟩
  | cons e es ih =>
    obtain ⟨hn, hr⟩ := ih h
    have hs := no_nodes_before hn
    exact ⟨hs, hr.trans (sdcResults_step hs e)⟩

/-! ### The results of the last call -/

private theorem nodes_ext {a b : List SliceNode} (h : recorded a = recorded b) (hm : ∀ i, Marked a i ↔ Marked b i) :
    a = b := by
  refine List.ext_getElem? fun i => ?_
  have hi := congrArg (·[i]?) h
  have hmi := hm i
  simp only [recorded, List.getElem?_map, Marked] at hi hmi
  rcases ha : a[i]? with _ | ⟨d, r, st, on⟩ <;> rcases hb : b[i]? with _ | ⟨d', r', st', on'⟩
  · rfl
  · simp [ha, hb] at hi
  · simp [ha, hb] at hi
  · simp only [ha, hb, Option.map_some, Option.some.injEq, SliceNode.mk.injEq, and_true, exists_eq_left'] at hi hmi
    obtain ⟨rfl, rfl, rfl⟩ := hi
    rw [Bool.eq_iff_iff.2 hmi]

private theorem SameRecords.sweep (h : SameRecords s t) (hs : SliceInv s) (ht : SliceInv t) :
    backwardSweep s.slice_nodes.length s.slice_nodes = backwardSweep t.slice_nodes.length t.slice_nodes := by
  refine nodes_ext ?_ fun i => ?_
  · rw [recorded_backwardSweep, recorded_backwardSweep, h.nodes]
  · rw [hs.marked_iff, ht.marked_iff, OnSlice, OnSlice, producerLink_congr h.nodes, isStore_congr h.nodes]

private theorem SameRecords.results (h : SameRecords s t) (hs : SliceInv s) (ht : SliceInv t)
    (h0 : s.slice_nodes = [] → sdcResults s = sdcResults t) :
    sdcResults s.finishStats = sdcResults t.finishStats ∧ s.finishStats.slice_nodes = t.finishStats.slice_nodes := by
  refine ⟨?_, ?_⟩
  · by_cases hn : s.slice_nodes = []
    · rw [sdcResults_finishStats hn, sdcResults_finishStats (h.no_nodes.1 hn), h0 hn]
    · have hn' : t.slice_nodes ≠ [] := fun hn' => hn (h.no_nodes.2 hn')
      simp only [sdcResults, CHAOSCov.finishStats, solveSliceAndSdc, irfFinish, hn, hn', ↓reduceIte, h.sweep hs ht,
        h.events]
  · simp only [CHAOSCov.finishStats, slice_nodes_solve]
    exact h.sweep hs ht

private theorem sliceInv_quietStep {s : CHAOSCov cfg} (h : SliceInv s) (e : Event cfg) : SliceInv (quietStep s e) := by
  by_cases hdump : e = .preDumpStats
  · subst hdump
    exact h
  by_cases hend : e = .workEnd
  · subst hend
    simp only [quietStep]
    split
    · exact h
    · exact ⟨h.linked, h.producer, h.sound⟩
  · rw [quietStep_eq hdump hend]
    exact sliceInv_step h e

private theorem sliceInv_quietRun {s : CHAOSCov cfg} (h : SliceInv s) (es : List (Event cfg)) :
    SliceInv (quietRun s es) :=
  List.foldlRecOn es quietStep h fun _ hs e _ => sliceInv_quietStep hs e

/-- Calling `finishStats` any number of times anywhere in a run changes no result of a last call: not the SDC ledgers,
not the read counters and not the nodes with their marks. -/
theorem finishStats_anywhere (calls : Nat → Nat) (es : List (Event cfg)) :
    let s := (run (fresh cfg) (withCalls calls es)).finishStats
    let t := (quietRun (fresh cfg) es).finishStats
    s.irf_ace_sdc_cycles = t.irf_ace_sdc_cycles ∧ s.sdc_on_path_reads = t.sdc_on_path_reads ∧
    s.sdc_total_reads = t.sdc_total_reads ∧ s.slice_nodes = t.slice_nodes := by
  intro s t
  have hsame : SameRecords (run (fresh cfg) (withCalls calls es)) (quietRun (fresh cfg) es) := by
    rw [← quietRun_withCalls (fresh cfg) calls es]
    exact sameRecords_run ⟨rfl, rfl, rfl, rfl, rfl, rfl⟩ _
  have hfresh : SliceInv (fresh cfg) := sliceInv_run []
  obtain ⟨hr, hn⟩ := hsame.results (sliceInv_run _) (sliceInv_quietRun hfresh es) fun h => by
    rw [(sdcResults_no_nodes h).2, sdcResults_quietRun]
  simp only [sdcResults, Prod.mk.injEq] at hr
  exact ⟨hr.1, hr.2.1, hr.2.2, hn⟩

end GemFI.Cov
