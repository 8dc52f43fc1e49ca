import GemFI.Cov.Analyzer

/-!
# What an event can change

Every event belongs to one part of the analyzer.  `Part.Unseen` lists the fields that the events of a part can change:
a projection that none of them enters is kept by every event of the part (`step_frame`).  The frame lemmas of the
collectors follow from this.
-/

namespace GemFI.Cov

open CHAOSCov

variable {cfg : Config}

inductive Part where
  | roi | irf | slice | sq | cache | side
  deriving DecidableEq, Repr

def Event.part : Event cfg → Part
  | .cycle .. | .workBegin | .workEnd | .preDumpStats => .roi
  | .irfWrite _ | .irfRead _ | .irfCommitRead _ | .irfAlloc _ | .irfFree _ => .irf
  | .sliceCommit _ => .slice
  | .sqWrite _ | .sqConsume _ | .sqFree _ | .sqForward _ => .sq
  | .cacheWrite .. | .cacheRead .. | .cacheEvict .. | .cacheTagAccess _ => .cache
  | .loadWriteback _ | .loadUse _ | .fuIssue .. | .fuIssueValue .. | .addIssue .. | .mulIssue .. => .side

def Part.Unseen {α : Type} (f : CHAOSCov cfg → α) : Part → Prop
  | .roi => ∀ s active n occ samples rob live nodes sdc on total, f { s with
      roi_active := active, roi_cycles := n, irf_occ_hist := occ, irf_occ_samples := samples, rob_occ_hist := rob,
      irf_live_regs := live, slice_nodes := nodes, irf_ace_sdc_cycles := sdc, sdc_on_path_reads := on,
      sdc_total_reads := total } = f s
  | .irf => ∀ s state ace commit lu rd events, f { s with
      irf_state := state, irf_ace_cycles := ace, irf_ace_commit_cycles := commit, lu_state := lu, rd_hist := rd,
      sdc_events := events } = f s
  | .slice => ∀ s producer nodes, f { s with slice_producer := producer, slice_nodes := nodes } = f s
  | .sq => ∀ s state opened ace writes consumes frees fwd wb forwards, f { s with
      sq_state := state, harp_sq_open := opened, sq_ace_cycles := ace, sq_writes := writes, sq_consumes := consumes,
      sq_frees := frees, sq_fwd_ace_cycles := fwd, sq_wb_ace_cycles := wb, sq_forwards := forwards } = f s
  | .cache => ∀ s ledgers, f { s with cache_ledgers := ledgers } = f s
  | .side => ∀ s lu samples hist bits issues values lanes add adds addBits mul muls mulBits, f { s with
      lu_state := lu, lu_samples := samples, lu_hist := hist, ibr_input_bits := bits, ibr_issues := issues,
      fp_value_hist := values, fp_lanes_sampled := lanes, iex_add_issues := add, iex_add_sampled := adds,
      iex_sens_bits := addBits, iex_mul_issues := mul, iex_mul_sampled := muls, iex_mul_sens_bits := mulBits } = f s

variable {α : Type} {f : CHAOSCov cfg → α} (s : CHAOSCov cfg)

private theorem finishStats_frame (h : Part.Unseen f .roi) (s : CHAOSCov cfg) : f s.finishStats = f s := by
  unfold finishStats solveSliceAndSdc
  split
  · exact h s ..
  · exact h s ..

private theorem onCycle_frame (h : Part.Unseen f .roi) (s : CHAOSCov cfg) (n m : Int) : f (s.onCycle n m) = f s := by
  cases hactive : s.roi_active with
  | false => simp [onCycle, tickROICycles, hactive]
  | true =>
    simp only [onCycle, tickROICycles, irfSampleOccupancy, hactive, true_and, ↓reduceIte]
    split
    · exact h s ..
    · exact h s ..

private theorem sqOnConsume_frame (h : Part.Unseen f .sq) (s : CHAOSCov cfg) (i : Nat) :
    f (s.sqOnConsume i) = f s := by
  have hclose : f (closeOldest s) = f s := by
    unfold closeOldest
    split
    · rfl
    · exact h s ..
  have hslot : ∀ s, f (consumeSlot s i) = f s := by
    intro s
    by_cases hi : i < cfg.sq_entries <;> simp only [consumeSlot, hi, ↓reduceDIte, updateSq]
    split
    · exact h s ..
    · rfl
  unfold sqOnConsume
  split
  · rfl
  · exact (hslot _).trans ((h (closeOldest s) ..).trans hclose)

private theorem fuOnIssueValue_frame (h : Part.Unseen f .side) (s : CHAOSCov cfg) (c : Int) (l : List Int) :
    f (s.fuOnIssueValue c l) = f s := by
  unfold fuOnIssueValue
  split
  · rfl
  · split
    · rfl
    · rename_i hactive _
      clear hactive
      induction l generalizing s with
      | nil => rfl
      | cons x l ih =>
        rw [List.foldl_cons, ih]
        split
        · rfl
        · exact h s ..

/-- An event changes only the fields of its part. -/
theorem step_frame (e : Event cfg) (h : e.part.Unseen f) : f (step s e) = f s := by
  cases e with
  | cycle n m => exact onCycle_frame h s n m
  | workBegin =>
    simp only [step, onWorkBegin]
    split
    · rfl
    · exact h s ..
  | workEnd =>
    simp only [step, onWorkEnd]
    split
    · rfl
    · exact (finishStats_frame h _).trans (h s ..)
  | preDumpStats => exact finishStats_frame h s
  | irfWrite q =>
    simp only [step, irfOnWrite]
    split
    · rfl
    · exact h s ..
  | irfRead q =>
    simp only [step, irfOnRead, renameDistSample]
    split
    · rfl
    · split
      · rfl
      · split <;> exact h s ..
  | irfCommitRead q =>
    simp only [step, irfOnCommitRead]
    split
    · rfl
    · split
      · rfl
      · exact h s ..
  | irfAlloc q => exact h s ..
  | irfFree q => exact h s ..
  | sliceCommit inst =>
    simp only [step, sliceOnCommit]
    split
    · rfl
    · split
      · rfl
      · exact h s ..
  | sqWrite i =>
    simp only [step, sqOnWrite, updateSq]
    split
    · rfl
    · split <;> exact h s ..
  | sqConsume i => exact sqOnConsume_frame h s i
  | sqFree i =>
    simp only [step, sqOnFree, updateSq]
    split
    · rfl
    · split <;> exact h s ..
  | sqForward i =>
    simp only [step, sqOnForward]
    split
    · rfl
    · by_cases hi : i < cfg.sq_entries <;> simp only [hi, ↓reduceDIte, updateSq]
      split
      · rfl
      · exact h s ..
  | cacheWrite c b | cacheRead c b | cacheEvict c b =>
    simp only [step, cacheOnWrite, cacheOnRead, cacheOnEvict]
    split
    · rfl
    · exact h s ..
  | cacheTagAccess c =>
    simp only [step, cacheOnTagAccess]
    split
    · rfl
    · exact h s ..
  | loadWriteback q =>
    simp only [step, loadOnWriteback]
    split
    · rfl
    · exact h s ..
  | loadUse q | fuIssue c n =>
    simp only [step, loadOnUse, fuOnIssue]
    split
    · rfl
    · split
      · rfl
      · exact h s ..
  | fuIssueValue c l => exact fuOnIssueValue_frame h s c l
  | addIssue a b | mulIssue a b =>
    simp only [step, iexOnAddIssue, iexOnMulIssue]
    split
    · rfl
    · split <;> exact h s ..

theorem irf_frame {e : Event cfg} (h : e.part ≠ .irf) :
    (step s e).irf_state = s.irf_state ∧ (step s e).irf_ace_cycles = s.irf_ace_cycles ∧
    (step s e).irf_ace_commit_cycles = s.irf_ace_commit_cycles ∧ (step s e).sdc_events = s.sdc_events := by
  have hu : e.part.Unseen fun s : CHAOSCov cfg =>
      (s.irf_state, s.irf_ace_cycles, s.irf_ace_commit_cycles, s.sdc_events) := by
    cases hp : e.part <;> simp_all [Part.Unseen]
  simpa only [Prod.mk.injEq] using step_frame s e hu

theorem clock_frame {e : Event cfg} (h : e.part ≠ .roi) :
    (step s e).roi_active = s.roi_active ∧ (step s e).roi_cycles = s.roi_cycles := by
  have hu : e.part.Unseen fun s : CHAOSCov cfg => (s.roi_active, s.roi_cycles) := by
    cases hp : e.part <;> simp_all [Part.Unseen]
  simpa only [Prod.mk.injEq] using step_frame s e hu

theorem slice_frame {e : Event cfg} (hroi : e.part ≠ .roi) (hslice : e.part ≠ .slice) :
    (step s e).slice_nodes = s.slice_nodes ∧ (step s e).slice_producer = s.slice_producer ∧
    (step s e).irf_ace_sdc_cycles = s.irf_ace_sdc_cycles := by
  have hu : e.part.Unseen fun s : CHAOSCov cfg => (s.slice_nodes, s.slice_producer, s.irf_ace_sdc_cycles) := by
    cases hp : e.part <;> simp_all [Part.Unseen]
  simpa only [Prod.mk.injEq] using step_frame s e hu

theorem sq_frame {e : Event cfg} (h : e.part ≠ .sq) :
    (step s e).sq_state = s.sq_state ∧ (step s e).harp_sq_open = s.harp_sq_open ∧
    (step s e).sq_ace_cycles = s.sq_ace_cycles ∧ (step s e).sq_fwd_ace_cycles = s.sq_fwd_ace_cycles ∧
    (step s e).sq_wb_ace_cycles = s.sq_wb_ace_cycles := by
  have hu : e.part.Unseen fun s : CHAOSCov cfg =>
      (s.sq_state, s.harp_sq_open, s.sq_ace_cycles, s.sq_fwd_ace_cycles, s.sq_wb_ace_cycles) := by
    cases hp : e.part <;> simp_all [Part.Unseen]
  simpa only [Prod.mk.injEq] using step_frame s e hu

theorem cache_frame {e : Event cfg} (h : e.part ≠ .cache) : (step s e).cache_ledgers = s.cache_ledgers := by
  have hu : e.part.Unseen fun s : CHAOSCov cfg => s.cache_ledgers := by
    cases hp : e.part <;> simp_all [Part.Unseen]
  exact step_frame s e hu

end GemFI.Cov
