import GemFI.Cov.Replay
import GemFI.Lib.Run

/-!
# The tags of the commit reads

Every commit calls `sliceOnCommit` and then `irfOnCommitRead` for its sources.  A commit read is logged with the index
of the newest slice node: the node of the reading instruction, unless the slice is full; then the reads are logged
under the last node, as if its instruction had done them.
-/

namespace GemFI.Cov

open CHAOSCov

variable {cfg : Config}

/-! ### Commits -/

def PhysReg.slot (cfg : Config) (r : PhysReg) : Option (Slot cfg) :=
  match r.irf with
  | some (c, i) => if h : i < cfg.numPhysRegs c then some ⟨c, i, h⟩ else none
  | none => none

def DynInst.reads (cfg : Config) (inst : DynInst) : List (Slot cfg) := inst.srcs.filterMap (PhysReg.slot cfg)

def readHooks (qs : List (Slot cfg)) : List (Event cfg) := qs.flatMap fun q => [.irfCommitRead q, .loadUse q]

def commitHooks (cfg : Config) (inst : DynInst) : List (Event cfg) := .sliceCommit inst :: readHooks (inst.reads cfg)

def Event.ofCommit : Event cfg → Bool
  | .sliceCommit _ | .irfCommitRead _ => true
  | _ => false

inductive Act (cfg : Config) where
  | commit (inst : DynInst)
  | other (e : Event cfg) (h : e.ofCommit = false)

def Act.events : Act cfg → List (Event cfg)
  | .commit inst => commitHooks cfg inst
  | .other e _ => [e]

def actStep (s : CHAOSCov cfg) (a : Act cfg) : CHAOSCov cfg := run s a.events

def ownNode (s : CHAOSCov cfg) : Option Nat :=
  if s.roi_active ∧ s.slice_nodes.length < nodeCap then some s.slice_nodes.length else none

def readsBy (s : CHAOSCov cfg) : Act cfg → List (Option Nat × SdcEvent cfg)
  | .commit inst => (logOf s (commitHooks cfg inst)).map fun ev => (ownNode s, ev)
  | .other .. => []

def readsOf (s : CHAOSCov cfg) : List (Act cfg) → List (Option Nat × SdcEvent cfg)
  | [] => []
  | a :: as => readsBy s a ++ readsOf (actStep s a) as

/-! ### The node of a commit -/

variable (s : CHAOSCov cfg)

variable (q : Slot cfg) (as : List (Act cfg)) {qs : List (Slot cfg)} (inst : DynInst)

theorem ownNode_spec :
    match ownNode s with
    | some k => ∃ n, (s.sliceOnCommit inst).slice_nodes = s.slice_nodes ++ [n] ∧ k = s.slice_nodes.length ∧
        n.is_store = inst.isStore ∧ n.dst = (inst.dests.filterMap PhysReg.irf).take MAX_REGS
    | none => (s.sliceOnCommit inst).slice_nodes = s.slice_nodes := by
  unfold ownNode
  split
  · rename_i k hk
    split at hk
    · rename_i h
      cases hk
      have hcap : ¬ nodeCap ≤ s.slice_nodes.length := Nat.not_le.2 h.2
      simp [sliceOnCommit, h.1, hcap]
    · cases hk
  · rename_i hk
    split at hk
    · cases hk
    · rename_i h
      unfold sliceOnCommit
      split
      · rfl
      · rename_i ha
        have hcap : nodeCap ≤ s.slice_nodes.length := Nat.not_lt.1 fun hlt => h ⟨by simpa using ha, hlt⟩
        rw [if_pos hcap]

private theorem sliceCommit_frame :
    (step s (.sliceCommit inst)).roi_active = s.roi_active ∧ (step s (.sliceCommit inst)).irf_state = s.irf_state ∧
    (step s (.sliceCommit inst)).sdc_events = s.sdc_events ∧
    (step s (.sliceCommit inst)).roi_cycles = s.roi_cycles := by
  have hclock := clock_frame s (e := .sliceCommit inst) (by simp [Event.part])
  have hirf := irf_frame s (e := .sliceCommit inst) (by simp [Event.part])
  exact ⟨hclock.1, hirf.1, hirf.2.2.2, hclock.2⟩

/-! ### The reads of a commit -/

private theorem readHook_frame :
    (run s [.irfCommitRead q, .loadUse q]).slice_nodes = s.slice_nodes ∧
    (run s [.irfCommitRead q, .loadUse q]).roi_active = s.roi_active := by
  have h1 := slice_frame s (e := .irfCommitRead q) (by simp [Event.part]) (by simp [Event.part])
  have h2 := slice_frame (step s (.irfCommitRead q)) (e := .loadUse q) (by simp [Event.part]) (by simp [Event.part])
  have h3 := clock_frame s (e := .irfCommitRead q) (by simp [Event.part])
  have h4 := clock_frame (step s (.irfCommitRead q)) (e := .loadUse q) (by simp [Event.part])
  exact ⟨h2.1.trans h1.1, h4.1.trans h3.1⟩

theorem logOf_append (es es' : List (Event cfg)) : logOf s (es ++ es') = logOf s es ++ logOf (run s es) es' := by
  induction es generalizing s with
  | nil => rfl
  | cons e es ih =>
    rw [List.cons_append, logOf, logOf, ih, List.append_assoc]
    rfl

private theorem logOf_readHook : logOf s [.irfCommitRead q, .loadUse q] = (logged s (.irfCommitRead q)).toList := by
  simp [logOf, logged]

private theorem readHooks_cons (qs : List (Slot cfg)) :
    readHooks (q :: qs) = [.irfCommitRead q, .loadUse q] ++ readHooks qs := by
  simp [readHooks]

private theorem node_of_readHooks {s : CHAOSCov cfg} {ev : SdcEvent cfg} (hev : ev ∈ logOf s (readHooks qs)) :
    ev.is_write = false ∧ ev.node = (s.slice_nodes.length : Int) - 1 ∧ s.roi_active = true := by
  induction qs generalizing s with
  | nil => simp [readHooks, logOf] at hev
  | cons q qs ih =>
    rw [readHooks_cons, logOf_append, List.mem_append, logOf_readHook] at hev
    rcases hev with hev | hev
    · simp only [logged] at hev
      split at hev
      · rename_i h
        simp only [Option.toList_some, List.mem_singleton] at hev
        subst hev
        exact ⟨rfl, rfl, h.1⟩
      · simp at hev
    · obtain ⟨h1, h2, h3⟩ := ih hev
      obtain ⟨hn, ha⟩ := readHook_frame s q
      exact ⟨h1, hn ▸ h2, ha ▸ h3⟩

private theorem logOf_dead {s : CHAOSCov cfg}
    (hdead : ∀ q ∈ qs, (s.irf_state q).has_value = false) : logOf s (readHooks qs) = [] := by
  induction qs generalizing s with
  | nil => rfl
  | cons q qs ih =>
    rw [List.forall_mem_cons] at hdead
    have hsame : step s (.irfCommitRead q) = s := by
      cases ha : s.roi_active <;> simp [step, irfOnCommitRead, ha, hdead.1]
    have hrun : run s [.irfCommitRead q, .loadUse q] = step s (.loadUse q) := by
      simp only [run, List.foldl_cons, List.foldl_nil, hsame]
    obtain ⟨hs, -⟩ := irf_frame s (e := .loadUse q) (by simp [Event.part])
    rw [readHooks_cons, logOf_append, logOf_readHook, hrun, ih (hs ▸ hdead.2)]
    simp [logged, hdead.1]

private theorem readHooks_logged {s : CHAOSCov cfg} (ha : s.roi_active = true)
    (hroom : s.sdc_events.length < eventCap) (hn : s.slice_nodes ≠ []) {q : Slot cfg} (hq : q ∈ qs)
    (hv : (s.irf_state q).has_value = true) : logOf s (readHooks qs) ≠ [] := by
  induction qs generalizing s with
  | nil => cases hq
  | cons p qs ih =>
    rw [readHooks_cons, logOf_append, logOf_readHook]
    cases hp : (s.irf_state p).has_value with
    | true => simp [logged, ha, hp, hroom, hn]
    | false =>
      have hsame : step s (.irfCommitRead p) = s := by simp [step, irfOnCommitRead, ha, hp]
      have hq' : q ∈ qs := by
        rcases List.mem_cons.1 hq with rfl | hq
        · rw [hp] at hv
          cases hv
        · exact hq
      have hrun : run s [.irfCommitRead p, .loadUse p] = step s (.loadUse p) := by
        simp only [run, List.foldl_cons, List.foldl_nil, hsame]
      obtain ⟨hs, -, -, he⟩ := irf_frame s (e := .loadUse p) (by simp [Event.part])
      obtain ⟨hns, has⟩ := readHook_frame s p
      rw [hrun] at hns has
      rw [hrun]
      have := ih (has.trans ha) (he ▸ hroom) (hns ▸ hn) hq' (hs ▸ hv)
      exact List.append_ne_nil_of_right_ne_nil _ this

private theorem logOf_commit :
    logOf s (commitHooks cfg inst) = logOf (step s (.sliceCommit inst)) (readHooks (inst.reads cfg)) := by
  simp [commitHooks, logOf, logged]

theorem sdc_events_reads : (logOf s (as.flatMap Act.events)).filter (!·.is_write) = (readsOf s as).map Prod.snd := by
  induction as generalizing s with
  | nil => rfl
  | cons a as ih =>
    rw [List.flatMap_cons, logOf_append, List.filter_append, readsOf, List.map_append]
    refine congrArg₂ (· ++ ·) ?_ (ih (actStep s a))
    rcases a with inst | ⟨e, he⟩
    · simp only [Act.events, readsBy, List.map_map]
      rw [List.filter_eq_self.2]
      · exact (List.map_id _).symm
      · intro ev hev
        rw [logOf_commit] at hev
        simp [(node_of_readHooks hev).1]
    · rw [Act.events, readsBy, logOf, logOf, List.append_nil, List.map_nil, List.filter_eq_nil_iff]
      intro ev hev
      cases e with
      | sliceCommit | irfCommitRead => cases he
      | irfWrite q =>
        simp only [logged] at hev
        split at hev
        · simp only [Option.toList_some, List.mem_singleton] at hev
          simp [hev]
        · simp at hev
      | _ => simp [logged] at hev

/-! ### When the tags are right -/

/-- The commit is recorded in the slice, or none of its reads is logged: the log is full or no source holds a value. -/
def ReadsFit (s : CHAOSCov cfg) : Act cfg → Prop
  | .commit inst => s.roi_active = true →
      s.slice_nodes.length < nodeCap ∨ eventCap ≤ s.sdc_events.length ∨
      ∀ q ∈ inst.reads cfg, (s.irf_state q).has_value = false
  | .other .. => True

def Tagged (p : Option Nat × SdcEvent cfg) : Prop := p.1.map Nat.cast = some p.2.node

private theorem sliceCommit_full {s : CHAOSCov cfg} (hcap : nodeCap ≤ s.slice_nodes.length) (inst : DynInst) :
    step s (.sliceCommit inst) = s := by
  simp [step, sliceOnCommit, hcap]

private theorem commit_tagged_iff :
    (∀ ev ∈ logOf s (commitHooks cfg inst), Tagged (ownNode s, ev)) ↔ ReadsFit s (.commit inst) := by
  obtain ⟨hactive, hstate, hevents, -⟩ := sliceCommit_frame s inst
  rw [logOf_commit]
  constructor
  · intro h ha
    by_contra hfit
    simp only [not_or, not_lt, not_le, not_forall, Bool.not_eq_false] at hfit
    obtain ⟨hcap, hroom, q, hq, hv⟩ := hfit
    -- the slice is full: the commit has no node, but its first live source is logged
    rw [sliceCommit_full hcap] at h
    have hne : s.slice_nodes ≠ [] := by
      intro hnil
      rw [hnil] at hcap
      exact absurd hcap (by decide)
    obtain ⟨ev, hev⟩ := List.exists_mem_of_ne_nil _ (readHooks_logged ha hroom hne hq hv)
    have := h ev hev
    simp [Tagged, ownNode, Nat.not_lt.2 hcap] at this
  · intro hfit ev hev
    obtain ⟨-, hnode, ha⟩ := node_of_readHooks hev
    rw [hactive] at ha
    rcases hfit ha with hcap | hfull | hdead
    · have hlen : (step s (.sliceCommit inst)).slice_nodes.length = s.slice_nodes.length + 1 := by
        simp [step, sliceOnCommit, ha, Nat.not_le.2 hcap]
      rw [hlen] at hnode
      simp [Tagged, ownNode, ha, hcap, hnode]
    · have hnil : logOf (step s (.sliceCommit inst)) (readHooks (inst.reads cfg)) = [] := by
        refine logOf_full ?_ _
        rw [hevents]
        exact hfull
      rw [hnil] at hev
      cases hev
    · rw [logOf_dead (by rwa [hstate])] at hev
      cases hev

private theorem reads_tagged_iff : (∀ p ∈ readsOf s as, Tagged p) ↔ Along actStep ReadsFit s as := by
  induction as generalizing s with
  | nil => simp [readsOf, Along]
  | cons a as ih =>
    have hact : (∀ p ∈ readsBy s a, Tagged p) ↔ ReadsFit s a := by
      rcases a with inst | e
      · simp only [readsBy, List.forall_mem_map]
        exact commit_tagged_iff s inst
      · simp [readsBy, ReadsFit]
    simp only [readsOf, List.forall_mem_append, Along]
    rw [hact, ih]

/-- Every logged commit read is tagged with the node of the reading instruction, and no read of an instruction without
a node counts as on the path, exactly if every commit in a window finds room in the slice or has none of its reads
logged. -/
theorem commit_reads_tagged_iff (as : List (Act cfg)) :
    ((∀ p ∈ readsOf (fresh cfg) as, Tagged p) ∧
      ∀ p ∈ readsOf (fresh cfg) as, p.1 = none →
        onPath (run (fresh cfg) (as.flatMap Act.events)).finishStats.slice_nodes p.2.node = false) ↔
    Along actStep ReadsFit (fresh cfg) as := by
  rw [← reads_tagged_iff]
  refine ⟨fun h => h.1, fun h => ⟨h, fun p hp hnone => ?_⟩⟩
  have := h p hp
  simp [Tagged, hnone] at this

/-! ### A run that crosses the capacity of the slice -/

private theorem run_acts : run s (as.flatMap Act.events) = as.foldl actStep s := by
  induction as generalizing s with
  | nil => rfl
  | cons a as ih =>
    rw [List.flatMap_cons, run, List.foldl_append]
    exact ih (actStep s a)

private theorem readsOf_append (as bs : List (Act cfg)) :
    readsOf s (as ++ bs) = readsOf s as ++ readsOf (as.foldl actStep s) bs := by
  induction as generalizing s with
  | nil => rfl
  | cons a as ih => rw [List.cons_append, readsOf, readsOf, ih, List.append_assoc, List.foldl_cons]

abbrev tinySlot : Slot tiny := ⟨.int, 0⟩

def opening : List (Act tiny) := [.other .workBegin rfl, .other (.irfWrite tinySlot) rfl]

def storeInst : DynInst := ⟨true, [], []⟩

def readInst : DynInst := ⟨false, [], [⟨.intReg, 0⟩]⟩

def crossing : List (Act tiny) := opening ++ (List.replicate nodeCap (.commit storeInst) ++ [.commit readInst])

private structure Filled (n : Nat) (s : CHAOSCov tiny) : Prop where
  active : s.roi_active = true
  cycles : s.roi_cycles = 0
  value : (s.irf_state tinySlot).has_value = true
  events : s.sdc_events = [⟨true, tinySlot, -1, 0⟩]
  length : s.slice_nodes.length = n
  stores : ∀ i < n, IsStore s.slice_nodes i

private theorem Filled.next {n : Nat} {s : CHAOSCov tiny} (h : Filled n s) (hn : n < nodeCap) :
    Filled (n + 1) (actStep s (.commit storeInst)) := by
  have hown : ownNode s = some n := by simp [ownNode, h.active, h.length, hn]
  have hspec := ownNode_spec s storeInst
  rw [hown] at hspec
  obtain ⟨m, hnodes, -, hst, -⟩ := hspec
  obtain ⟨hactive, hstate, hevents, hcycles⟩ := sliceCommit_frame s storeInst
  -- the commit reads nothing
  change Filled (n + 1) (step s (.sliceCommit storeInst))
  change (step s (.sliceCommit storeInst)).slice_nodes = s.slice_nodes ++ [m] at hnodes
  refine ⟨hactive.trans h.active, hcycles.trans h.cycles, hstate ▸ h.value, hevents.trans h.events, ?_, ?_⟩
  · rw [hnodes, List.length_append, h.length, List.length_singleton]
  · intro i hi
    rw [hnodes]
    by_cases hlast : i = n
    · exact ⟨m, by rw [hlast, ← h.length, List.getElem?_concat_length], hst⟩
    · obtain ⟨m', hm', hst'⟩ := h.stores i (by omega)
      exact ⟨m', by rw [List.getElem?_append_left (List.getElem?_eq_some_iff.1 hm').1, hm'], hst'⟩

private theorem Filled.replicate {n k : Nat} {s : CHAOSCov tiny} (h : Filled n s) (hk : n + k ≤ nodeCap) :
    Filled (n + k) ((List.replicate k (Act.commit storeInst)).foldl actStep s) ∧
    readsOf s (List.replicate k (Act.commit storeInst)) = [] := by
  induction k generalizing n s with
  | zero => exact ⟨h, rfl⟩
  | succ k ih =>
    obtain ⟨h1, h2⟩ := ih (h.next (by omega)) (by omega)
    rw [List.replicate_succ, List.foldl_cons, readsOf, h2]
    exact ⟨by rwa [Nat.add_right_comm] at h1, rfl⟩

private theorem Filled.reads {s : CHAOSCov tiny} (h : Filled nodeCap s) :
    readsBy s (.commit readInst) = [(none, ⟨false, tinySlot, (nodeCap : Int) - 1, 0⟩)] := by
  have hcap : nodeCap ≤ s.slice_nodes.length := Nat.le_of_eq h.length.symm
  have hne : s.slice_nodes ≠ [] := by
    intro hnil
    rw [hnil] at hcap
    exact absurd hcap (by decide)
  have hroom : s.sdc_events.length < eventCap := by rw [h.events]; decide
  have hown : ownNode s = none := by simp [ownNode, Nat.not_lt.2 hcap]
  have hlog : logged s (.irfCommitRead tinySlot) = some ⟨false, tinySlot, (nodeCap : Int) - 1, 0⟩ := by
    simp only [logged, h.active, h.value, hroom, hne, h.length, h.cycles, ne_eq, not_false_eq_true, and_self, ↓reduceIte]
  rw [readsBy, logOf_commit, sliceCommit_full hcap]
  change List.map _ (logOf s [.irfCommitRead tinySlot, .loadUse tinySlot]) = _
  rw [logOf_readHook, hlog, hown]
  rfl

private theorem Filled.nodes_kept {s : CHAOSCov tiny} (h : Filled nodeCap s) :
    (actStep s (.commit readInst)).slice_nodes = s.slice_nodes := by
  have hcap : nodeCap ≤ s.slice_nodes.length := Nat.le_of_eq h.length.symm
  change (run (step s (.sliceCommit readInst)) [.irfCommitRead tinySlot, .loadUse tinySlot]).slice_nodes = _
  rw [(readHook_frame _ _).1, sliceCommit_full hcap]

private theorem Filled.crossing {s : CHAOSCov tiny} (h : Filled 0 s) :
    readsOf s (List.replicate nodeCap (.commit storeInst) ++ [.commit readInst]) =
      [(none, ⟨false, tinySlot, (nodeCap : Int) - 1, 0⟩)] ∧
    IsStore ((List.replicate nodeCap (Act.commit storeInst) ++ [Act.commit readInst]).foldl actStep s).slice_nodes
      (nodeCap - 1) := by
  obtain ⟨hfull, hnone⟩ := h.replicate (k := nodeCap) (by omega)
  rw [Nat.zero_add] at hfull
  constructor
  · rw [readsOf_append, hnone, readsOf, hfull.reads]
    rfl
  · rw [List.foldl_append, List.foldl_cons, List.foldl_nil, hfull.nodes_kept]
    exact hfull.stores _ (by decide)

/-- The read of the last instruction is logged under the last store of the full slice and counts as on the path. -/
theorem full_slice_read_on_path :
    readsOf (fresh tiny) crossing = [(none, ⟨false, tinySlot, (nodeCap : Int) - 1, 0⟩)] ∧
    onPath (run (fresh tiny) (crossing.flatMap Act.events)).finishStats.slice_nodes ((nodeCap : Int) - 1) = true := by
  have hstart : Filled 0 (opening.foldl actStep (fresh tiny)) :=
    ⟨rfl, rfl, rfl, rfl, rfl, fun i hi => absurd hi (Nat.not_lt_zero i)⟩
  obtain ⟨hreads, hstore⟩ := hstart.crossing
  constructor
  · rw [crossing, readsOf_append, hreads]
    rfl
  · rw [onPath_iff, (slice_finishStats _).1, (sliceInv_run _).marked_iff]
    have hlast : ((nodeCap : Int) - 1).toNat = nodeCap - 1 := by omega
    rw [hlast, run_acts, crossing, List.foldl_append]
    exact ⟨by decide, nodeCap - 1, hstore, .refl⟩

end GemFI.Cov
