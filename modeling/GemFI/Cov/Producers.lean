import GemFI.Cov.CommitTags

/-!
# The producers of the slice

A slice node records for each of its sources the node in `slice_producer`, the last recorded instruction that keeps
the register among its destinations.  Instructions outside the windows, after the slice is full, or with more
destinations than a node keeps leave no trace there, so the recorded producer is the most recent writer only if none
of them came last (`producer_link_iff`).
-/

namespace GemFI.Cov

open CHAOSCov

variable {cfg : Config}

/-! ### The committed instructions -/

structure Commit where
  inst : DynInst
  node : Option Nat
  deriving DecidableEq, Repr

def commitOf (s : CHAOSCov cfg) : Event cfg → List Commit
  | .sliceCommit inst => [⟨inst, ownNode s⟩]
  | _ => []

def commitsOf (s : CHAOSCov cfg) : List (Event cfg) → List Commit
  | [] => []
  | e :: es => commitOf s e ++ commitsOf (step s e) es

def before (k : Nat) (h : List Commit) : List Commit := h.takeWhile fun c => c.node ≠ some k

def DynInst.writes (inst : DynInst) (q : RegCls × Nat) : Bool := q ∈ inst.dests.filterMap PhysReg.irf

def DynInst.dst (inst : DynInst) : List (RegCls × Nat) := (inst.dests.filterMap PhysReg.irf).take MAX_REGS

/-- The register is one of the destinations that a node keeps, and the table of producers has an entry for it. -/
def DynInst.tracks (cfg : Config) (inst : DynInst) (q : RegCls × Nat) : Bool :=
  q ∈ inst.dst ∧ q.2 < cfg.numPhysRegs q.1 ∧ 0 < cfg.numPhysRegs .int

def lastWriter (q : RegCls × Nat) (h : List Commit) : Option Commit := (h.filter fun c => c.inst.writes q).getLast?

def lastTracked (cfg : Config) (q : RegCls × Nat) (h : List Commit) : Option Commit :=
  (h.filter fun c => c.node.isSome && c.inst.tracks cfg q).getLast?

/-- The node of the instruction if there is one and it was recorded, and `-1` otherwise. -/
def nodeOf (c : Option Commit) : Int := (c.bind Commit.node).elim (-1) Nat.cast

/-- The most recent writer was recorded as such; or it was not recorded, and neither was any writer before it. -/
def Faithful (cfg : Config) (q : RegCls × Nat) (h : List Commit) : Prop :=
  ∀ c, lastWriter q h = some c →
    (c.node.isSome → c.inst.tracks cfg q) ∧
    (c.node = none → ∀ c' ∈ h, c'.node.isSome → ¬c'.inst.tracks cfg q)

variable {q : RegCls × Nat} {h : List Commit} {s : CHAOSCov cfg}

variable {k : Nat} {inst : DynInst} {c : Commit}

theorem DynInst.writes_of_tracks (h : inst.tracks cfg q) : inst.writes q := by
  simp only [DynInst.tracks, decide_eq_true_eq] at h
  exact decide_eq_true (List.mem_of_mem_take h.1)

private theorem eq_of_node (hnd : (h.filterMap Commit.node).Nodup) {c c' : Commit} (hc : c ∈ h) (hc' : c' ∈ h)
    {j : Nat} (hj : c.node = some j) (hj' : c'.node = some j) : c = c' := by
  by_contra hne
  have hpair := List.pairwise_filterMap.1 hnd
  have hsymm : Std.Symm fun a b : Commit => ∀ i, a.node = some i → ∀ i', b.node = some i' → i ≠ i' :=
    ⟨fun a b hab i hi i' hi' => (hab i' hi' i hi).symm⟩
  exact hpair.forall hc hc' hne j hj j hj' rfl

private theorem getLast?_filter {α : Type} {p : α → Bool} {l : List α} {a : α} (ha : l.getLast? = some a) (hp : p a) :
    (l.filter p).getLast? = some a := by
  obtain ⟨l', rfl⟩ := List.getLast?_eq_some_iff.1 ha
  simp [hp]

theorem mem_of_lastWriter (hc : lastWriter q h = some c) : c ∈ h :=
  (List.mem_filter.1 (List.mem_of_getLast? hc)).1

theorem of_lastTracked (hc : lastTracked cfg q h = some c) : c ∈ h ∧ c.node.isSome ∧ c.inst.tracks cfg q := by
  have hmem := List.mem_filter.1 (List.mem_of_getLast? hc)
  rw [Bool.and_eq_true] at hmem
  exact hmem

theorem lastTracked_eq_none_iff : lastTracked cfg q h = none ↔ ∀ c ∈ h, c.node.isSome → ¬c.inst.tracks cfg q := by
  unfold lastTracked
  rw [List.getLast?_eq_none_iff, List.filter_eq_nil_iff]
  simp

theorem lastTracked_of_lastWriter (hc : lastWriter q h = some c) (hnode : c.node.isSome)
    (htrack : c.inst.tracks cfg q) : lastTracked cfg q h = some c := by
  have hsub : (h.filter fun c => c.node.isSome && c.inst.tracks cfg q) =
      (h.filter fun c => c.inst.writes q).filter fun c => c.node.isSome && c.inst.tracks cfg q := by
    rw [List.filter_filter]
    refine List.filter_congr fun c' _ => ?_
    rw [Bool.eq_iff_iff]
    simp only [Bool.and_eq_true]
    exact ⟨fun ht => ⟨ht, DynInst.writes_of_tracks ht.2⟩, fun ht => ht.1⟩
  rw [lastTracked, hsub]
  exact getLast?_filter hc (by simp [hnode, htrack])

theorem nodeOf_eq_neg_one_iff {c : Option Commit} : nodeOf c = -1 ↔ c.bind Commit.node = none := by
  unfold nodeOf
  cases c.bind Commit.node with
  | none => simp
  | some j => simp

theorem nodeOf_eq_natCast_iff {c : Option Commit} {j : Nat} : nodeOf c = j ↔ c.bind Commit.node = some j := by
  unfold nodeOf
  cases c.bind Commit.node with
  | none => simp
  | some i => simp

theorem nodeOf_lastTracked_iff (hnd : (h.filterMap Commit.node).Nodup) (q : RegCls × Nat) :
    nodeOf (lastTracked cfg q h) = nodeOf (lastWriter q h) ↔ Faithful cfg q h := by
  unfold Faithful
  cases hw : lastWriter q h with
  | none =>
    have hnone : lastTracked cfg q h = none := by
      rw [lastTracked_eq_none_iff]
      intro c hc _ htrack
      have hnil := List.filter_eq_nil_iff.1 (List.getLast?_eq_none_iff.1 hw) c hc
      exact hnil (DynInst.writes_of_tracks htrack)
    simp [hnone]
  | some c =>
    simp only [Option.some.injEq, forall_eq']
    cases hc : c.node with
    | none =>
      have hneg : nodeOf (some c) = -1 := nodeOf_eq_neg_one_iff.2 hc
      rw [hneg, nodeOf_eq_neg_one_iff, ← lastTracked_eq_none_iff]
      simp only [Option.isSome_none, Bool.false_eq_true, false_imp_iff, true_and, true_imp_iff]
      constructor
      · intro hbind
        cases ht : lastTracked cfg q h with
        | none => rfl
        | some c' =>
          rw [ht] at hbind
          exact absurd (of_lastTracked ht).2.1 (by simp [show c'.node = none from hbind])
      · intro hnone
        rw [hnone]
        rfl
    | some j =>
      have hnode : nodeOf (some c) = j := nodeOf_eq_natCast_iff.2 hc
      rw [hnode, nodeOf_eq_natCast_iff]
      simp only [Option.isSome_some, true_imp_iff, reduceCtorEq, false_imp_iff, and_true]
      constructor
      · intro hbind
        obtain ⟨c', ht, hj⟩ := Option.bind_eq_some_iff.1 hbind
        obtain ⟨hmem, -, htrack⟩ := of_lastTracked ht
        rw [eq_of_node hnd (mem_of_lastWriter hw) hmem hc hj]
        exact htrack
      · intro htrack
        rw [lastTracked_of_lastWriter hw (by rw [hc]; rfl) htrack]
        exact hc

/-! ### The table of producers -/

def producers (s : CHAOSCov cfg) : RegCls → List Int :=
  if s.slice_producer .int = [] then fun c => List.replicate (cfg.numPhysRegs c) (-1) else s.slice_producer

theorem step_unrecorded (h : ownNode s = none) (inst : DynInst) : step s (.sliceCommit inst) = s := by
  unfold ownNode at h
  simp only [step, sliceOnCommit]
  split
  · rfl
  · rename_i hactive
    have hcap : nodeCap ≤ s.slice_nodes.length := by
      by_contra hlt
      rw [if_pos ⟨by simpa using hactive, by omega⟩] at h
      cases h
    rw [if_pos hcap]

def setProducers (my : Int) (dst : List (RegCls × Nat)) (pr : RegCls → List Int) : RegCls → List Int :=
  dst.foldl (fun pr r => Function.update pr r.1 ((pr r.1).set r.2 my)) pr

theorem step_recorded (h : ownNode s = some k) (inst : DynInst) :
    k = s.slice_nodes.length ∧
    (step s (.sliceCommit inst)).slice_producer = setProducers k inst.dst (producers s) ∧
    ∃ n, (step s (.sliceCommit inst)).slice_nodes = s.slice_nodes ++ [n] ∧
      ∀ r ∈ n.src, r.prod = (producers s r.cls).getD r.idx (-1) := by
  unfold ownNode at h
  split at h
  · rename_i hroom
    obtain rfl := Option.some.inj h
    have hcap : ¬nodeCap ≤ s.slice_nodes.length := by omega
    simp only [step, sliceOnCommit, hroom.1, Bool.not_true, Bool.false_eq_true, if_false, if_neg hcap]
    refine ⟨trivial, rfl, _, rfl, ?_⟩
    intro r hr
    obtain ⟨q, -, rfl⟩ := List.mem_map.1 hr
    rfl
  · cases h

theorem length_setProducers (my : Int) (dst : List (RegCls × Nat)) (pr : RegCls → List Int) (c : RegCls) :
    (setProducers my dst pr c).length = (pr c).length := by
  unfold setProducers
  induction dst generalizing pr with
  | nil => rfl
  | cons r dst ih =>
    rw [List.foldl_cons, ih]
    by_cases hc : c = r.1
    · subst hc
      rw [Function.update_self, List.length_set]
    · rw [Function.update_of_ne hc]

private theorem getD_setProducer (my : Int) (r q : RegCls × Nat) (pr : RegCls → List Int) :
    (Function.update pr r.1 ((pr r.1).set r.2 my) q.1).getD q.2 (-1) =
      if q = r ∧ q.2 < (pr q.1).length then my else (pr q.1).getD q.2 (-1) := by
  obtain ⟨c, i⟩ := r
  obtain ⟨c', i'⟩ := q
  by_cases hc : c' = c
  · subst hc
    by_cases hi : i' = i
    · subst hi
      by_cases hlt : i' < (pr c').length <;> simp [hlt, List.getD_eq_getElem?_getD]
    · simp [hi, Ne.symm hi, List.getD_eq_getElem?_getD]
  · simp [hc]

theorem getD_setProducers (my : Int) (dst : List (RegCls × Nat)) (pr : RegCls → List Int) (q : RegCls × Nat) :
    (setProducers my dst pr q.1).getD q.2 (-1) =
      if q ∈ dst ∧ q.2 < (pr q.1).length then my else (pr q.1).getD q.2 (-1) := by
  induction dst generalizing pr with
  | nil => simp [setProducers]
  | cons r dst ih =>
    have hlen := length_setProducers my [r] pr q.1
    have hget := getD_setProducer my r q pr
    have hcons : setProducers my (r :: dst) pr = setProducers my dst (setProducers my [r] pr) := rfl
    rw [hcons, ih, hlen]
    change (setProducers my [r] pr q.1).getD q.2 (-1) = _ at hget
    rw [hget]
    by_cases hdst : q ∈ dst ∧ q.2 < (pr q.1).length
    · rw [if_pos hdst, if_pos ⟨List.mem_cons_of_mem _ hdst.1, hdst.2⟩]
    · simp only [List.mem_cons, or_and_right, hdst, if_false, or_false]

/-! ### The run -/

structure Traces (s : CHAOSCov cfg) (h : List Commit) : Prop where
  nodes : h.filterMap Commit.node = List.range s.slice_nodes.length
  sized : s.slice_producer .int = [] ∨ ∀ c, (s.slice_producer c).length = cfg.numPhysRegs c
  table : ∀ q, (producers s q.1).getD q.2 (-1) = nodeOf (lastTracked cfg q h)
  links : ∀ k n, s.slice_nodes[k]? = some n → ∀ r ∈ n.src,
    r.prod = nodeOf (lastTracked cfg (r.cls, r.idx) (before k h))

private theorem getD_replicate (n i : Nat) : (List.replicate n (-1 : Int)).getD i (-1) = -1 := by
  rw [List.getD_eq_getElem?_getD, List.getElem?_replicate]
  split <;> rfl

theorem traces_fresh : Traces (fresh cfg) [] := by
  refine ⟨rfl, .inl rfl, ?_, ?_⟩
  · intro q
    have hneg : nodeOf (lastTracked cfg q []) = -1 := rfl
    rw [hneg]
    exact getD_replicate _ _
  · intro k n hn
    simp [fresh] at hn

theorem Traces.length_producers (ht : Traces s h) (c : RegCls) : (producers s c).length = cfg.numPhysRegs c := by
  unfold producers
  split
  · exact List.length_replicate
  · rename_i hne
    exact ht.sized.resolve_left hne c

theorem Traces.lt_of_node (ht : Traces s h) (hc : c ∈ h) (hk : c.node = some k) : k < s.slice_nodes.length := by
  have hmem : k ∈ h.filterMap Commit.node := List.mem_filterMap.2 ⟨c, hc, hk⟩
  rw [ht.nodes] at hmem
  exact List.mem_range.1 hmem

theorem Traces.before_append (ht : Traces s h) (hk : k < s.slice_nodes.length) (h' : List Commit) :
    before k (h ++ h') = before k h := by
  have hmem : k ∈ h.filterMap Commit.node := by
    rw [ht.nodes]
    exact List.mem_range.2 hk
  obtain ⟨c, hc, hnode⟩ := List.mem_filterMap.1 hmem
  unfold before
  rw [List.takeWhile_append, if_neg]
  intro hlen
  have hall := (List.takeWhile_prefix (l := h) fun c => decide (c.node ≠ some k)).eq_of_length hlen
  rw [← hall] at hc
  have hother := List.mem_takeWhile_imp hc
  rw [decide_eq_true_eq] at hother
  exact hother hnode

theorem Traces.before_next (ht : Traces s h) (inst : DynInst) :
    before s.slice_nodes.length (h ++ [⟨inst, some s.slice_nodes.length⟩]) = h := by
  have hpos : ∀ c ∈ h, decide (c.node ≠ some s.slice_nodes.length) = true := by
    intro c hc
    refine decide_eq_true fun hnode => ?_
    exact absurd (ht.lt_of_node hc hnode) (Nat.lt_irrefl _)
  rw [before, List.takeWhile_append_of_pos hpos]
  simp

theorem lastTracked_concat (q : RegCls × Nat) (h : List Commit) (c : Commit) :
    lastTracked cfg q (h ++ [c]) = if c.node.isSome && c.inst.tracks cfg q then some c else lastTracked cfg q h := by
  unfold lastTracked
  rw [List.filter_append]
  by_cases hc : c.node.isSome && c.inst.tracks cfg q
  · rw [List.filter_singleton, hc, cond_true, List.getLast?_concat, if_pos rfl]
  · rw [Bool.not_eq_true] at hc
    rw [List.filter_singleton, hc, cond_false, List.append_nil, if_neg Bool.false_ne_true]

theorem Traces.keep {s s' : CHAOSCov cfg} (ht : Traces s h) (hp : s'.slice_producer = s.slice_producer)
    (hn : recorded s'.slice_nodes = recorded s.slice_nodes) : Traces s' h := by
  have hlen : s'.slice_nodes.length = s.slice_nodes.length := by simpa [recorded] using congrArg List.length hn
  have htable : producers s' = producers s := by rw [producers, hp, producers]
  refine ⟨by rw [hlen]; exact ht.nodes, by rw [hp]; exact ht.sized, by rw [htable]; exact ht.table, ?_⟩
  intro k n hk r hr
  obtain ⟨n', hk', hsrc, -⟩ := exists_of_recorded hn hk
  exact ht.links k n' hk' r (hsrc ▸ hr)

theorem Traces.unrecorded (ht : Traces s h) (inst : DynInst) : Traces s (h ++ [⟨inst, none⟩]) := by
  have hlast : ∀ q, lastTracked cfg q (h ++ [⟨inst, none⟩]) = lastTracked cfg q h := by
    intro q
    rw [lastTracked_concat]
    simp
  refine ⟨?_, ht.sized, fun q => by rw [hlast]; exact ht.table q, ?_⟩
  · rw [List.filterMap_append, ht.nodes]
    simp
  · intro k n hk r hr
    rw [ht.before_append (List.getElem?_eq_some_iff.1 hk).1]
    exact ht.links k n hk r hr

theorem Traces.table_recorded {s s' : CHAOSCov cfg} (ht : Traces s h)
    (hp : s'.slice_producer = setProducers k inst.dst (producers s)) (q : RegCls × Nat) :
    (producers s' q.1).getD q.2 (-1) = nodeOf (lastTracked cfg q (h ++ [⟨inst, some k⟩])) := by
  have hlen := ht.length_producers q.1
  have hint : (s'.slice_producer .int).length = cfg.numPhysRegs .int := by
    rw [hp, length_setProducers, ht.length_producers]
  rw [lastTracked_concat]
  by_cases hpos : 0 < cfg.numPhysRegs .int
  · have hne : s'.slice_producer .int ≠ [] := by
      rw [← List.length_pos_iff]
      omega
    rw [producers, if_neg hne, hp, getD_setProducers, hlen, ht.table q]
    by_cases htrack : inst.tracks cfg q
    · have hdst : q ∈ inst.dst ∧ q.2 < cfg.numPhysRegs q.1 := by
        simp only [DynInst.tracks, decide_eq_true_eq] at htrack
        exact ⟨htrack.1, htrack.2.1⟩
      rw [if_pos hdst, if_pos (by simp [htrack])]
      rfl
    · have hdst : ¬(q ∈ inst.dst ∧ q.2 < cfg.numPhysRegs q.1) := by
        intro hdst
        exact htrack (decide_eq_true ⟨hdst.1, hdst.2, hpos⟩)
      rw [if_neg hdst, if_neg (by simp [htrack])]
  · -- without integer registers the table is initialised again and again
    have hnil : s'.slice_producer .int = [] := by
      rw [← List.length_eq_zero_iff]
      omega
    have hnone : ∀ c : Commit, ¬c.inst.tracks cfg q := by
      intro c htrack
      simp only [DynInst.tracks, decide_eq_true_eq] at htrack
      exact hpos htrack.2.2
    have hlast : lastTracked cfg q h = none := lastTracked_eq_none_iff.2 fun c _ _ => hnone c
    rw [if_neg (by simp [hnone ⟨inst, some k⟩]), hlast, producers, if_pos hnil]
    exact getD_replicate _ _

theorem Traces.recorded {s s' : CHAOSCov cfg} (ht : Traces s h) {n : SliceNode}
    (hp : s'.slice_producer = setProducers s.slice_nodes.length inst.dst (producers s))
    (hn : s'.slice_nodes = s.slice_nodes ++ [n]) (hsrc : ∀ r ∈ n.src, r.prod = (producers s r.cls).getD r.idx (-1)) :
    Traces s' (h ++ [⟨inst, some s.slice_nodes.length⟩]) := by
  refine ⟨?_, ?_, ht.table_recorded hp, ?_⟩
  · rw [List.filterMap_append, ht.nodes, hn, List.length_append, List.length_singleton, List.range_succ]
    rfl
  · right
    intro c
    rw [hp, length_setProducers, ht.length_producers]
  · intro k m hk r hr
    rw [hn, List.getElem?_append] at hk
    split at hk
    · rename_i hlt
      rw [ht.before_append hlt]
      exact ht.links k m hk r hr
    · -- the new node has read the table
      obtain ⟨hlt, hm⟩ := List.getElem?_eq_some_iff.1 hk
      rw [List.length_singleton] at hlt
      obtain rfl : k = s.slice_nodes.length := by omega
      obtain rfl : n = m := by simpa using hm
      rw [ht.before_next inst, hsrc r hr]
      exact ht.table (r.cls, r.idx)

theorem traces_step (ht : Traces s h) (e : Event cfg) : Traces (step s e) (h ++ commitOf s e) := by
  by_cases hslice : e.part = .slice
  · cases e with
    | sliceCommit inst =>
      cases hown : ownNode s with
      | none =>
        rw [step_unrecorded hown, commitOf, hown]
        exact ht.unrecorded inst
      | some k =>
        obtain ⟨rfl, hp, n, hn, hsrc⟩ := step_recorded hown inst
        rw [commitOf, hown]
        exact ht.recorded hp hn hsrc
    | _ => cases hslice
  · have hcommit : commitOf s e = [] := by
      cases e with
      | sliceCommit inst => exact absurd rfl hslice
      | _ => rfl
    rw [hcommit, List.append_nil]
    by_cases hroi : e.part = .roi
    · obtain ⟨hp, hn | hn⟩ := slice_step_roi s hroi
      · exact ht.keep hp (by rw [hn])
      · exact ht.keep hp (by rw [hn, recorded_backwardSweep])
    · obtain ⟨hn, hp, -⟩ := slice_frame s hroi hslice
      exact ht.keep hp (by rw [hn])

theorem traces_run (ht : Traces s h) (es : List (Event cfg)) : Traces (run s es) (h ++ commitsOf s es) := by
  induction es generalizing s h with
  | nil =>
    rw [commitsOf, List.append_nil]
    exact ht
  | cons e es ih =>
    rw [commitsOf, ← List.append_assoc]
    exact ih (traces_step ht e)

/-! ### The recorded producers -/

/-- A recorded producer is the node of the most recent writer of the register, or `-1` if that writer was not recorded,
exactly if the most recent writer was recorded with the register, or no earlier one was. -/
theorem producer_link_iff (es : List (Event cfg)) {k : Nat} {n : SliceNode}
    (hn : (run (fresh cfg) es).slice_nodes[k]? = some n) {r : SliceSrc} (hr : r ∈ n.src) :
    let earlier := before k (commitsOf (fresh cfg) es)
    r.prod = nodeOf (lastWriter (r.cls, r.idx) earlier) ↔ Faithful cfg (r.cls, r.idx) earlier := by
  intro earlier
  have ht : Traces (run (fresh cfg) es) (commitsOf (fresh cfg) es) := traces_run traces_fresh es
  have hnd : (earlier.filterMap Commit.node).Nodup := by
    have hpre : earlier.Sublist (commitsOf (fresh cfg) es) := List.takeWhile_sublist _
    have hsub := hpre.filterMap Commit.node
    rw [ht.nodes] at hsub
    exact List.nodup_range.sublist hsub
  rw [ht.links k n hn r hr]
  exact nodeOf_lastTracked_iff hnd _

def writeInst : DynInst := ⟨false, [⟨.intReg, 0⟩], []⟩

/-- A write and a read in one window. -/
theorem producer_link_one_window :
    let es : List (Event tiny) := [.workBegin, .sliceCommit writeInst, .sliceCommit readInst]
    let earlier := before 1 (commitsOf (fresh tiny) es)
    (run (fresh tiny) es).slice_nodes[1]? = some ⟨[], [⟨.int, 0, 0⟩], false, false⟩ ∧
    lastWriter (.int, 0) earlier = some ⟨writeInst, some 0⟩ ∧ Faithful tiny (.int, 0) earlier := by
  intro es earlier
  have hn : (run (fresh tiny) es).slice_nodes[1]? = some ⟨[], [⟨.int, 0, 0⟩], false, false⟩ := by decide
  have hlast : lastWriter (.int, 0) earlier = some ⟨writeInst, some 0⟩ := by decide
  refine ⟨hn, hlast, (producer_link_iff es hn (List.mem_singleton_self _)).1 ?_⟩
  exact (congrArg nodeOf hlast).symm

def wideInst : DynInst := ⟨false, List.replicate 8 ⟨.intReg, 1⟩ ++ [⟨.intReg, 0⟩], []⟩

/-- A register is written in a window, then outside, and read in the next window: the recorded producer is the first
writer, not the last.  A read after an instruction with nine destinations has no producer, although the instruction was
recorded. -/
theorem producer_link_untruthful :
    (let es : List (Event tiny) :=
      [.workBegin, .sliceCommit writeInst, .workEnd, .sliceCommit writeInst, .workBegin, .sliceCommit readInst]
     (run (fresh tiny) es).slice_nodes[1]?.map SliceNode.src = some [⟨.int, 0, 0⟩] ∧
     lastWriter (.int, 0) (before 1 (commitsOf (fresh tiny) es)) = some ⟨writeInst, none⟩) ∧
    (let es : List (Event tiny) := [.workBegin, .sliceCommit wideInst, .sliceCommit readInst]
     (run (fresh tiny) es).slice_nodes[1]?.map SliceNode.src = some [⟨.int, 0, -1⟩] ∧
     lastWriter (.int, 0) (before 1 (commitsOf (fresh tiny) es)) = some ⟨wideInst, some 0⟩) := by
  decide

end GemFI.Cov
