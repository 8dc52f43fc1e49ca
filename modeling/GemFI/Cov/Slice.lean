import GemFI.Cov.Timeline
import GemFI.Lib.Sweep

/-!
# The dynamic slice

`sliceOnCommit` records the committed instructions with the producers of their source registers; `solveSliceAndSdc`
marks the nodes on the path to a store in one newest-to-oldest sweep.  Every recorded producer is older than its
consumer (`SliceInv.linked`), so the marks are the nodes that a chain of recorded producers reaches from a store
(`marked_solve_iff`).
-/

namespace GemFI.Cov

open CHAOSCov Sweep

variable {cfg : Config}

/-- Node `j` has recorded node `i` as the producer of one of its sources. -/
def ProducerLink (nodes : List SliceNode) (j i : Nat) : Prop :=
  ∃ n, nodes[j]? = some n ∧ ∃ r ∈ n.src, r.prod = (i : Int)

def IsStore (nodes : List SliceNode) (j : Nat) : Prop := ∃ n, nodes[j]? = some n ∧ n.is_store = true

def Marked (nodes : List SliceNode) (i : Nat) : Prop := ∃ n, nodes[i]? = some n ∧ n.on_path = true

/-- A chain of recorded producers leads from a store to node `i`. -/
abbrev OnSlice (nodes : List SliceNode) : Nat → Prop := Reached (ProducerLink nodes) (IsStore nodes)

variable (nodes : List SliceNode)

theorem onPath_iff (n : Int) : onPath nodes n = true ↔ 0 ≤ n ∧ Marked nodes n.toNat := by
  simp only [onPath, Marked, Bool.and_eq_true, decide_eq_true_eq]
  cases hn : nodes[n.toNat]? with
  | none => simp
  | some nd =>
    have := (List.getElem?_eq_some_iff.1 hn).1
    simp only [Option.map_some, Option.getD_some, Option.some.injEq, exists_eq_left']
    exact and_congr_left fun _ => by omega

/-! ### The nodes without their marks -/

def recorded (nodes : List SliceNode) : List SliceNode := nodes.map fun n => { n with on_path := false }

theorem exists_of_recorded {nodes nodes' : List SliceNode} (h : recorded nodes = recorded nodes')
    {i : Nat} {n : SliceNode} (hn : nodes[i]? = some n) :
    ∃ n', nodes'[i]? = some n' ∧ n'.src = n.src ∧ n'.is_store = n.is_store := by
  have h1 : (recorded nodes)[i]? = some { n with on_path := false } := by simp [recorded, hn]
  rw [h, recorded, List.getElem?_map, Option.map_eq_some_iff] at h1
  obtain ⟨n', hn', he⟩ := h1
  rw [SliceNode.mk.injEq] at he
  exact ⟨n', hn', he.2.1, he.2.2.1⟩

private theorem producerLink_imp {nodes nodes' : List SliceNode} (h : recorded nodes = recorded nodes') {j i : Nat}
    (hl : ProducerLink nodes j i) : ProducerLink nodes' j i := by
  obtain ⟨n, hn, hr⟩ := hl
  obtain ⟨n', hn', hsrc, -⟩ := exists_of_recorded h hn
  exact ⟨n', hn', hsrc ▸ hr⟩

private theorem isStore_imp {nodes nodes' : List SliceNode} (h : recorded nodes = recorded nodes') {j : Nat}
    (hs : IsStore nodes j) : IsStore nodes' j := by
  obtain ⟨n, hn, hr⟩ := hs
  obtain ⟨n', hn', -, hst⟩ := exists_of_recorded h hn
  exact ⟨n', hn', hst ▸ hr⟩

theorem producerLink_congr {nodes nodes' : List SliceNode} (h : recorded nodes = recorded nodes') :
    ProducerLink nodes = ProducerLink nodes' := by
  funext j i
  exact propext ⟨producerLink_imp h, producerLink_imp h.symm⟩

theorem isStore_congr {nodes nodes' : List SliceNode} (h : recorded nodes = recorded nodes') :
    IsStore nodes = IsStore nodes' := by
  funext j
  exact propext ⟨isStore_imp h, isStore_imp h.symm⟩

private theorem recorded_modify (i : Nat) (f : SliceNode → SliceNode)
    (hf : ∀ n, { f n with on_path := false } = { n with on_path := false }) :
    recorded (nodes.modify i f) = recorded nodes := by
  refine List.ext_getElem? fun k => ?_
  simp only [recorded, List.getElem?_map, List.getElem?_modify]
  cases nodes[k]? with
  | none => rfl
  | some n => by_cases hk : i = k <;> simp [hk, hf]

private theorem recorded_markProducer (p : Int) : recorded (markProducer nodes p) = recorded nodes := by
  unfold markProducer
  split
  · exact recorded_modify nodes _ _ fun n => rfl
  · rfl

private theorem recorded_markProducers (src : List SliceSrc) (nodes : List SliceNode) :
    recorded (src.foldl (fun ns r => markProducer ns r.prod) nodes) = recorded nodes := by
  induction src generalizing nodes with
  | nil => rfl
  | cons r src ih => rw [List.foldl_cons, ih, recorded_markProducer]

private theorem recorded_sweepNode (k : Nat) : recorded (sweepNode nodes k) = recorded nodes := by
  have h1 : recorded (nodes.modify k fun n => if n.is_store then { n with on_path := true } else n) =
      recorded nodes := recorded_modify nodes k _ fun n => by split <;> rfl
  unfold sweepNode
  dsimp only
  split
  · split
    · rw [recorded_markProducers, h1]
    · exact h1
  · exact h1

theorem recorded_backwardSweep (n : Nat) (nodes : List SliceNode) :
    recorded (backwardSweep n nodes) = recorded nodes := by
  induction n generalizing nodes with
  | zero => rfl
  | succ n ih => rw [backwardSweep, ih, recorded_sweepNode]

/-! ### The sweep on the nodes is the sweep on their marks -/

private theorem marked_markProducer (p : Int) (i : Nat) :
    Marked (markProducer nodes p) i ↔ Marked nodes i ∨ (i < nodes.length ∧ p = (i : Int)) := by
  unfold markProducer Marked
  split
  · rename_i hp
    rw [List.getElem?_modify]
    by_cases hi : p.toNat = i
    · have hpi : p = (i : Int) := by omega
      have hlt : i < nodes.length := by omega
      simp [hpi, hlt]
    · have hpi : p ≠ (i : Int) := by omega
      simp [hi, hpi]
  · rename_i hp
    have : ¬ (i < nodes.length ∧ p = (i : Int)) := by omega
    simp only [this, or_false]

private theorem length_markProducer (p : Int) : (markProducer nodes p).length = nodes.length := by
  unfold markProducer
  split <;> simp

private theorem marked_markProducers (src : List SliceSrc) (nodes : List SliceNode) (i : Nat) :
    Marked (src.foldl (fun ns r => markProducer ns r.prod) nodes) i ↔
      Marked nodes i ∨ (i < nodes.length ∧ ∃ r ∈ src, r.prod = (i : Int)) := by
  induction src generalizing nodes with
  | nil => simp
  | cons r src ih =>
    rw [List.foldl_cons, ih, marked_markProducer, length_markProducer]
    simp only [List.mem_cons, exists_eq_or_imp, or_assoc, ← and_or_left]

private theorem marked_modify_store (k i : Nat) :
    Marked (nodes.modify k fun n => if n.is_store then { n with on_path := true } else n) i ↔
      Marked nodes i ∨ (i = k ∧ IsStore nodes k) := by
  unfold Marked IsStore
  rw [List.getElem?_modify]
  by_cases hi : k = i
  · subst hi
    cases nodes[k]? with
    | none => simp
    | some n => cases hst : n.is_store <;> simp [hst]
  · simp [hi, Ne.symm hi]

theorem lt_length_of_producerLink {nodes : List SliceNode} {j i : Nat} (h : ProducerLink nodes j i) :
    j < nodes.length := by
  obtain ⟨n, hn, -⟩ := h
  exact (List.getElem?_eq_some_iff.1 hn).1

theorem lt_length_of_isStore {nodes : List SliceNode} {j : Nat} (h : IsStore nodes j) : j < nodes.length := by
  obtain ⟨n, hn, -⟩ := h
  exact (List.getElem?_eq_some_iff.1 hn).1

private theorem marked_sweepNode {nodes : List SliceNode} (hdown : ∀ j i, ProducerLink nodes j i → i < j) {k : Nat}
    (hk : k < nodes.length) (i : Nat) :
    Marked (sweepNode nodes k) i ↔ sweepMark (ProducerLink nodes) (IsStore nodes) k (Marked nodes) i := by
  have hstore := marked_modify_store nodes k
  generalize hnodes : (nodes.modify k fun n => if n.is_store then { n with on_path := true } else n) = nodes1
    at hstore
  have hlen : nodes1.length = nodes.length := by rw [← hnodes, List.length_modify]
  -- the node that is visited, with its new mark
  obtain ⟨n, hn, hsrc⟩ : ∃ n, nodes1[k]? = some n ∧ n.src = nodes[k].src := by
    rw [← hnodes, List.getElem?_modify, List.getElem?_eq_getElem hk]
    cases hst : nodes[k].is_store <;> simp [hst]
  have hlink : (i < nodes1.length ∧ ∃ r ∈ n.src, r.prod = (i : Int)) ↔ ProducerLink nodes k i := by
    rw [hlen, hsrc]
    constructor
    · rintro ⟨-, hr⟩
      exact ⟨nodes[k], List.getElem?_eq_getElem hk, hr⟩
    · intro hl
      have := hdown k i hl
      obtain ⟨n', hn', hr⟩ := hl
      rw [List.getElem?_eq_getElem hk, Option.some.injEq] at hn'
      exact ⟨by omega, hn' ▸ hr⟩
  have hmark : n.on_path = true ↔ Marked nodes k ∨ IsStore nodes k := by
    have : Marked nodes1 k ↔ n.on_path = true := by simp [Marked, hn]
    rw [← this, hstore]
    simp only [true_and]
  rw [sweepNode]
  simp only [hnodes, hn, sweepMark]
  by_cases hon : n.on_path = true
  · have hk' := hmark.1 hon
    -- a visited node on the path that is no store was marked before
    have hself : (Marked nodes i ∨ i = k ∧ IsStore nodes k) ↔ Marked nodes i ∨ i = k := by
      constructor
      · rintro (h | ⟨h, -⟩)
        · exact .inl h
        · exact .inr h
      · rintro (h | rfl)
        · exact .inl h
        · exact hk'.imp_right fun h => ⟨rfl, h⟩
    rw [if_pos hon, marked_markProducers, hlink, hstore, hself, or_assoc]
    simp only [hk', true_and]
  · have hk' : ¬ (Marked nodes k ∨ IsStore nodes k) := fun h => hon (hmark.2 h)
    have hst : ¬ IsStore nodes k := fun h => hk' (.inr h)
    rw [if_neg hon, hstore]
    simp only [hst, and_false, or_false, iff_self_or, and_imp]
    exact fun hm _ => absurd (.inl hm) hk'

private theorem marked_backwardSweep {n : Nat} {nodes : List SliceNode}
    (hdown : ∀ j i, ProducerLink nodes j i → i < j) (hn : n ≤ nodes.length) :
    Marked (backwardSweep n nodes) = sweepMarks (ProducerLink nodes) (IsStore nodes) n (Marked nodes) := by
  induction n generalizing nodes with
  | zero => rfl
  | succ n ih =>
    have hrec := recorded_sweepNode nodes n
    have hlen : (sweepNode nodes n).length = nodes.length := by simpa [recorded] using congrArg List.length hrec
    rw [backwardSweep, ih (by rwa [producerLink_congr hrec]) (by omega), producerLink_congr hrec, isStore_congr hrec,
      sweepMarks]
    congr 1
    funext i
    exact propext (marked_sweepNode hdown (by omega) i)

/-! ### The invariant of the slice -/

structure SliceInv (s : CHAOSCov cfg) : Prop where
  linked : ∀ j i, ProducerLink s.slice_nodes j i → i < j
  producer : ∀ c, ∀ p ∈ s.slice_producer c, p < (s.slice_nodes.length : Int)
  sound : ∀ i, Marked s.slice_nodes i → OnSlice s.slice_nodes i

theorem SliceInv.marked_iff {s : CHAOSCov cfg} (h : SliceInv s) (i : Nat) :
    Marked (backwardSweep s.slice_nodes.length s.slice_nodes) i ↔ OnSlice s.slice_nodes i := by
  rw [marked_backwardSweep h.linked (Nat.le_refl _)]
  exact sweepMarks_iff h.linked (fun j hj => lt_length_of_isStore hj) (fun j i hl => lt_length_of_producerLink hl)
    h.sound i

theorem slice_nodes_solve (s : CHAOSCov cfg) :
    (solveSliceAndSdc s).slice_nodes = backwardSweep s.slice_nodes.length s.slice_nodes := by
  unfold solveSliceAndSdc
  split
  · rename_i h
    rw [h]
    rfl
  · rfl

theorem slice_finishStats (s : CHAOSCov cfg) :
    s.finishStats.slice_nodes = backwardSweep s.slice_nodes.length s.slice_nodes ∧
    s.finishStats.slice_producer = s.slice_producer := by
  refine ⟨slice_nodes_solve (irfFinish s), ?_⟩
  unfold finishStats solveSliceAndSdc
  split <;> rfl

theorem slice_step_roi (s : CHAOSCov cfg) {e : Event cfg} (h : e.part = .roi) :
    (step s e).slice_producer = s.slice_producer ∧
    ((step s e).slice_nodes = s.slice_nodes ∨
      (step s e).slice_nodes = backwardSweep s.slice_nodes.length s.slice_nodes) := by
  cases e with
  | cycle n m =>
    cases ha : s.roi_active with
    | false => simp [step, onCycle, tickROICycles, ha]
    | true =>
      simp only [step, onCycle, tickROICycles, irfSampleOccupancy, ha, true_and, ↓reduceIte]
      split <;> exact ⟨rfl, .inl rfl⟩
  | workBegin => by_cases hm : cfg.roi_mode = .m5ops <;> simp [step, onWorkBegin, hm]
  | workEnd =>
    by_cases hm : cfg.roi_mode = .m5ops
    · simp only [step, onWorkEnd, hm, ne_eq, not_true_eq_false, ↓reduceIte, slice_finishStats, or_true, true_and]
    · simp [step, onWorkEnd, hm]
  | preDumpStats => exact ⟨(slice_finishStats s).2, .inr (slice_finishStats s).1⟩
  | _ => cases h

private theorem SliceInv.sweep {s s' : CHAOSCov cfg} (h : SliceInv s) (hp : s'.slice_producer = s.slice_producer)
    (hn : s'.slice_nodes = backwardSweep s.slice_nodes.length s.slice_nodes) : SliceInv s' := by
  have hrec : recorded s'.slice_nodes = recorded s.slice_nodes := by rw [hn, recorded_backwardSweep]
  have hlen : s'.slice_nodes.length = s.slice_nodes.length := by simpa [recorded] using congrArg List.length hrec
  constructor
  · rw [producerLink_congr hrec]
    exact h.linked
  · rw [hp, hlen]
    exact h.producer
  · intro i hi
    rw [OnSlice, producerLink_congr hrec, isStore_congr hrec]
    rw [hn] at hi
    exact (h.marked_iff i).1 hi

private theorem reached_mono {l l' : Nat → Nat → Prop} {r r' : Nat → Prop} (hl : ∀ j i, l j i → l' j i)
    (hr : ∀ j, r j → r' j) {i : Nat} (h : Reached l r i) : Reached l' r' i := by
  obtain ⟨j, hj, hchain⟩ := h
  exact ⟨j, hr j hj, Relation.ReflTransGen.mono hl _ _ hchain⟩

private theorem SliceInv.append {s s' : CHAOSCov cfg} (h : SliceInv s) {n : SliceNode}
    (hn : s'.slice_nodes = s.slice_nodes ++ [n]) (hoff : n.on_path = false)
    (hsrc : ∀ r ∈ n.src, r.prod < (s.slice_nodes.length : Int))
    (hp : ∀ c, ∀ p ∈ s'.slice_producer c, p ≤ (s.slice_nodes.length : Int)) : SliceInv s' := by
  have hget : ∀ (j : Nat) (m : SliceNode), s'.slice_nodes[j]? = some m →
      s.slice_nodes[j]? = some m ∨ (j = s.slice_nodes.length ∧ m = n) := by
    intro j m hm
    rw [hn, List.getElem?_append] at hm
    split at hm
    · exact .inl hm
    · obtain ⟨hj, hm⟩ := List.getElem?_eq_some_iff.1 hm
      simp only [List.length_cons, List.length_nil] at hj
      exact .inr ⟨by omega, by simpa using hm.symm⟩
  have hold : ∀ (j : Nat) (m : SliceNode), s.slice_nodes[j]? = some m → s'.slice_nodes[j]? = some m := by
    intro j m hm
    rw [hn, List.getElem?_append_left (List.getElem?_eq_some_iff.1 hm).1, hm]
  constructor
  · rintro j i ⟨m, hm, r, hr, hri⟩
    rcases hget j m hm with hm | ⟨rfl, rfl⟩
    · exact h.linked j i ⟨m, hm, r, hr, hri⟩
    · have := hsrc r hr
      omega
  · intro c p hp'
    have := hp c p hp'
    rw [hn, List.length_append, List.length_singleton]
    omega
  · rintro i ⟨m, hm, hon⟩
    rcases hget i m hm with hm | ⟨rfl, rfl⟩
    · refine reached_mono ?_ ?_ (h.sound i ⟨m, hm, hon⟩)
      · rintro j i ⟨m, hm, hr⟩
        exact ⟨m, hold j m hm, hr⟩
      · rintro j ⟨m, hm, hst⟩
        exact ⟨m, hold j m hm, hst⟩
    · rw [hoff] at hon
      cases hon

private theorem producer_foldl {my : Int} (dst : List (RegCls × Nat)) {pr : RegCls → List Int}
    (h : ∀ c, ∀ p ∈ pr c, p ≤ my) (c : RegCls) :
    ∀ p ∈ dst.foldl (fun pr r => Function.update pr r.1 ((pr r.1).set r.2 my)) pr c, p ≤ my := by
  induction dst generalizing pr with
  | nil => exact h c
  | cons r dst ih =>
    refine ih fun c' p hp => ?_
    dsimp only at hp
    by_cases hc : c' = r.1
    · subst hc
      rw [Function.update_self] at hp
      rcases List.mem_or_eq_of_mem_set hp with hp | rfl
      · exact h r.1 p hp
      · exact Int.le_refl _
    · rw [Function.update_of_ne hc] at hp
      exact h c' p hp

theorem sliceInv_step {s : CHAOSCov cfg} (h : SliceInv s) (e : Event cfg) : SliceInv (step s e) := by
  by_cases hroi : e.part = .roi
  · obtain ⟨hp, hn | hn⟩ := slice_step_roi s hroi
    · exact ⟨by rw [hn]; exact h.linked, by rw [hp, hn]; exact h.producer, by rw [hn]; exact h.sound⟩
    · exact h.sweep hp hn
  by_cases hslice : e.part = .slice
  · cases e with
    | sliceCommit inst =>
      simp only [step, sliceOnCommit]
      split
      · exact h
      · split
        · exact h
        · -- the lazily initialised producer table holds older nodes or `-1`
          have hpr : ∀ c, ∀ p ∈ (if s.slice_producer .int = [] then fun c => List.replicate (cfg.numPhysRegs c) (-1)
              else s.slice_producer) c, p < (s.slice_nodes.length : Int) := by
            intro c p hp
            split at hp
            · rw [List.eq_of_mem_replicate hp]
              omega
            · exact h.producer c p hp
          refine h.append rfl rfl ?_ ?_
          · intro r hr
            obtain ⟨q, -, rfl⟩ := List.mem_map.1 hr
            dsimp only
            rw [List.getD_eq_getElem?_getD]
            cases hget : ((if s.slice_producer .int = [] then fun c => List.replicate (cfg.numPhysRegs c) (-1)
              else s.slice_producer) q.1)[q.2]? with
            | none => simp only [Option.getD_none]; omega
            | some p => exact hpr q.1 p (List.mem_of_getElem? hget)
          · exact producer_foldl _ fun c p hp => Int.le_of_lt (hpr c p hp)
    | _ => cases hslice
  · obtain ⟨hn, hp, -⟩ := slice_frame s hroi hslice
    exact ⟨by rw [hn]; exact h.linked, by rw [hp, hn]; exact h.producer, by rw [hn]; exact h.sound⟩

theorem sliceInv_run (es : List (Event cfg)) : SliceInv (run (fresh cfg) es) := by
  have h0 : SliceInv (fresh cfg) := by
    constructor
    · rintro j i ⟨n, hn, -⟩
      simp [fresh] at hn
    · intro c p hp
      simp [fresh] at hp
    · rintro i ⟨n, hn, -⟩
      simp [fresh] at hn
  exact List.foldlRecOn es step h0 fun s hs e _ => sliceInv_step hs e

/-- After a solve, in any run, a node is marked if and only if it is a store or a chain of recorded producers leads
from a store back to it. -/
theorem marked_solve_iff (es : List (Event cfg)) (i : Nat) :
    let nodes := (run (fresh cfg) es).slice_nodes
    Marked (solveSliceAndSdc (run (fresh cfg) es)).slice_nodes i ↔
      IsStore nodes i ∨ ∃ j, IsStore nodes j ∧ Relation.TransGen (ProducerLink nodes) j i := by
  intro nodes
  rw [slice_nodes_solve, (sliceInv_run es).marked_iff, OnSlice, Reached]
  constructor
  · rintro ⟨j, hj, hchain⟩
    rcases Relation.reflTransGen_iff_eq_or_transGen.1 hchain with rfl | hchain
    · exact .inl hj
    · exact .inr ⟨j, hj, hchain⟩
  · rintro (hi | ⟨j, hj, hchain⟩)
    · exact ⟨i, hi, .refl⟩
    · exact ⟨j, hj, hchain.to_reflTransGen⟩

end GemFI.Cov
