import Mathlib.Algebra.Order.Ring.Int
import Mathlib.Algebra.Order.Ring.Nat
import Mathlib.Data.Fintype.Basic
import Mathlib.Data.Finset.Card
import Mathlib.Data.List.AList
import Mathlib.Data.List.Sort
import Mathlib.Logic.Function.Basic

/-!
# The coverage analyzer CHAOSCov

The state of the analyzer and its event handlers.  The simulator calls them in any order; outside a ROI window the
collectors ignore them, except that allocating or freeing a physical register always closes its value.

Cycle counters and ledgers are natural numbers (simulated time is a 64-bit tick count), and the differences of the
source are never negative (`Cov/Bounds.lean`).  The doubles that `finishStats` derives from the ledgers, the detail
dump and the ROI ticks are left out.
-/

namespace GemFI.Cov

/-! ### Configuration and registers -/

inductive RoiMode where
  | m5ops | cycles | all
  deriving DecidableEq, Repr

/-- The register spaces of the collectors: `[0]` int, `[1]` float, `[2]` vector. -/
inductive RegCls where
  | int | float | vec
  deriving DecidableEq, Repr

structure Config where
  roi_mode : RoiMode
  numPhysRegs : RegCls → Nat
  sq_entries : Nat
  /-- `targetCache`, then `extraTargetCaches`. -/
  caches : List Nat

abbrev Slot (cfg : Config) := Σ c : RegCls, Fin (cfg.numPhysRegs c)

inductive RegClassType where
  | intReg | floatReg | vecReg | vecElem | vecPredReg | matReg | ccReg | miscReg | invalidReg
  deriving DecidableEq, Repr

structure PhysReg where
  classValue : RegClassType
  index : Nat
  deriving DecidableEq, Repr

def PhysReg.irf (r : PhysReg) : Option (RegCls × Nat) :=
  match r.classValue with
  | .intReg => some (.int, r.index)
  | .floatReg => some (.float, r.index)
  | .vecReg => some (.vec, r.index)
  | _ => none

structure DynInst where
  isStore : Bool
  dests : List PhysReg
  srcs : List PhysReg
  deriving DecidableEq, Repr

/-! ### Collector records -/

structure PrfRegState where
  birth : Nat := 0
  last_read : Nat := 0
  has_value : Bool := false
  ever_read : Bool := false
  last_commit_read : Nat := 0
  ever_commit_read : Bool := false
  deriving DecidableEq, Repr

structure SqState where
  birth : Nat := 0
  last_consume : Nat := 0
  has_data : Bool := false
  ever_consumed : Bool := false
  last_forward : Nat := 0
  ever_forwarded : Bool := false
  deriving DecidableEq, Repr

structure HarpBlkState where
  birth : Nat := 0
  last_read : Nat := 0
  has_value : Bool := false
  ever_read : Bool := false
  deriving DecidableEq, Repr

structure CacheLedger where
  cache : Nat
  state : AList (fun _ : Nat => HarpBlkState) := ∅
  ace_cycles : Nat := 0
  reads : Nat := 0
  writes : Nat := 0
  evicts : Nat := 0
  tag_reads : Nat := 0

def CacheLedger.write (led : CacheLedger) (blk now : Nat) : CacheLedger :=
  { led with
    writes := led.writes + 1
    state := led.state.insert blk { birth := now, last_read := now, has_value := true, ever_read := false } }

def CacheLedger.read (led : CacheLedger) (blk now : Nat) : CacheLedger :=
  match led.state.lookup blk with
  | none => led
  | some st =>
    if !st.has_value then led
    else
      let since := if !st.ever_read then st.birth else st.last_read
      { led with
        ace_cycles := led.ace_cycles + (now - since)
        state := led.state.insert blk { st with ever_read := true, last_read := now }
        reads := led.reads + 1 }

/-- The ledger of the cache after an eviction of `blk`; the state of the block is kept. -/
def CacheLedger.evict (led : CacheLedger) (blk : Nat) : CacheLedger :=
  let led := { led with evicts := led.evicts + 1 }
  match led.state.lookup blk with
  | none => led
  | some st => { led with state := led.state.insert blk { st with has_value := false } }

/-- A source register of a slice node with the node that produced its value (`-1`: before the ROI). -/
structure SliceSrc where
  cls : RegCls
  idx : Nat
  prod : Int
  deriving DecidableEq, Repr

structure SliceNode where
  dst : List (RegCls × Nat)
  src : List SliceSrc
  is_store : Bool
  on_path : Bool
  deriving DecidableEq, Repr

def MAX_REGS : Nat := 8
def nodeCap : Nat := 1 <<< 20
def eventCap : Nat := 4 <<< 20

structure SdcEvent (cfg : Config) where
  is_write : Bool
  slot : Slot cfg
  node : Int
  cycle : Nat
  deriving DecidableEq

/-! ### The analyzer -/

structure CHAOSCov (cfg : Config) where
  roi_active : Bool
  roi_cycles : Nat := 0
  -- IRF collector
  irf_state : Slot cfg → PrfRegState := fun _ => {}
  irf_ace_cycles : RegCls → Nat := fun _ => 0
  irf_ace_commit_cycles : RegCls → Nat := fun _ => 0
  irf_live_regs : RegCls → Nat := fun _ => 0
  irf_occ_hist : List Nat := List.replicate 33 0
  irf_occ_samples : Nat := 0
  rob_occ_hist : List Nat := List.replicate 8 0
  rd_hist : List Nat := List.replicate 17 0
  -- cache ledgers
  cache_ledgers : List CacheLedger := cfg.caches.map fun c => { cache := c }
  -- store-queue collector; `harp_sq_open` holds the births of the open intervals
  sq_state : Fin cfg.sq_entries → SqState := fun _ => {}
  harp_sq_open : List Nat := []
  sq_ace_cycles : Nat := 0
  sq_writes : Nat := 0
  sq_consumes : Nat := 0
  sq_frees : Nat := 0
  sq_fwd_ace_cycles : Nat := 0
  sq_wb_ace_cycles : Nat := 0
  sq_forwards : Nat := 0
  -- load-use distance
  lu_state : Slot cfg → Nat := fun _ => 0
  lu_samples : Nat := 0
  lu_hist : List Nat := List.replicate 17 0
  -- functional units
  ibr_input_bits : List Nat := List.replicate 4 0
  ibr_issues : List Nat := List.replicate 4 0
  fp_value_hist : List (List Nat) := List.replicate 4 (List.replicate 5 0)
  fp_lanes_sampled : Nat := 0
  iex_add_issues : Nat := 0
  iex_add_sampled : Nat := 0
  iex_sens_bits : Nat := 0
  iex_mul_issues : Nat := 0
  iex_mul_sampled : Nat := 0
  iex_mul_sens_bits : Nat := 0
  -- dynamic slice and SDC replay
  slice_nodes : List SliceNode := []
  slice_producer : RegCls → List Int := fun _ => []
  sdc_events : List (SdcEvent cfg) := []
  irf_ace_sdc_cycles : RegCls → Nat := fun _ => 0
  sdc_on_path_reads : Nat := 0
  sdc_total_reads : Nat := 0

def fresh (cfg : Config) : CHAOSCov cfg := { roi_active := decide (cfg.roi_mode = .all) }

namespace CHAOSCov

variable {cfg : Config}

/-! ### IRF collector -/

/-- The loop `while ((1ULL << b) < dist) b++`; `64` rounds are more than a distance up to `32768` needs. -/
def growBucket (dist : Nat) : Nat → Nat → Nat
  | 0, b => b
  | fuel + 1, b => if 2 ^ b < dist then growBucket dist fuel (b + 1) else b

def renameDistBucket (dist : Nat) : Nat :=
  if dist = 0 then 0
  else if 32768 < dist then 16
  else
    let b := growBucket dist 64 1
    if 16 ≤ b then 15 else b

def renameDistSample (s : CHAOSCov cfg) (dist : Nat) : CHAOSCov cfg :=
  { s with rd_hist := s.rd_hist.modify (renameDistBucket dist) (· + 1) }

def irfOnWrite (s : CHAOSCov cfg) (q : Slot cfg) : CHAOSCov cfg :=
  if !s.roi_active then s
  else
    let now := s.roi_cycles
    { s with
      irf_state := Function.update s.irf_state q
        { birth := now, last_read := now, has_value := true, ever_read := false,
          last_commit_read := now, ever_commit_read := false }
      lu_state := Function.update s.lu_state q 0
      sdc_events :=
        if s.sdc_events.length < eventCap then s.sdc_events ++ [⟨true, q, -1, now⟩] else s.sdc_events }

def irfOnRead (s : CHAOSCov cfg) (q : Slot cfg) : CHAOSCov cfg :=
  if !s.roi_active then s
  else
    let st := s.irf_state q
    if !st.has_value then s
    else
      let now := s.roi_cycles
      let s :=
        if !st.ever_read then
          { renameDistSample s (now - st.birth) with
            irf_ace_cycles := Function.update s.irf_ace_cycles q.1 (s.irf_ace_cycles q.1 + (now - st.birth)) }
        else
          { s with
            irf_ace_cycles := Function.update s.irf_ace_cycles q.1 (s.irf_ace_cycles q.1 + (now - st.last_read)) }
      { s with irf_state := Function.update s.irf_state q { st with ever_read := true, last_read := now } }

def irfOnCommitRead (s : CHAOSCov cfg) (q : Slot cfg) : CHAOSCov cfg :=
  if !s.roi_active then s
  else
    let st := s.irf_state q
    if !st.has_value then s
    else
      let now := s.roi_cycles
      let since := if !st.ever_commit_read then st.birth else st.last_commit_read
      { s with
        irf_ace_commit_cycles :=
          Function.update s.irf_ace_commit_cycles q.1 (s.irf_ace_commit_cycles q.1 + (now - since))
        irf_state := Function.update s.irf_state q { st with ever_commit_read := true, last_commit_read := now }
        sdc_events :=
          if s.sdc_events.length < eventCap ∧ s.slice_nodes ≠ [] then
            s.sdc_events ++ [⟨false, q, (s.slice_nodes.length : Int) - 1, now⟩]
          else s.sdc_events }

def irfOnAlloc (s : CHAOSCov cfg) (q : Slot cfg) : CHAOSCov cfg :=
  { s with irf_state := Function.update s.irf_state q { s.irf_state q with has_value := false, ever_read := false } }

def irfOnFree (s : CHAOSCov cfg) (q : Slot cfg) : CHAOSCov cfg :=
  { s with irf_state := Function.update s.irf_state q { s.irf_state q with has_value := false } }

def liveRegs (s : CHAOSCov cfg) (c : RegCls) : Nat :=
  (Finset.univ.filter fun i : Fin (cfg.numPhysRegs c) => (s.irf_state ⟨c, i⟩).has_value).card

def irfFinish (s : CHAOSCov cfg) : CHAOSCov cfg := { s with irf_live_regs := s.liveRegs }

def irfSampleOccupancy (s : CHAOSCov cfg) : CHAOSCov cfg :=
  let live := s.liveRegs .int + s.liveRegs .float + s.liveRegs .vec
  { s with
    irf_occ_hist := s.irf_occ_hist.modify (min (live / 8) 32) (· + 1)
    irf_occ_samples := s.irf_occ_samples + 1 }

/-! ### Dynamic slice and SDC replay -/

def sliceOnCommit (s : CHAOSCov cfg) (inst : DynInst) : CHAOSCov cfg :=
  if !s.roi_active then s
  else if nodeCap ≤ s.slice_nodes.length then s
  else
    let producer : RegCls → List Int :=
      if s.slice_producer .int = [] then fun c => List.replicate (cfg.numPhysRegs c) (-1) else s.slice_producer
    let dst := (inst.dests.filterMap PhysReg.irf).take MAX_REGS
    let src := ((inst.srcs.filterMap PhysReg.irf).take MAX_REGS).map fun r =>
      { cls := r.1, idx := r.2, prod := (producer r.1).getD r.2 (-1) : SliceSrc }
    let my : Int := s.slice_nodes.length
    { s with
      slice_producer := dst.foldl (fun pr r => Function.update pr r.1 ((pr r.1).set r.2 my)) producer
      slice_nodes := s.slice_nodes ++ [{ dst := dst, src := src, is_store := inst.isStore, on_path := false }] }

def markProducer (nodes : List SliceNode) (p : Int) : List SliceNode :=
  if 0 ≤ p ∧ p < nodes.length then nodes.modify p.toNat fun n => { n with on_path := true } else nodes

def sweepNode (nodes : List SliceNode) (i : Nat) : List SliceNode :=
  let nodes := nodes.modify i fun n => if n.is_store then { n with on_path := true } else n
  match nodes[i]? with
  | some n => if n.on_path then n.src.foldl (fun ns r => markProducer ns r.prod) nodes else nodes
  | none => nodes

/-- The newest-to-oldest sweep: node `n - 1` first. -/
def backwardSweep : Nat → List SliceNode → List SliceNode
  | 0, nodes => nodes
  | n + 1, nodes => backwardSweep n (sweepNode nodes n)

structure SdcSlot where
  birth : Nat := 0
  last_read : Nat := 0
  has_value : Bool := false
  ever_read : Bool := false
  deriving DecidableEq, Repr

structure Replay (cfg : Config) where
  sdc_st : Slot cfg → SdcSlot := fun _ => {}
  ace : RegCls → Nat := fun _ => 0
  on_path_reads : Nat := 0
  total_reads : Nat := 0

def onPath (nodes : List SliceNode) (node : Int) : Bool :=
  decide (0 ≤ node) && decide (node < nodes.length) && (nodes[node.toNat]?.map (·.on_path)).getD false

def replayEvent (nodes : List SliceNode) (r : Replay cfg) (ev : SdcEvent cfg) : Replay cfg :=
  let st := r.sdc_st ev.slot
  if ev.is_write then
    { r with
      sdc_st := Function.update r.sdc_st ev.slot
        { birth := ev.cycle, last_read := ev.cycle, has_value := true, ever_read := false } }
  else
    let r := { r with total_reads := r.total_reads + 1 }
    if !st.has_value then r
    else if onPath nodes ev.node then
      let since := if !st.ever_read then st.birth else st.last_read
      { r with
        ace := Function.update r.ace ev.slot.1 (r.ace ev.slot.1 + (ev.cycle - since))
        on_path_reads := r.on_path_reads + 1
        sdc_st := Function.update r.sdc_st ev.slot { st with ever_read := true, last_read := ev.cycle } }
    else
      { r with sdc_st := Function.update r.sdc_st ev.slot { st with last_read := ev.cycle } }

def replay (nodes : List SliceNode) (events : List (SdcEvent cfg)) : Replay cfg :=
  (events.insertionSort fun a b => a.cycle ≤ b.cycle).foldl (replayEvent nodes) {}

def solveSliceAndSdc (s : CHAOSCov cfg) : CHAOSCov cfg :=
  if s.slice_nodes = [] then s
  else
    let nodes := backwardSweep s.slice_nodes.length s.slice_nodes
    let r := replay nodes s.sdc_events
    { s with
      slice_nodes := nodes
      irf_ace_sdc_cycles := r.ace
      sdc_on_path_reads := r.on_path_reads
      sdc_total_reads := r.total_reads }

def finishStats (s : CHAOSCov cfg) : CHAOSCov cfg := solveSliceAndSdc (irfFinish s)

/-! ### ROI windows -/

def tickROICycles (s : CHAOSCov cfg) : CHAOSCov cfg :=
  if s.roi_active then { s with roi_cycles := s.roi_cycles + 1 } else s

/-- The band of the ROB occupancy: eighths of the capacity, as unsigned 32-bit arithmetic computes it. -/
def robBand (rob_in_flight rob_max : Int) : Nat :=
  min (Int.tdiv (rob_in_flight * 8) rob_max % 2 ^ 32).toNat 7

def onCycle (s : CHAOSCov cfg) (rob_in_flight rob_max : Int) : CHAOSCov cfg :=
  let s := s.tickROICycles
  let s := if s.roi_active then s.irfSampleOccupancy else s
  if s.roi_active ∧ 0 < rob_max then
    { s with rob_occ_hist := s.rob_occ_hist.modify (robBand rob_in_flight rob_max) (· + 1) }
  else s

/-- The assertion that no window is open is not modelled: with it compiled out, opening twice opens once. -/
def onWorkBegin (s : CHAOSCov cfg) : CHAOSCov cfg :=
  if cfg.roi_mode ≠ .m5ops then s else { s with roi_active := true }

def onWorkEnd (s : CHAOSCov cfg) : CHAOSCov cfg :=
  if cfg.roi_mode ≠ .m5ops then s else finishStats { s with roi_active := false }

/-! ### Functional units -/

def fuOnIssue (s : CHAOSCov cfg) (fu_class : Int) (src_bits : Nat) : CHAOSCov cfg :=
  if !s.roi_active then s
  else if fu_class < 0 ∨ 4 ≤ fu_class then s
  else
    { s with
      ibr_input_bits := s.ibr_input_bits.modify fu_class.toNat (· + src_bits)
      ibr_issues := s.ibr_issues.modify fu_class.toNat (· + 1) }

def fuOnIssueValue (s : CHAOSCov cfg) (fu_class : Int) (lane_class : List Int) : CHAOSCov cfg :=
  if !s.roi_active then s
  else if fu_class < 0 ∨ 4 ≤ fu_class then s
  else
    lane_class.foldl (fun s c =>
      if c < 0 ∨ 5 ≤ c then s
      else
        { s with
          fp_value_hist := s.fp_value_hist.modify fu_class.toNat fun row => row.modify c.toNat (· + 1)
          fp_lanes_sampled := s.fp_lanes_sampled + 1 }) s

/-- The input bits whose flip changes `op a b`, over both operands. -/
def sensBits (op : BitVec 64 → BitVec 64 → BitVec 64) (a b : BitVec 64) : Nat :=
  ((List.range 64).filter fun i => op (a ^^^ (1#64 <<< i)) b != op a b).length +
  ((List.range 64).filter fun i => op a (b ^^^ (1#64 <<< i)) != op a b).length

def SENS_SAMPLE : Nat := 16

def iexOnAddIssue (s : CHAOSCov cfg) (a b : BitVec 64) : CHAOSCov cfg :=
  if !s.roi_active then s
  else
    let s := { s with iex_add_issues := s.iex_add_issues + 1 }
    if s.iex_add_issues % SENS_SAMPLE ≠ 1 then s
    else { s with
      iex_add_sampled := s.iex_add_sampled + 1
      iex_sens_bits := s.iex_sens_bits + sensBits (· + ·) a b }

def iexOnMulIssue (s : CHAOSCov cfg) (a b : BitVec 64) : CHAOSCov cfg :=
  if !s.roi_active then s
  else
    let s := { s with iex_mul_issues := s.iex_mul_issues + 1 }
    if s.iex_mul_issues % SENS_SAMPLE ≠ 1 then s
    else { s with
      iex_mul_sampled := s.iex_mul_sampled + 1
      iex_mul_sens_bits := s.iex_mul_sens_bits + sensBits (· * ·) a b }

/-! ### Store-queue collector -/

def updateSq (s : CHAOSCov cfg) (slot_idx : Nat) (f : SqState → SqState) : CHAOSCov cfg :=
  if h : slot_idx < cfg.sq_entries then
    { s with sq_state := Function.update s.sq_state ⟨slot_idx, h⟩ (f (s.sq_state ⟨slot_idx, h⟩)) }
  else s

def sqOnWrite (s : CHAOSCov cfg) (slot_idx : Nat) : CHAOSCov cfg :=
  if !s.roi_active then s
  else
    let now := s.roi_cycles
    updateSq { s with sq_writes := s.sq_writes + 1, harp_sq_open := s.harp_sq_open ++ [now] } slot_idx fun _ =>
      { birth := now, last_consume := now, last_forward := now, has_data := true,
        ever_consumed := false, ever_forwarded := false }

def closeOldest (s : CHAOSCov cfg) : CHAOSCov cfg :=
  match s.harp_sq_open with
  | [] => s
  | birth :: rest =>
    { s with sq_ace_cycles := s.sq_ace_cycles + (s.roi_cycles - birth), harp_sq_open := rest }

def consumeSlot (s : CHAOSCov cfg) (slot_idx : Nat) : CHAOSCov cfg :=
  if h : slot_idx < cfg.sq_entries then
    let st := s.sq_state ⟨slot_idx, h⟩
    if st.has_data then
      let since := if !st.ever_consumed then st.birth else st.last_consume
      updateSq { s with sq_wb_ace_cycles := s.sq_wb_ace_cycles + (s.roi_cycles - since) } slot_idx fun st =>
        { st with ever_consumed := true, last_consume := s.roi_cycles }
    else s
  else s

def sqOnConsume (s : CHAOSCov cfg) (slot_idx : Nat) : CHAOSCov cfg :=
  if !s.roi_active then s
  else
    let s := closeOldest s
    consumeSlot { s with sq_consumes := s.sq_consumes + 1 } slot_idx

def sqOnFree (s : CHAOSCov cfg) (slot_idx : Nat) : CHAOSCov cfg :=
  if !s.roi_active then s
  else
    updateSq { s with sq_frees := s.sq_frees + 1, harp_sq_open := s.harp_sq_open.tail } slot_idx fun st =>
      { st with has_data := false }

def sqOnForward (s : CHAOSCov cfg) (slot_idx : Nat) : CHAOSCov cfg :=
  if !s.roi_active then s
  else
    if h : slot_idx < cfg.sq_entries then
      let st := s.sq_state ⟨slot_idx, h⟩
      if !st.has_data then s
      else
        let now := s.roi_cycles
        let since := if !st.ever_forwarded then st.birth else st.last_forward
        updateSq { s with
            sq_fwd_ace_cycles := s.sq_fwd_ace_cycles + (now - since)
            sq_forwards := s.sq_forwards + 1 } slot_idx fun st =>
          { st with ever_forwarded := true, last_forward := now }
    else s

/-! ### Load-use distance -/

def loadOnWriteback (s : CHAOSCov cfg) (q : Slot cfg) : CHAOSCov cfg :=
  if !s.roi_active then s
  else { s with lu_state := Function.update s.lu_state q (if s.roi_cycles ≠ 0 then s.roi_cycles else 1) }

/-- The first bucket whose bound `1 << i` covers the distance. -/
def loadUseBucket (dist : Nat) : Nat := ((List.range 16).find? fun i => decide (dist ≤ 2 ^ i)).getD 16

/-- The distance is a 64-bit difference: a load written back in cycle 0 is marked with cycle 1. -/
def loadOnUse (s : CHAOSCov cfg) (q : Slot cfg) : CHAOSCov cfg :=
  if !s.roi_active then s
  else
    let birth := s.lu_state q
    if birth = 0 then s
    else
      let dist := (s.roi_cycles + 2 ^ 64 - birth) % 2 ^ 64
      { s with
        lu_state := Function.update s.lu_state q 0
        lu_samples := s.lu_samples + 1
        lu_hist := s.lu_hist.modify (loadUseBucket dist) (· + 1) }

/-! ### Cache collector -/

/-- Update the ledger that `ledgerFor` finds: the first one of this cache. -/
def updateLedger (cache : Nat) (f : CacheLedger → CacheLedger) : List CacheLedger → List CacheLedger
  | [] => []
  | led :: rest => if led.cache = cache then f led :: rest else led :: updateLedger cache f rest

def cacheOnWrite (s : CHAOSCov cfg) (cache blk : Nat) : CHAOSCov cfg :=
  if !s.roi_active then s
  else
    let now := s.roi_cycles
    { s with cache_ledgers := updateLedger cache (fun led => led.write blk now) s.cache_ledgers }

def cacheOnRead (s : CHAOSCov cfg) (cache blk : Nat) : CHAOSCov cfg :=
  if !s.roi_active then s
  else
    { s with cache_ledgers := updateLedger cache (fun led => led.read blk s.roi_cycles) s.cache_ledgers }

def cacheOnEvict (s : CHAOSCov cfg) (cache blk : Nat) : CHAOSCov cfg :=
  if !s.roi_active then s
  else { s with cache_ledgers := updateLedger cache (fun led => led.evict blk) s.cache_ledgers }

def cacheOnTagAccess (s : CHAOSCov cfg) (cache : Nat) : CHAOSCov cfg :=
  if !s.roi_active then s
  else
    { s with cache_ledgers :=
        updateLedger cache (fun led => { led with tag_reads := led.tag_reads + 1 }) s.cache_ledgers }

end CHAOSCov

/-! ### Events and runs -/

inductive Event (cfg : Config) where
  | cycle (rob_in_flight rob_max : Int)
  | workBegin
  | workEnd
  | preDumpStats
  | irfWrite (q : Slot cfg)
  | irfRead (q : Slot cfg)
  | irfCommitRead (q : Slot cfg)
  | irfAlloc (q : Slot cfg)
  | irfFree (q : Slot cfg)
  | sliceCommit (inst : DynInst)
  | loadWriteback (q : Slot cfg)
  | loadUse (q : Slot cfg)
  | sqWrite (slot_idx : Nat)
  | sqConsume (slot_idx : Nat)
  | sqFree (slot_idx : Nat)
  | sqForward (slot_idx : Nat)
  | cacheWrite (cache blk : Nat)
  | cacheRead (cache blk : Nat)
  | cacheEvict (cache blk : Nat)
  | cacheTagAccess (cache : Nat)
  | fuIssue (fu_class : Int) (src_bits : Nat)
  | fuIssueValue (fu_class : Int) (lane_class : List Int)
  | addIssue (a b : BitVec 64)
  | mulIssue (a b : BitVec 64)
  deriving DecidableEq

abbrev Event.tick {cfg : Config} : Event cfg := .cycle 0 0

def step {cfg : Config} (s : CHAOSCov cfg) : Event cfg → CHAOSCov cfg
  | .cycle f m => s.onCycle f m
  | .workBegin => s.onWorkBegin
  | .workEnd => s.onWorkEnd
  | .preDumpStats => s.finishStats
  | .irfWrite q => s.irfOnWrite q
  | .irfRead q => s.irfOnRead q
  | .irfCommitRead q => s.irfOnCommitRead q
  | .irfAlloc q => s.irfOnAlloc q
  | .irfFree q => s.irfOnFree q
  | .sliceCommit inst => s.sliceOnCommit inst
  | .loadWriteback q => s.loadOnWriteback q
  | .loadUse q => s.loadOnUse q
  | .sqWrite i => s.sqOnWrite i
  | .sqConsume i => s.sqOnConsume i
  | .sqFree i => s.sqOnFree i
  | .sqForward i => s.sqOnForward i
  | .cacheWrite c b => s.cacheOnWrite c b
  | .cacheRead c b => s.cacheOnRead c b
  | .cacheEvict c b => s.cacheOnEvict c b
  | .cacheTagAccess c => s.cacheOnTagAccess c
  | .fuIssue c n => s.fuOnIssue c n
  | .fuIssueValue c l => s.fuOnIssueValue c l
  | .addIssue a b => s.iexOnAddIssue a b
  | .mulIssue a b => s.iexOnMulIssue a b

abbrev tiny : Config := { roi_mode := .m5ops, numPhysRegs := fun _ => 2, sq_entries := 2, caches := [0] }

def run {cfg : Config} (s : CHAOSCov cfg) (es : List (Event cfg)) : CHAOSCov cfg := es.foldl step s

end GemFI.Cov
