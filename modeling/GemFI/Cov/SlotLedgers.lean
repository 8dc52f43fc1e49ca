import GemFI.Cov.Cache
import GemFI.Cov.StoreQueue

/-!
# What the ledgers of the store queue and of the caches mean

The store queue keeps two ledgers slot by slot, and each cache one, block by block.  The data of a slot lives from a
write to the next write or free of the slot, that of a block from a fill or store to the next one or to the eviction.
Every ledger is the sum, over these lifetimes, of the cycles from the start to the last forward, consume or read
(`slot_ledgers_eq_total`).  An event of a cache reaches the first ledger of that cache.
-/

namespace GemFI.Cov

open CHAOSCov Lifetime

variable {cfg : Config} {s : CHAOSCov cfg} {e : Event cfg}

/-! ### The store queue -/

def SqFace.slotOps (φ : SqFace) (j : Fin cfg.sq_entries) (xs : List (Stamped cfg)) : List (Nat × Op) :=
  xs.filterMap fun x => onEntry j x.clock.cycles (φ.sqOp x.clock.active x.event)

private theorem opsOf_hookOp (φ : SqFace) {k : Clock} (hk : Ticks k s) (es : List (Event cfg))
    (j : Fin cfg.sq_entries) : opsOf step φ.hookOp s es j = φ.slotOps j (stamp k es) := by
  induction es generalizing k s with
  | nil => rfl
  | cons e es ih =>
    have hop : φ.hookOp s e j = onEntry j k.cycles (φ.sqOp k.active e) := by rw [SqFace.hookOp, ← hk.1, ← hk.2]
    rw [opsOf, ih (ticks_step hk e), hop, stamp, SqFace.slotOps, SqFace.slotOps, List.filterMap_cons]
    cases onEntry j k.cycles (φ.sqOp k.active e) <;> rfl

private theorem hookOp_counted (φ : SqFace) (s : CHAOSCov cfg) (e : Event cfg) (j : Fin cfg.sq_entries)
    (x : Nat × Op) (h : φ.hookOp s e j = some x) (huse : isUse x = true) : isCounted x = true := by
  obtain ⟨y, hy, hx⟩ := Option.bind_eq_some_iff.1 h
  split at hx
  · cases Option.some.inj hx
    cases e with
    | sqWrite i | sqFree i =>
      simp only [SqFace.sqOp] at hy
      split at hy
      · cases Option.some.inj hy
        cases huse
      · cases hy
    | sqConsume i | sqForward i =>
      simp only [SqFace.sqOp] at hy
      split at hy
      · cases Option.some.inj hy
        rfl
      · cases hy
    | _ => cases hy
  · cases hx

theorem sqLedger_eq_total (φ : SqFace) (es : List (Event cfg)) :
    φ.ledger (run (fresh cfg) es) = ∑ j, total (φ.slotOps j (timeline es)) := by
  have hrun : φ.ledger (es.foldl step (fresh cfg)) =
      φ.ledger (fresh cfg) + ∑ j, total (opsOf step φ.hookOp (fresh cfg) es j) :=
    ledger_foldl_eq_total Finset.univ (fun s j => φ.cell (s.sq_state j)) φ.ledger (sqCell_step φ)
      (fun s e _ => sqLedger_step φ s e) (fun _ _ _ _ h => onEntry_time h) roi_cycles_le_step (hookOp_counted φ)
      fun j _ => by cases φ <;> rfl
  have h0 : φ.ledger (fresh cfg) = 0 := by cases φ <;> rfl
  rw [run, hrun, h0, Nat.zero_add]
  exact Finset.sum_congr rfl fun j _ => congrArg total (opsOf_hookOp φ (ticks_fresh cfg) es j)

/-! ### One cache -/

def CacheLedger.cell (led : CacheLedger) (blk : Nat) : Option Live :=
  (led.state.lookup blk).bind fun st => if st.has_value then some ⟨st.birth, st.last_read, st.ever_read⟩ else none

def Event.cacheOp : Event cfg → Option (Nat × Nat × Op)
  | .cacheWrite c b => some (c, b, .start)
  | .cacheRead c b => some (c, b, .use true)
  | .cacheEvict c b => some (c, b, .stop)
  | _ => none

namespace CacheLedger

variable (led : CacheLedger) (blk b now : Nat)

theorem openSince_eq_anchor : led.openSince blk = (led.cell blk).map Live.anchor := by
  unfold openSince cell
  cases led.state.lookup blk with
  | none => rfl
  | some st => cases hv : st.has_value <;> cases hr : st.ever_read <;> simp [Live.anchor, HarpBlkState.since, hv, hr]

theorem cell_write : (led.write blk now).cell b = if blk = b then some ⟨now, now, false⟩ else led.cell b := by
  by_cases h : blk = b
  · subst h
    simp [cell, write]
  · simp [cell, write, h, Ne.symm h]

theorem cell_evict : (led.evict blk).cell b = if blk = b then none else led.cell b := by
  rw [cell, (evict_fields led blk).2.2]
  by_cases h : blk = b
  · subst h
    cases hl : led.state.lookup blk <;> simp [hl]
  · cases led.state.lookup blk <;> simp [h, Ne.symm h, cell]

theorem cell_read : (led.read blk now).cell b =
    if blk = b then next (led.cell blk) now (.use true) else led.cell b := by
  cases ho : led.openSince blk with
  | none =>
    -- without a value a read does nothing
    have hnone : led.cell blk = none := by simpa [openSince_eq_anchor] using ho
    rw [read_closed led blk now ho]
    by_cases h : blk = b
    · subst h
      rw [if_pos rfl, hnone]
      rfl
    · rw [if_neg h]
  | some p =>
    obtain ⟨st, hl, -, hr⟩ := read_open led blk now ho
    have hv : st.has_value = true := by
      cases hv : st.has_value <;> simp_all [openSince]
    rw [hr]
    by_cases h : blk = b
    · subst h
      simp [cell, hl, hv, next]
    · simp [cell, h, Ne.symm h]

theorem ace_read_eq_gain : (led.read blk now).ace_cycles = led.ace_cycles + gain (led.cell blk) now (.use true) := by
  rw [ace_read, openSince_eq_anchor, Option.map_map]
  rfl

end CacheLedger

/-! ### The ledgers of the caches -/

def ledgerIdx (s : CHAOSCov cfg) (cache : Nat) : Option Nat :=
  s.cache_ledgers.findIdx? fun led => decide (led.cache = cache)

def blockOp (find : Nat → Option Nat) (k : Nat) (clock : Clock) (e : Event cfg) (b : Nat) : Option (Nat × Op) :=
  if clock.active then
    e.cacheOp.bind fun x => if find x.1 = some k ∧ x.2.1 = b then some (clock.cycles, x.2.2) else none
  else none

def clock (s : CHAOSCov cfg) : Clock := ⟨s.roi_active, s.roi_cycles, 0⟩

def blockHook (k : Nat) (s : CHAOSCov cfg) (e : Event cfg) (b : Nat) : Option (Nat × Op) :=
  blockOp (ledgerIdx s) k (clock s) e b

def blockCell (k : Nat) (s : CHAOSCov cfg) (b : Nat) : Option Live := s.cache_ledgers[k]?.bind (·.cell b)

def aceAt (k : Nat) (s : CHAOSCov cfg) : Nat := (s.cache_ledgers[k]?.map (·.ace_cycles)).getD 0

private theorem updateLedger_getElem? (c : Nat) (f : CacheLedger → CacheLedger) (leds : List CacheLedger) (k : Nat) :
    (updateLedger c f leds)[k]? = leds[k]?.map fun led =>
      if leds.findIdx? (fun led => decide (led.cache = c)) = some k then f led else led := by
  induction leds generalizing k with
  | nil => rfl
  | cons led leds ih =>
    by_cases h : led.cache = c
    · cases k <;> simp [updateLedger, h, List.findIdx?_cons]
    · cases k with
      | zero => simp [updateLedger, h, List.findIdx?_cons]
      | succ k => simp [updateLedger, h, List.findIdx?_cons, ih k]

theorem ledgerAt_step (s : CHAOSCov cfg) (e : Event cfg) (k : Nat) :
    (step s e).cache_ledgers[k]? = s.cache_ledgers[k]?.map fun led =>
      ((cacheUpdate s e).map fun u => if ledgerIdx s u.1 = some k then u.2 led else led).getD led := by
  rw [cache_ledgers_step]
  cases hu : cacheUpdate s e with
  | none => simp
  | some u => exact updateLedger_getElem? u.1 u.2 s.cache_ledgers k

private theorem blockOp_of_none {k : Nat} (h : s.cache_ledgers[k]? = none) (e : Event cfg) (b : Nat) :
    blockHook k s e b = none := by
  have hfind : ∀ c, ledgerIdx s c ≠ some k := by
    intro c hc
    obtain ⟨hk, -⟩ := List.findIdx?_eq_some_iff_getElem.1 hc
    rw [List.getElem?_eq_getElem hk] at h
    cases h
  unfold blockHook blockOp
  split
  · cases e.cacheOp with
    | none => rfl
    | some x => exact if_neg fun hx => hfind _ hx.1
  · rfl

private theorem cacheUpdate_op (ha : s.roi_active = true) {x : Nat × Nat × Op} (hx : e.cacheOp = some x) :
    ∃ f, cacheUpdate s e = some (x.1, f) ∧ ∀ led : CacheLedger,
      (f led).ace_cycles = led.ace_cycles + gain (led.cell x.2.1) s.roi_cycles x.2.2 ∧
      ∀ b, (f led).cell b = if x.2.1 = b then next (led.cell x.2.1) s.roi_cycles x.2.2 else led.cell b := by
  cases e with
  | cacheWrite c b =>
    cases Option.some.inj hx
    exact ⟨(·.write b s.roi_cycles), by rw [cacheUpdate, ha]; rfl, fun led =>
      ⟨rfl, fun b' => led.cell_write b b' _⟩⟩
  | cacheRead c b =>
    cases Option.some.inj hx
    exact ⟨(·.read b s.roi_cycles), by rw [cacheUpdate, ha]; rfl, fun led =>
      ⟨led.ace_read_eq_gain b _, fun b' => led.cell_read b b' _⟩⟩
  | cacheEvict c b =>
    cases Option.some.inj hx
    exact ⟨(·.evict b), by rw [cacheUpdate, ha]; rfl, fun led =>
      ⟨(led.evict_fields b).2.1, fun b' => led.cell_evict b b'⟩⟩
  | _ => cases hx

private theorem cacheUpdate_no_op (hx : e.cacheOp = none) {u : Nat × (CacheLedger → CacheLedger)}
    (hu : cacheUpdate s e = some u) (led : CacheLedger) :
    (u.2 led).ace_cycles = led.ace_cycles ∧ ∀ b, (u.2 led).cell b = led.cell b := by
  unfold cacheUpdate at hu
  split at hu
  · cases hu
  · cases e with
    | cacheWrite | cacheRead | cacheEvict => cases hx
    | cacheTagAccess c =>
      cases Option.some.inj hu
      exact ⟨rfl, fun b => rfl⟩
    | _ => cases hu

theorem blockCell_step (k : Nat) (s : CHAOSCov cfg) (e : Event cfg) (b : Nat) :
    blockCell k (step s e) b = after (blockCell k s b) (blockHook k s e b).toList := by
  rw [blockCell, ledgerAt_step]
  cases hl : s.cache_ledgers[k]? with
  | none =>
    rw [blockOp_of_none hl, blockCell, hl]
    rfl
  | some led =>
    rw [blockCell, hl, Option.map_some, Option.bind_some, Option.bind_some]
    cases ha : s.roi_active with
    | false => simp [cacheUpdate, blockHook, blockOp, clock, ha, after]
    | true =>
      cases hx : e.cacheOp with
      | none =>
        have hop : blockHook k s e b = none := by simp [blockHook, blockOp, hx]
        rw [hop]
        cases hu : cacheUpdate s e with
        | none => rfl
        | some u =>
          rw [Option.map_some, Option.getD_some]
          split
          · exact (cacheUpdate_no_op hx hu led).2 b
          · rfl
      | some x =>
        obtain ⟨f, hf, hled⟩ := cacheUpdate_op ha hx
        have hop : blockHook k s e b =
            if ledgerIdx s x.1 = some k ∧ x.2.1 = b then some (s.roi_cycles, x.2.2) else none := by
          simp [blockHook, blockOp, clock, ha, hx]
        rw [hf, hop, Option.map_some, Option.getD_some]
        by_cases hc : ledgerIdx s x.1 = some k
        · rw [if_pos hc, (hled led).2 b]
          by_cases hb : x.2.1 = b
          · rw [if_pos hb, if_pos ⟨hc, hb⟩, hb]
            rfl
          · rw [if_neg hb, if_neg fun h => hb h.2]
            rfl
        · rw [if_neg hc, if_neg fun h => hc h.1]
          rfl

def blocks (es : List (Event cfg)) : Finset Nat := (es.filterMap fun e => e.cacheOp.map (·.2.1)).toFinset

def Reaches (k : Nat) (s : CHAOSCov cfg) (e : Event cfg) : Prop :=
  s.roi_active = true ∧ ∃ x, e.cacheOp = some x ∧ ledgerIdx s x.1 = some k

private theorem sum_blockOp {k : Nat} {x : Nat × Nat × Op} (ha : s.roi_active = true) (hx : e.cacheOp = some x)
    (hfind : ledgerIdx s x.1 = some k) {S : Finset Nat} (hS : x.2.1 ∈ S) :
    ∑ b ∈ S, charge (blockCell k s b) (blockHook k s e b).toList =
      gain (blockCell k s x.2.1) s.roi_cycles x.2.2 := by
  rw [Finset.sum_eq_single_of_mem x.2.1 hS]
  · simp [blockHook, blockOp, clock, ha, hx, hfind, charge]
  · intro b _ hb
    have hne : x.2.1 ≠ b := Ne.symm hb
    simp [blockHook, blockOp, hx, hne, charge]

private theorem sum_blockOp_of_not {k : Nat} (h : ¬Reaches k s e) (S : Finset Nat) :
    ∑ b ∈ S, charge (blockCell k s b) (blockHook k s e b).toList = 0 := by
  refine Finset.sum_eq_zero fun b _ => ?_
  have hop : blockHook k s e b = none := by
    unfold blockHook blockOp
    split
    · rename_i ha
      cases hx : e.cacheOp with
      | none => rfl
      | some x => exact if_neg fun hfind => h ⟨ha, x, hx, hfind.1⟩
    · rfl
  rw [hop]
  rfl

private theorem aceAt_step_of_not {k : Nat} (h : ¬Reaches k s e) : aceAt k (step s e) = aceAt k s := by
  rw [aceAt, ledgerAt_step, aceAt, Option.map_map]
  congr 2
  funext led
  rw [Function.comp_apply]
  cases hu : cacheUpdate s e with
  | none => rfl
  | some u =>
    rw [Option.map_some, Option.getD_some]
    split
    · next hfind =>
      cases hx : e.cacheOp with
      | none => exact (cacheUpdate_no_op hx hu led).1
      | some x =>
        have ha : s.roi_active = true := by
          by_contra hna
          simp [cacheUpdate, hna] at hu
        obtain ⟨f, hf, -⟩ := cacheUpdate_op ha hx
        cases Option.some.inj (hf.symm.trans hu)
        exact absurd ⟨ha, x, hx, hfind⟩ h
    · rfl

theorem aceAt_step (k : Nat) (s : CHAOSCov cfg) {S : Finset Nat} (hS : ∀ x, e.cacheOp = some x → x.2.1 ∈ S) :
    aceAt k (step s e) = aceAt k s + ∑ b ∈ S, charge (blockCell k s b) (blockHook k s e b).toList := by
  by_cases h : Reaches k s e
  swap
  · rw [aceAt_step_of_not h, sum_blockOp_of_not h, Nat.add_zero]
  obtain ⟨ha, x, hx, hfind⟩ := h
  obtain ⟨hk, -⟩ := List.findIdx?_eq_some_iff_getElem.1 hfind
  have hl := List.getElem?_eq_getElem hk
  obtain ⟨f, hf, hled⟩ := cacheUpdate_op ha hx
  rw [sum_blockOp ha hx hfind (hS x hx), aceAt, ledgerAt_step, aceAt, blockCell, hl, hf]
  simp only [Option.map_some, Option.getD_some, Option.bind_some, hfind, ↓reduceIte]
  exact (hled _).1

/-! ### Runs -/

/-- What happens to block `b` of ledger `k`, with the cycles, as the events say it. -/
def blockOps (k b : Nat) (xs : List (Stamped cfg)) : List (Nat × Op) :=
  xs.filterMap fun x => blockOp (fun c => cfg.caches.idxOf? c) k x.clock x.event b

private theorem caches_step (s : CHAOSCov cfg) (e : Event cfg) :
    (step s e).cache_ledgers.map (·.cache) = s.cache_ledgers.map (·.cache) := by
  apply List.ext_getElem?
  intro k
  rw [List.getElem?_map, List.getElem?_map, ledgerAt_step, Option.map_map]
  cases s.cache_ledgers[k]? with
  | none => rfl
  | some led =>
    cases hu : cacheUpdate s e with
    | none => rfl
    | some u =>
      have hkeep := (cacheUpdate_keeps hu led).1
      simp only [Option.map_some, Function.comp_apply, Option.getD_some]
      split
      · rw [hkeep]
      · rfl

private theorem caches_fresh : (fresh cfg).cache_ledgers.map (·.cache) = cfg.caches := by
  simp [fresh, Function.comp_def]

private theorem ledgerIdx_eq (h : s.cache_ledgers.map (·.cache) = cfg.caches) (c : Nat) :
    ledgerIdx s c = cfg.caches.idxOf? c := by
  rw [← h, List.idxOf?, List.findIdx?_map, ledgerIdx]
  rfl

private theorem opsOf_blockOp (k b : Nat) {t : Clock} (ht : Ticks t s)
    (hs : s.cache_ledgers.map (·.cache) = cfg.caches) (es : List (Event cfg)) :
    opsOf step (blockHook k) s es b = blockOps k b (stamp t es) := by
  induction es generalizing t s with
  | nil => rfl
  | cons e es ih =>
    have hfind : ledgerIdx s = fun c => cfg.caches.idxOf? c := funext (ledgerIdx_eq hs)
    have hop : blockHook k s e b = blockOp (fun c => cfg.caches.idxOf? c) k t e b := by
      rw [blockHook, hfind, blockOp, blockOp, clock, ht.1, ht.2]
    rw [opsOf, ih (ticks_step ht e) ((caches_step s e).trans hs), hop, stamp, blockOps, blockOps, List.filterMap_cons]
    cases blockOp (fun c => cfg.caches.idxOf? c) k t e b <;> rfl

private theorem blockOp_eq_some {find : Nat → Option Nat} {k b : Nat} {t : Clock} {x : Nat × Op}
    (h : blockOp find k t e b = some x) : ∃ y, e.cacheOp = some y ∧ x = (t.cycles, y.2.2) := by
  unfold blockOp at h
  split at h
  · obtain ⟨y, hy, hx⟩ := Option.bind_eq_some_iff.1 h
    split at hx
    · exact ⟨y, hy, (Option.some.inj hx).symm⟩
    · cases hx
  · cases h

private theorem blockHook_counted (k : Nat) (s : CHAOSCov cfg) (e : Event cfg) (b : Nat) (x : Nat × Op)
    (h : blockHook k s e b = some x) (huse : isUse x = true) : isCounted x = true := by
  obtain ⟨y, hy, rfl⟩ := blockOp_eq_some h
  cases e with
  | cacheRead c b' =>
    cases Option.some.inj hy
    rfl
  | cacheWrite c b' | cacheEvict c b' =>
    cases Option.some.inj hy
    cases huse
  | _ => cases hy

theorem aceAt_eq_total (k : Nat) (es : List (Event cfg)) :
    aceAt k (run (fresh cfg) es) = ∑ b ∈ blocks es, total (blockOps k b (timeline es)) := by
  have hS : ∀ e ∈ es, ∀ x, e.cacheOp = some x → x.2.1 ∈ blocks es := by
    intro e he x hx
    exact List.mem_toFinset.2 (List.mem_filterMap.2 ⟨e, he, by rw [hx]; rfl⟩)
  have hempty : ∀ b, blockCell k (fresh cfg) b = none := by
    intro b
    cases hc : cfg.caches[k]? <;> simp [blockCell, fresh, hc, CacheLedger.cell]
  have h0 : aceAt k (fresh cfg) = 0 := by
    cases hc : cfg.caches[k]? <;> simp [aceAt, fresh, hc]
  have hrun : aceAt k (es.foldl step (fresh cfg)) = aceAt k (fresh cfg) + ∑ b ∈ blocks es,
      total (opsOf step (blockHook k) (fresh cfg) es b) :=
    ledger_foldl_eq_total (blocks es) (blockCell k) (aceAt k) (blockCell_step k) (fun s e he => aceAt_step k s (hS e he))
      (fun s e b x hx => by obtain ⟨y, -, rfl⟩ := blockOp_eq_some hx; rfl) roi_cycles_le_step (blockHook_counted k)
      fun b _ => hempty b
  rw [run, hrun, h0, Nat.zero_add]
  exact Finset.sum_congr rfl fun b _ => congrArg total (opsOf_blockOp k b (ticks_fresh cfg) caches_fresh es)

private theorem length_caches (es : List (Event cfg)) :
    (run (fresh cfg) es).cache_ledgers.length = cfg.caches.length := by
  have h : (run (fresh cfg) es).cache_ledgers.map (·.cache) = cfg.caches :=
    List.foldlRecOn es step (motive := fun s => s.cache_ledgers.map (·.cache) = cfg.caches) caches_fresh
      fun s hs e _ => (caches_step s e).trans hs
  rw [← h, List.length_map]

/-- The forwarding ledger and the writeback ledger of the store queue are the sums, over the lifetimes of the data of
each slot, of the cycles from the write to the last forward or consume; each ledger of a cache is the sum, over the
lifetimes of the data of each block, of the cycles from the fill or store to the last read. -/
theorem slot_ledgers_eq_total (es : List (Event cfg)) :
    (run (fresh cfg) es).sq_fwd_ace_cycles = ∑ j, total (SqFace.fwd.slotOps j (timeline es)) ∧
    (run (fresh cfg) es).sq_wb_ace_cycles = ∑ j, total (SqFace.wb.slotOps j (timeline es)) ∧
    (run (fresh cfg) es).cache_ledgers.map (·.ace_cycles) =
      (List.range cfg.caches.length).map fun k => ∑ b ∈ blocks es, total (blockOps k b (timeline es)) := by
  refine ⟨sqLedger_eq_total .fwd es, sqLedger_eq_total .wb es, ?_⟩
  apply List.ext_getElem
  · rw [List.length_map, List.length_map, List.length_range, length_caches]
  · intro k h1 h2
    have hk : k < (run (fresh cfg) es).cache_ledgers.length := by simpa using h1
    have h := aceAt_eq_total k es
    rw [aceAt, List.getElem?_eq_getElem hk, Option.map_some, Option.getD_some] at h
    rw [List.getElem_map, List.getElem_map, List.getElem_range, h]

/-- Data written in cycle 0 and forwarded in cycles 1 and 3; the consume in cycle 2 belongs to the other ledger. -/
example :
    let es : List (Event tiny) := [.workBegin, .sqWrite 1, .tick, .sqForward 1, .tick, .sqConsume 1, .tick,
      .sqForward 1, .sqFree 1, .tick, .sqForward 1]
    total (SqFace.fwd.slotOps 1 (timeline es)) = 3 ∧ total (SqFace.wb.slotOps 1 (timeline es)) = 2 := by
  decide

end GemFI.Cov
