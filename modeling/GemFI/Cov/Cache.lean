import GemFI.Cov.Timeline
import GemFI.Lib.Table

/-!
# Cache residency

The ledger of a cache keeps an interval for each block: a fill or store opens it, a read charges the cycles since the
last charge (`openSince`), an eviction closes it.

* A ledger is charged at most the elapsed cycles for each block it has seen (`LedgerInv`, `ledgerInv_run`).
* The intervals stay open across windows, and an eviction or overwrite outside a window is missed: the reads after it
  count from after it in every continuation exactly if it comes inside a window or finds no open interval
  (`reads_count_from_iff`).
-/

namespace GemFI.Cov

open CHAOSCov

variable {cfg : Config}

def HarpBlkState.since (st : HarpBlkState) : Nat := if !st.ever_read then st.birth else st.last_read

/-! ### One ledger -/

namespace CacheLedger

/-- The cycle from which the next read of an open block is charged. -/
def openSince (led : CacheLedger) (blk : Nat) : Option Nat :=
  (led.state.lookup blk).bind fun st => if st.has_value then some st.since else none

variable (led : CacheLedger) (blk b now : Nat)

theorem openSince_write : (led.write blk now).openSince b = if blk = b then some now else led.openSince b := by
  by_cases h : blk = b
  · subst h
    simp [openSince, write, HarpBlkState.since]
  · simp [openSince, write, h, Ne.symm h]

theorem evict_fields : (led.evict blk).cache = led.cache ∧ (led.evict blk).ace_cycles = led.ace_cycles ∧
    (led.evict blk).state = ((led.state.lookup blk).map fun st =>
      led.state.insert blk { st with has_value := false }).getD led.state := by
  unfold evict
  dsimp only
  cases led.state.lookup blk <;> exact ⟨rfl, rfl, rfl⟩

theorem openSince_evict : (led.evict blk).openSince b = if blk = b then none else led.openSince b := by
  rw [openSince, (evict_fields led blk).2.2]
  by_cases h : blk = b
  · subst h
    cases hl : led.state.lookup blk <;> simp [hl]
  · cases led.state.lookup blk <;> simp [h, Ne.symm h, openSince]

theorem read_closed (h : led.openSince blk = none) : led.read blk now = led := by
  unfold read
  cases hl : led.state.lookup blk with
  | none => rfl
  | some st => simp_all [openSince]

theorem read_open {p : Nat} (h : led.openSince blk = some p) : ∃ st, led.state.lookup blk = some st ∧ st.since = p ∧
    led.read blk now = { led with
      ace_cycles := led.ace_cycles + (now - p)
      state := led.state.insert blk { st with ever_read := true, last_read := now }
      reads := led.reads + 1 } := by
  cases hl : led.state.lookup blk with
  | none => simp [openSince, hl] at h
  | some st =>
    obtain ⟨hv, rfl⟩ : st.has_value = true ∧ st.since = p := by simpa [openSince, hl] using h
    exact ⟨st, rfl, rfl, by simp [read, hl, hv, HarpBlkState.since]⟩

theorem openSince_read : (led.read blk now).openSince b =
    if blk = b then (led.openSince blk).map fun _ => now else led.openSince b := by
  cases ho : led.openSince blk with
  | none =>
    rw [read_closed led blk now ho]
    by_cases h : blk = b <;> simp_all
  | some p =>
    obtain ⟨st, hl, -, hr⟩ := read_open led blk now ho
    have hv : st.has_value = true := by
      cases hv : st.has_value <;> simp_all [openSince]
    rw [hr]
    by_cases h : blk = b
    · subst h
      simp [openSince, hv, HarpBlkState.since]
    · simp [openSince, h, Ne.symm h]

theorem ace_read : (led.read blk now).ace_cycles = led.ace_cycles + ((led.openSince blk).map (now - ·)).getD 0 := by
  cases ho : led.openSince blk with
  | none => rw [read_closed led blk now ho]; rfl
  | some p =>
    obtain ⟨st, -, -, hr⟩ := read_open led blk now ho
    rw [hr]
    rfl

theorem cache_read : (led.read blk now).cache = led.cache := by
  cases ho : led.openSince blk with
  | none => rw [read_closed led blk now ho]
  | some p =>
    obtain ⟨st, -, -, hr⟩ := read_open led blk now ho
    rw [hr]

end CacheLedger

/-- A ledger is charged up to the last charge of each block, which lies in the past. -/
structure LedgerInv (now : Nat) (led : CacheLedger) : Prop where
  past : ∀ b st, led.state.lookup b = some st → st.since ≤ now
  charged : led.ace_cycles ≤ keySum HarpBlkState.since led.state

namespace LedgerInv

variable {now : Nat} {led : CacheLedger}

theorem mono {now' : Nat} (h : LedgerInv now led) (hle : now ≤ now') : LedgerInv now' led :=
  ⟨fun b st hb => Nat.le_trans (h.past b st hb) hle, h.charged⟩

private theorem old_le (h : LedgerInv now led) (blk : Nat) :
    ((led.state.lookup blk).map HarpBlkState.since).getD 0 ≤ now := by
  cases hl : led.state.lookup blk with
  | none => exact Nat.zero_le _
  | some st => exact h.past blk st hl

private theorem past_insert (h : LedgerInv now led) (blk : Nat) {st : HarpBlkState} (hst : st.since ≤ now) :
    ∀ b st', (led.state.insert blk st).lookup b = some st' → st'.since ≤ now := by
  intro b st' hb
  by_cases hbb : b = blk
  · subst hbb
    obtain rfl : st = st' := by simpa using hb
    exact hst
  · rw [AList.lookup_insert_ne hbb] at hb
    exact h.past b st' hb

theorem write (h : LedgerInv now led) (blk : Nat) : LedgerInv now (led.write blk now) := by
  refine ⟨h.past_insert blk (Nat.le_refl _), ?_⟩
  have hsum := keySum_insert HarpBlkState.since led.state blk ⟨now, now, true, false⟩
  have hsince : HarpBlkState.since ⟨now, now, true, false⟩ = now := rfl
  have hold := h.old_le blk
  have hc := h.charged
  simp only [CacheLedger.write]
  omega

theorem read (h : LedgerInv now led) (blk : Nat) : LedgerInv now (led.read blk now) := by
  cases ho : led.openSince blk with
  | none => rwa [led.read_closed blk now ho]
  | some p =>
    obtain ⟨st, hl, rfl, hr⟩ := led.read_open blk now ho
    have hsum := keySum_insert HarpBlkState.since led.state blk { st with ever_read := true, last_read := now }
    have hsince : HarpBlkState.since { st with ever_read := true, last_read := now } = now := rfl
    have hp := h.past blk st hl
    have hc := h.charged
    rw [hl, Option.map_some, Option.getD_some, hsince] at hsum
    rw [hr]
    refine ⟨h.past_insert blk (Nat.le_refl _), ?_⟩
    dsimp only
    omega

theorem evict (h : LedgerInv now led) (blk : Nat) : LedgerInv now (led.evict blk) := by
  obtain ⟨-, hace, hstate⟩ := led.evict_fields blk
  cases hl : led.state.lookup blk with
  | none =>
    rw [hl] at hstate
    exact ⟨by rw [hstate]; exact h.past, by rw [hace, hstate]; exact h.charged⟩
  | some st =>
    have hsum := keySum_insert HarpBlkState.since led.state blk { st with has_value := false }
    have hsince : HarpBlkState.since { st with has_value := false } = st.since := rfl
    rw [hl, Option.map_some, Option.getD_some, hsince] at hsum
    rw [hl, Option.map_some, Option.getD_some] at hstate
    refine ⟨by rw [hstate]; exact h.past_insert blk (h.past blk st hl), ?_⟩
    have hc := h.charged
    rw [hace, hstate]
    omega

end LedgerInv

/-! ### The ledgers of the analyzer -/

def ledgerFor (s : CHAOSCov cfg) (cache : Nat) : Option CacheLedger :=
  s.cache_ledgers.find? fun led => decide (led.cache = cache)

def aceCycles (s : CHAOSCov cfg) (cache : Nat) : Nat := ((ledgerFor s cache).map (·.ace_cycles)).getD 0

def openSince (s : CHAOSCov cfg) (cache blk : Nat) : Option Nat := (ledgerFor s cache).bind (·.openSince blk)

def cacheUpdate (s : CHAOSCov cfg) (e : Event cfg) : Option (Nat × (CacheLedger → CacheLedger)) :=
  if !s.roi_active then none
  else
    match e with
    | .cacheWrite c b => some (c, fun led => led.write b s.roi_cycles)
    | .cacheRead c b => some (c, fun led => led.read b s.roi_cycles)
    | .cacheEvict c b => some (c, fun led => led.evict b)
    | .cacheTagAccess c => some (c, fun led => { led with tag_reads := led.tag_reads + 1 })
    | _ => none

theorem cache_ledgers_step (s : CHAOSCov cfg) (e : Event cfg) :
    (step s e).cache_ledgers =
      ((cacheUpdate s e).map fun u => updateLedger u.1 u.2 s.cache_ledgers).getD s.cache_ledgers := by
  by_cases hp : e.part = .cache
  · cases ha : s.roi_active <;> cases e with
    | cacheWrite | cacheRead | cacheEvict | cacheTagAccess =>
      simp [step, cacheOnWrite, cacheOnRead, cacheOnEvict, cacheOnTagAccess, cacheUpdate, ha]
    | _ => cases hp
  · rw [cache_frame s hp]
    cases e with
    | cacheWrite | cacheRead | cacheEvict | cacheTagAccess => exact absurd rfl hp
    | _ => simp [cacheUpdate]

variable {s : CHAOSCov cfg}

variable {g : Event cfg} {e : Event cfg} {es : List (Event cfg)} {f : CacheLedger → CacheLedger}

theorem cacheUpdate_keeps {c : Nat} (h : cacheUpdate s e = some (c, f)) (led : CacheLedger) :
    (f led).cache = led.cache ∧ (LedgerInv s.roi_cycles led → LedgerInv s.roi_cycles (f led)) := by
  cases ha : s.roi_active with
  | false => simp [cacheUpdate, ha] at h
  | true =>
    cases e with
    | cacheWrite c' b =>
      obtain ⟨rfl, rfl⟩ : c' = c ∧ _ = f := by simpa [cacheUpdate, ha] using h
      exact ⟨rfl, fun hl => hl.write b⟩
    | cacheRead c' b =>
      obtain ⟨rfl, rfl⟩ : c' = c ∧ _ = f := by simpa [cacheUpdate, ha] using h
      exact ⟨led.cache_read b _, fun hl => hl.read b⟩
    | cacheEvict c' b =>
      obtain ⟨rfl, rfl⟩ : c' = c ∧ _ = f := by simpa [cacheUpdate, ha] using h
      exact ⟨(led.evict_fields b).1, fun hl => hl.evict b⟩
    | cacheTagAccess c' =>
      obtain ⟨rfl, rfl⟩ : c' = c ∧ _ = f := by simpa [cacheUpdate, ha] using h
      exact ⟨rfl, fun hl => ⟨hl.past, hl.charged⟩⟩
    | _ => simp [cacheUpdate] at h

private theorem mem_updateLedger {c : Nat} {leds : List CacheLedger}
    {led : CacheLedger} (h : led ∈ updateLedger c f leds) : led ∈ leds ∨ ∃ old ∈ leds, led = f old := by
  induction leds with
  | nil => cases h
  | cons x leds ih =>
    simp only [updateLedger] at h
    split at h
    · rcases List.mem_cons.1 h with rfl | h
      · exact .inr ⟨x, List.mem_cons_self, rfl⟩
      · exact .inl (List.mem_cons_of_mem _ h)
    · rcases List.mem_cons.1 h with rfl | h
      · exact .inl List.mem_cons_self
      · rcases ih h with h | ⟨old, ho, rfl⟩
        · exact .inl (List.mem_cons_of_mem _ h)
        · exact .inr ⟨old, List.mem_cons_of_mem _ ho, rfl⟩

private theorem ledgerInv_step (s : CHAOSCov cfg) (e : Event cfg)
    (h : ∀ led ∈ s.cache_ledgers, LedgerInv s.roi_cycles led) :
    ∀ led ∈ (step s e).cache_ledgers, LedgerInv (step s e).roi_cycles led := by
  intro led hled
  refine LedgerInv.mono ?_ (roi_cycles_le_step s e)
  rw [cache_ledgers_step] at hled
  cases hu : cacheUpdate s e with
  | none =>
    rw [hu] at hled
    exact h led hled
  | some u =>
    rw [hu] at hled
    rcases mem_updateLedger hled with hold | ⟨old, hold, rfl⟩
    · exact h led hold
    · exact (cacheUpdate_keeps hu old).2 (h old hold)

theorem ledgerInv_run (es : List (Event cfg)) :
    ∀ led ∈ (run (fresh cfg) es).cache_ledgers, LedgerInv (run (fresh cfg) es).roi_cycles led := by
  refine List.foldlRecOn es step ?_ fun s hs e _ => ledgerInv_step s e hs
  intro led hled
  obtain ⟨c, -, rfl⟩ := List.mem_map.1 hled
  exact ⟨fun b st hb => by simp at hb, Nat.zero_le _⟩

private theorem find_updateLedger (hf : ∀ led, (f led).cache = led.cache) (c cache : Nat) (leds : List CacheLedger) :
    (updateLedger c f leds).find? (fun led => decide (led.cache = cache)) =
      (leds.find? fun led => decide (led.cache = cache)).map fun led => if c = cache then f led else led := by
  induction leds with
  | nil => rfl
  | cons led leds ih =>
    by_cases h : led.cache = c <;> by_cases h' : led.cache = cache
    · simp [updateLedger, h, ← h', hf]
    · have hne : c ≠ cache := fun hc => h' (h.trans hc)
      simp [updateLedger, h, hne, hf]
    · have hne : c ≠ cache := fun hc => h (h'.trans hc.symm)
      simp [updateLedger, h', Ne.symm hne, hne]
    · simp only [updateLedger, h, ↓reduceIte, List.find?_cons, h', decide_false, ih]

theorem ledgerFor_step (s : CHAOSCov cfg) (e : Event cfg) (cache : Nat) :
    ledgerFor (step s e) cache = (ledgerFor s cache).map fun led =>
      ((cacheUpdate s e).map fun u => if u.1 = cache then u.2 led else led).getD led := by
  rw [ledgerFor, cache_ledgers_step]
  cases hu : cacheUpdate s e with
  | none => simp [ledgerFor]
  | some u => exact find_updateLedger (fun led => (cacheUpdate_keeps hu led).1) u.1 cache _

def readGain (s : CHAOSCov cfg) (cache : Nat) : Event cfg → Nat
  | .cacheRead c b =>
    if s.roi_active ∧ c = cache then ((openSince s cache b).map (s.roi_cycles - ·)).getD 0 else 0
  | _ => 0

theorem aceCycles_step (s : CHAOSCov cfg) (e : Event cfg) (cache : Nat) :
    aceCycles (step s e) cache = aceCycles s cache + readGain s cache e := by
  rw [aceCycles, ledgerFor_step]
  cases hl : ledgerFor s cache with
  | none => cases e <;> simp [aceCycles, readGain, openSince, hl]
  | some led =>
    cases ha : s.roi_active with
    | false => cases e <;> simp [aceCycles, readGain, hl, cacheUpdate, ha]
    | true =>
      cases e with
      | cacheRead c b =>
        by_cases hc : c = cache <;> simp [aceCycles, readGain, openSince, hl, cacheUpdate, ha, hc, led.ace_read]
      | cacheEvict c b =>
        by_cases hc : c = cache <;> simp [aceCycles, readGain, hl, cacheUpdate, ha, hc, led.evict_fields]
      | cacheWrite c b =>
        by_cases hc : c = cache <;> simp [aceCycles, readGain, hl, cacheUpdate, ha, hc, CacheLedger.write]
      | cacheTagAccess c =>
        by_cases hc : c = cache <;> simp [aceCycles, readGain, hl, cacheUpdate, ha, hc]
      | _ => simp [aceCycles, readGain, hl, cacheUpdate]

theorem openSince_step {cache blk p : Nat} (h : openSince (step s e) cache blk = some p) :
    s.roi_active = true ∧ (e = .cacheWrite cache blk ∨ e = .cacheRead cache blk) ∧ p = s.roi_cycles ∨
    openSince s cache blk = some p ∧
      (s.roi_active = true → e ≠ .cacheWrite cache blk ∧ e ≠ .cacheEvict cache blk) := by
  rw [openSince, ledgerFor_step] at h
  cases hl : ledgerFor s cache with
  | none => simp [hl] at h
  | some led =>
    have ho : openSince s cache blk = led.openSince blk := by rw [openSince, hl]; rfl
    rw [hl] at h
    rw [ho]
    cases ha : s.roi_active with
    | false => exact .inr ⟨by simpa [cacheUpdate, ha] using h, by simp⟩
    | true =>
      cases e with
      | cacheWrite c b =>
        by_cases hc : c = cache <;> by_cases hb : b = blk <;>
          simp_all [cacheUpdate, led.openSince_write]
      | cacheRead c b =>
        by_cases hc : c = cache <;> by_cases hb : b = blk <;>
          simp_all [cacheUpdate, led.openSince_read]
      | cacheEvict c b =>
        by_cases hc : c = cache <;> by_cases hb : b = blk <;>
          simp_all [cacheUpdate, led.openSince_evict]
      | cacheTagAccess c =>
        by_cases hc : c = cache <;> simp_all [cacheUpdate, CacheLedger.openSince]
      | _ => exact .inr ⟨by simpa [cacheUpdate] using h, by simp⟩

/-! ### Reads after an eviction or overwrite -/

def charged (s : CHAOSCov cfg) (cache blk : Nat) : Nat :=
  aceCycles (step s (.cacheRead cache blk)) cache - aceCycles s cache

/-- After the events `es` a read of the block charges nothing, or the cycles since a write or read of the block among
`es` inside a window. -/
def CountsFrom (s : CHAOSCov cfg) (es : List (Event cfg)) (cache blk : Nat) : Prop :=
  charged (run s es) cache blk = 0 ∨
  ∃ us a vs, es = us ++ a :: vs ∧ (a = .cacheWrite cache blk ∨ a = .cacheRead cache blk) ∧
    (run s us).roi_active = true ∧
    charged (run s es) cache blk = (run s es).roi_cycles - (run s us).roi_cycles

theorem charged_eq (s : CHAOSCov cfg) (cache blk : Nat) : charged s cache blk =
    if s.roi_active then ((openSince s cache blk).map (s.roi_cycles - ·)).getD 0 else 0 := by
  rw [charged, aceCycles_step, Nat.add_sub_cancel_left]
  simp [readGain]

/-- Every open interval counts from a write or read of the block among the events. -/
private def Anchored (s : CHAOSCov cfg) (es : List (Event cfg)) (cache blk : Nat) : Prop :=
  ∀ p, openSince (run s es) cache blk = some p →
    ∃ us a vs, es = us ++ a :: vs ∧ (a = .cacheWrite cache blk ∨ a = .cacheRead cache blk) ∧
      (run s us).roi_active = true ∧ p = (run s us).roi_cycles

private theorem Anchored.countsFrom {cache blk : Nat} (h : Anchored s es cache blk) : CountsFrom s es cache blk := by
  unfold CountsFrom
  rw [charged_eq]
  cases (run s es).roi_active with
  | false => exact .inl rfl
  | true =>
    cases ho : openSince (run s es) cache blk with
    | none => exact .inl rfl
    | some p =>
      obtain ⟨us, a, vs, hes, ha, hact, rfl⟩ := h p ho
      exact .inr ⟨us, a, vs, hes, ha, hact, rfl⟩

private theorem anchored_snoc {cache blk : Nat} (h : Anchored s es cache blk) : Anchored s (es ++ [e]) cache blk := by
  intro p hp
  have hrun : run s (es ++ [e]) = step (run s es) e := by simp [run]
  rw [hrun] at hp
  rcases openSince_step hp with ⟨ha, he, rfl⟩ | ⟨ho, -⟩
  · exact ⟨es, e, [], rfl, he, ha, rfl⟩
  · obtain ⟨us, a, vs, rfl, ha, hact, rfl⟩ := h p ho
    exact ⟨us, a, vs ++ [e], by simp, ha, hact, rfl⟩

private theorem anchored_gone {cache blk : Nat} (hg : g = .cacheWrite cache blk ∨ g = .cacheEvict cache blk)
    (h : s.roi_active = true ∨ openSince s cache blk = none) : Anchored s [g] cache blk := by
  intro p hp
  rcases openSince_step hp with ⟨ha, he, rfl⟩ | ⟨ho, hne⟩
  · exact ⟨[], g, [], rfl, he, ha, rfl⟩
  · rcases h with ha | hn
    · rcases hg with rfl | rfl
      · exact absurd rfl (hne ha).1
      · exact absurd rfl (hne ha).2
    · rw [ho] at hn
      cases hn

private theorem anchored_run {cache blk : Nat} (h : Anchored s [g] cache blk) (es : List (Event cfg)) :
    Anchored s (g :: es) cache blk := by
  induction es using List.reverseRecOn with
  | nil => exact h
  | append_singleton es e ih => exact anchored_snoc ih

private theorem openSince_eq_none (hm : cfg.roi_mode ≠ .m5ops) (es : List (Event cfg)) (cache blk : Nat)
    (h : (run (fresh cfg) es).roi_active = false) : openSince (run (fresh cfg) es) cache blk = none := by
  induction es using List.reverseRecOn with
  | nil => cases hl : ledgerFor (fresh cfg) cache with
    | none => simp [run, openSince, hl]
    | some led =>
      obtain ⟨c, -, rfl⟩ := List.mem_map.1 (List.mem_of_find?_eq_some hl)
      simp [run, openSince, hl, CacheLedger.openSince]
  | append_singleton es e ih =>
    have hrun : run (fresh cfg) (es ++ [e]) = step (run (fresh cfg) es) e := by simp [run]
    rw [hrun, roi_active_step_of_mode hm] at h
    rw [hrun, Option.eq_none_iff_forall_ne_some]
    intro p hp
    rcases openSince_step hp with ⟨ha, -⟩ | ⟨ho, -⟩
    · rw [h] at ha
      cases ha
    · rw [ih h] at ho
      cases ho

theorem openSince_le (es : List (Event cfg)) {cache blk p : Nat}
    (h : openSince (run (fresh cfg) es) cache blk = some p) : p ≤ (run (fresh cfg) es).roi_cycles := by
  obtain ⟨led, hl, ho⟩ := Option.bind_eq_some_iff.1 h
  obtain ⟨st, hst, rfl, -⟩ := led.read_open blk 0 ho
  exact (ledgerInv_run es led (List.mem_of_find?_eq_some hl)).past blk st hst

private theorem not_countsFrom_missed {cache blk p : Nat}
    (hg : g = .cacheWrite cache blk ∨ g = .cacheEvict cache blk) (ha : (run (fresh cfg) es).roi_active = false)
    (ho : openSince (run (fresh cfg) es) cache blk = some p) :
    ¬ CountsFrom (run (fresh cfg) es) [g, .workBegin, .tick] cache blk := by
  have hm : cfg.roi_mode = .m5ops := by
    by_contra hm
    rw [openSince_eq_none hm es cache blk ha] at ho
    cases ho
  have hp := openSince_le es ho
  obtain ⟨s, hs⟩ : ∃ s, run (fresh cfg) es = s := ⟨_, rfl⟩
  rw [hs] at ha ho hp ⊢
  have hmiss : step s g = s := by rcases hg with rfl | rfl <;> simp [step, cacheOnWrite, cacheOnEvict, ha]
  have hrun : run s [g, .workBegin, .tick] = step (step s .workBegin) .tick := by simp [run, hmiss]
  obtain ⟨ha1, hc1⟩ := step_workBegin s
  obtain ⟨ha2, hc2⟩ := step_cycle (step s .workBegin) 0 0
  rw [if_pos hm] at ha1
  rw [ha1] at ha2 hc2
  have hled : (step (step s .workBegin) .tick).cache_ledgers = s.cache_ledgers := by
    rw [cache_frame _ (by simp [Event.part]), cache_frame _ (by simp [Event.part])]
  have hopen : openSince (step (step s .workBegin) .tick) cache blk = some p := by
    rw [← ho, openSince, ledgerFor, hled]
    rfl
  have hcharged : charged (run s [g, .workBegin, .tick]) cache blk = s.roi_cycles + 1 - p := by
    rw [hrun, charged_eq, hopen, ha2, hc2, hc1]
    rfl
  rintro (h0 | ⟨us, a, vs, hes, htouch, hact, -⟩)
  · omega
  · -- neither the missed event nor the opening of the window touches the block
    cases us with
    | nil => rw [run, List.foldl_nil, ha] at hact; cases hact
    | cons u us =>
      have hmem : a ∈ ([.workBegin, .tick] : List (Event cfg)) := by
        rw [(List.cons.inj hes).2]
        simp
      rcases htouch with rfl | rfl <;> simp at hmem

/-- The reads after an eviction or overwrite of a block count from after it, whatever happens in between, exactly if it
comes inside a window or the block has no open interval. -/
theorem reads_count_from_iff (es : List (Event cfg)) (cache blk : Nat) (g : Event cfg)
    (hg : g = .cacheWrite cache blk ∨ g = .cacheEvict cache blk) :
    let s := run (fresh cfg) es
    (∀ fs, CountsFrom s (g :: fs) cache blk) ↔ (s.roi_active = true ∨ openSince s cache blk = none) := by
  intro s
  constructor
  · intro h
    cases ha : s.roi_active with
    | true => exact .inl rfl
    | false =>
      cases ho : openSince s cache blk with
      | none => exact .inr rfl
      | some p => exact absurd (h _) (not_countsFrom_missed hg ha ho)
  · intro h fs
    exact (anchored_run (anchored_gone hg h) fs).countsFrom

/-- A block that is evicted inside the window. -/
theorem reads_count_from_iff_tiny :
    let es : List (Event tiny) := [.workBegin, .cacheWrite 0 7, .tick]
    let s := run (fresh tiny) es
    s.roi_active = true ∧ ∀ fs, CountsFrom s (.cacheEvict 0 7 :: fs) 0 7 :=
  ⟨by decide, (reads_count_from_iff _ 0 7 _ (.inr rfl)).2 (.inl (by decide))⟩

/-- A block is written in cycle 0 and evicted in cycle 1, after the window.  A read in cycle 2, in the next window,
charges two cycles. -/
theorem missed_eviction_is_charged :
    let es : List (Event tiny) := [.workBegin, .cacheWrite 0 7, .tick, .workEnd]
    let s := run (fresh tiny) es
    let s' := run s [.cacheEvict 0 7, .workBegin, .tick]
    s'.roi_cycles - s.roi_cycles = 1 ∧ charged s' 0 7 = 2 := by
  decide

end GemFI.Cov
