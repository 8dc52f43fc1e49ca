import GemFI.Lib.Run
import GemFI.Lsq.CHAOSLSQFwd

/-!
# Forwarding from the wrong source

With a source fault a load should get the bytes of its store, or those of an earlier forwarding.  But the search of
`pickSource` starts at the entry that has just been recorded, unless there is a phase offset, and the bit-level path
of `corrupt` is open in these modes, too.  So all loads of a run get what they should exactly if `corrupt` never fires
and `pickSource` never takes the entry of the forwarding itself, unless an earlier one has the same bytes
(`source_fault_clean_iff`); in the modes without an offset it takes this entry whenever the gate lets the fault pass
and the load fits into an entry (`stale_source_iff`).
-/

namespace GemFI.Lsq

open Mem (FaultType)

namespace CHAOSLSQFwd

variable {cfg : FwdConfig}

/-! ### What the parts leave alone -/

structure SameFaults (s t : CHAOSLSQFwd cfg) : Prop where
  hist : t.hist = s.hist
  past : t.past = s.past
  count : t.faults_injected_count = s.faults_injected_count
  bits : t.bitFaults = s.bitFaults

variable (s : CHAOSLSQFwd cfg) (f : Forwarding) (now : Nat)

theorem gate_same : SameFaults s (gate s now).2 := by
  unfold gate
  split <;> exact ⟨rfl, rfl, rfl, rfl⟩

/-- The gate lets a fault pass: one is possible in the cycle, and the sample is below the probability. -/
def Passes : Prop := Open s now ∧ cfg.uniform s.rng.next.1 < cfg.probability

instance decidablePasses : Decidable (Passes s now) :=
  inferInstanceAs (Decidable (_ ∧ _))

theorem gate_iff : (gate s now).1 = true ↔ Passes s now := by
  unfold gate Passes
  by_cases hopen : Open s now <;> simp [hopen]

theorem gate_rng : (gate s now).2.rng = if Open s now then s.rng.next.2 else s.rng := by
  unfold gate
  split <;> rfl

theorem passes_congr {s t : CHAOSLSQFwd cfg} (hrng : t.rng = s.rng)
    (hcount : t.faults_injected_count = s.faults_injected_count) (now : Nat) : Passes t now ↔ Passes s now := by
  unfold Passes Open
  rw [hrng, hcount]

theorem record_frame :
    (record s f).past = s.past ∧ (record s f).faults_injected_count = s.faults_injected_count ∧
    (record s f).bitFaults = s.bitFaults ∧ (record s f).rng = s.rng := by
  unfold record
  split <;> exact ⟨rfl, rfl, rfl, rfl⟩

theorem chosen_same : SameFaults (record s f) (chosen s f).2 := by
  unfold chosen
  dsimp only
  split
  · exact ⟨rfl, rfl, rfl, rfl⟩
  · split <;> exact gate_same (record s f) f.now

theorem chosen_fst :
    (chosen s f).1 = if cfg.source_fault_enum ≠ .None ∧ Passes s f.now then findStale (record s f) f.size else none := by
  obtain ⟨-, rcount, -, rrng⟩ := record_frame s f
  have hpass : (gate (record s f) f.now).1 = true ↔ Passes s f.now :=
    (gate_iff _ _).trans (passes_congr rrng rcount f.now)
  have hfind : findStale (gate (record s f) f.now).2 f.size = findStale (record s f) f.size := by
    unfold findStale searched
    rw [(gate_same _ _).hist]
  unfold chosen
  dsimp only
  by_cases hmode : cfg.source_fault_enum = .None
  · rw [if_pos hmode, if_neg fun h => h.1 hmode]
  by_cases h : Passes s f.now
  · rw [if_neg hmode, if_pos (hpass.2 h), if_pos ⟨hmode, h⟩, hfind]
  · rw [if_neg hmode, if_neg (mt hpass.1 h), if_neg fun hand => h hand.2]

theorem chosen_rng :
    (chosen s f).2.rng = if cfg.source_fault_enum ≠ .None ∧ Open s f.now then s.rng.next.2 else s.rng := by
  obtain ⟨-, rcount, -, rrng⟩ := record_frame s f
  have hopen : Open (record s f) f.now ↔ Open s f.now := by
    unfold Open
    rw [rcount]
  have hgate : (gate (record s f) f.now).2.rng = if Open s f.now then s.rng.next.2 else s.rng := by
    rw [gate_rng, rrng]
    exact if_congr hopen rfl rfl
  unfold chosen
  dsimp only
  by_cases hmode : cfg.source_fault_enum = .None
  · rw [if_pos hmode, if_neg fun h => h.1 hmode, rrng]
  · rw [if_neg hmode]
    split <;> simpa [hmode] using hgate

theorem countSource_frame :
    (countSource s).hist = s.hist ∧ (countSource s).past = s.past ∧
    (countSource s).faults_injected_count = s.faults_injected_count + 1 ∧ (countSource s).bitFaults = s.bitFaults ∧
    (countSource s).rng = s.rng := by
  unfold countSource
  dsimp only
  split <;> exact ⟨rfl, rfl, rfl, rfl, rfl⟩

theorem pickSource_frame :
    (pickSource s f).2.hist = (record s f).hist ∧ (pickSource s f).2.past = s.past ∧
    (pickSource s f).2.faults_injected_count =
      s.faults_injected_count + (if (chosen s f).1 = none then 0 else 1) ∧
    (pickSource s f).2.bitFaults = s.bitFaults ∧ (pickSource s f).2.rng = (chosen s f).2.rng := by
  obtain ⟨hhist, hpast, hcount, hbits⟩ := chosen_same s f
  obtain ⟨rpast, rcount, rbits, -⟩ := record_frame s f
  unfold pickSource
  rcases hchosen : chosen s f with ⟨_ | e, t⟩
  · rw [hchosen] at hhist hpast hcount hbits
    exact ⟨hhist, hpast.trans rpast, hcount.trans rcount, hbits.trans rbits, rfl⟩
  · rw [hchosen] at hhist hpast hcount hbits
    obtain ⟨shist, spast, scount, sbits, srng⟩ := countSource_frame t
    refine ⟨shist.trans hhist, spast.trans (hpast.trans rpast), scount.trans ?_, sbits.trans (hbits.trans rbits), srng⟩
    rw [hcount, rcount]
    rfl

theorem pickSource_data : (pickSource s f).1 = (chosen s f).1.elim f.data fun e => e.data.take f.size := by
  unfold pickSource
  rcases chosen s f with ⟨_ | e, t⟩ <;> rfl

theorem choose_ne_random (ty : FaultType) (dist : Nat → Fin 3) (rng : Mem.Rng) : (ty.choose dist rng).1 ≠ .Random := by
  unfold FaultType.choose
  split
  · unfold FaultType.ofIndex
    split <;> simp
  · assumption

theorem corruptBits_counts (data : List Byte) :
    (corruptBits s data).2.faults_injected_count = s.faults_injected_count + 1 ∧
    (corruptBits s data).2.bitFaults = s.bitFaults + 1 := by
  have hcount : ∀ (t : CHAOSLSQFwd cfg) (ty : FaultType), ty ≠ .Random →
      (countInjected (countType t ty)).faults_injected_count = t.faults_injected_count + 1 ∧
      (countInjected (countType t ty)).bitFaults = t.bitFaults + 1 := by
    intro t ty hty
    cases ty with
    | Random => exact absurd rfl hty
    | _ =>
      refine ⟨rfl, ?_⟩
      simp only [countType, countInjected, bitFaults]
      omega
  unfold corruptBits
  exact hcount _ _ (choose_ne_random _ _ _)

/-- `corrupt` fires: the gate lets the fault pass, and there is something to corrupt. -/
def Fires (data : List Byte) (now : Nat) : Prop := (gate s now).1 = true ∧ data.length ≠ 0

variable {s} {f}

theorem corrupt_of_not_fires {data : List Byte} {now : Nat} (h : ¬Fires s data now) :
    (corrupt s data now).1 = data ∧ SameFaults s (corrupt s data now).2 := by
  unfold corrupt
  dsimp only
  split
  · exact ⟨rfl, gate_same s now⟩
  · rename_i hpass
    have hempty : data.length = 0 := by
      by_contra hne
      exact h ⟨by simpa using hpass, hne⟩
    rw [if_pos hempty]
    exact ⟨rfl, gate_same s now⟩

theorem corrupt_of_fires (hstruct : cfg.structural_fault_enum = .None) {data : List Byte} {now : Nat}
    (h : Fires s data now) : (corrupt s data now).2.bitFaults = s.bitFaults + 1 := by
  unfold corrupt
  dsimp only
  rw [if_neg (by simp [h.1]), if_neg h.2, if_neg (by simp [hstruct]), (corruptBits_counts _ _).2, (gate_same s now).bits]

theorem corrupt_hist (s : CHAOSLSQFwd cfg) (data : List Byte) (now : Nat) : (corrupt s data now).2.hist = s.hist := by
  have hbits : ∀ t : CHAOSLSQFwd cfg, (corruptBits t data).2.hist = t.hist := by
    intro t
    unfold corruptBits
    dsimp only [countInjected]
    unfold countType
    split <;> rfl
  have hstruct : ∀ t : CHAOSLSQFwd cfg, (applyStructuralFault t data).2.hist = t.hist := by
    intro t
    unfold applyStructuralFault
    split
    · rfl
    · split <;> rfl
  have hgate := (gate_same s now).hist
  unfold corrupt
  dsimp only
  split
  · exact hgate
  · split
    · exact hgate
    · split
      · exact (hstruct _).trans hgate
      · exact (hbits _).trans hgate

/-! ### The history -/

structure Recorded (s : CHAOSLSQFwd cfg) : Prop where
  next_lt : s.hist.next < HIST_CAP
  entry : ∀ i, (s.hist.slot i).valid = true → ∃ g, s.past[(s.hist.slot i).event]? = some g ∧
    (s.hist.slot i).size = g.size ∧ g.size ≤ HIST_BYTES ∧ (s.hist.slot i).data.take g.size = g.data

def Kept (s : CHAOSLSQFwd cfg) (n : Nat) : Prop :=
  ∃ i < HIST_CAP, (s.hist.slot i).valid = true ∧ (s.hist.slot i).event = n

theorem init_recorded (cfg : FwdConfig) (draw : Nat → Nat) : Recorded (init cfg draw) := by
  refine ⟨show 0 < HIST_CAP by decide, ?_⟩
  intro i hvalid
  exact absurd hvalid Bool.false_ne_true

theorem record_hist (s : CHAOSLSQFwd cfg) (hpos : 0 < f.size) (hle : f.size ≤ HIST_BYTES) :
    (record s f).hist = s.hist.write fun e =>
      { data := f.data ++ e.data.drop f.size, size := f.size, valid := true, event := s.past.length } := by
  unfold record
  rw [if_pos ⟨hpos, hle⟩]

theorem record_slot (s : CHAOSLSQFwd cfg) (f : Forwarding) (i : Nat) :
    (0 < f.size ∧ f.size ≤ HIST_BYTES ∧ i = s.hist.next ∧ (record s f).hist.slot i =
      { data := f.data ++ (s.hist.slot i).data.drop f.size, size := f.size, valid := true, event := s.past.length }) ∨
    (record s f).hist.slot i = s.hist.slot i := by
  by_cases hsize : 0 < f.size ∧ f.size ≤ HIST_BYTES
  · by_cases hi : i = s.hist.next
    · left
      rw [record_hist s hsize.1 hsize.2, Ring.slot_write, if_pos hi]
      exact ⟨hsize.1, hsize.2, hi, rfl⟩
    · right
      rw [record_hist s hsize.1 hsize.2, Ring.slot_write, if_neg hi]
  · right
    unfold record
    rw [if_neg hsize]

theorem record_next_lt (hrec : Recorded s) (f : Forwarding) : (record s f).hist.next < HIST_CAP := by
  unfold record
  split
  · exact s.hist.next_write_lt _ (by decide)
  · exact hrec.next_lt

theorem forward_hist (s : CHAOSLSQFwd cfg) (f : Forwarding) :
    (forward s f).hist =
      if 0 < cfg.probability ∧ f.isAllZeros = false then (record s f).hist else s.hist := by
  show (read s f).2.hist = _
  unfold read
  by_cases hon : 0 < cfg.probability
  · rw [if_pos hon, corrupt_hist]
    unfold source
    cases hzero : f.isAllZeros with
    | false =>
      rw [if_neg (by simp), if_pos ⟨hon, rfl⟩]
      exact (pickSource_frame s f).1
    | true => rw [if_pos rfl, if_neg (by simp)]
  · rw [if_neg hon, if_neg fun h => hon h.1]

theorem forward_recorded (hrec : Recorded s) (f : Forwarding) : Recorded (forward s f) := by
  have hold : ∀ i, (s.hist.slot i).valid = true → ∃ g, (s.past ++ [f])[(s.hist.slot i).event]? = some g ∧
      (s.hist.slot i).size = g.size ∧ g.size ≤ HIST_BYTES ∧ (s.hist.slot i).data.take g.size = g.data := by
    intro i hvalid
    obtain ⟨g, hg, hrest⟩ := hrec.entry i hvalid
    have hlt : (s.hist.slot i).event < s.past.length := (List.getElem?_eq_some_iff.1 hg).1
    exact ⟨g, by rw [List.getElem?_append_left hlt, hg], hrest⟩
  have hhist := forward_hist s f
  have hpast : (forward s f).past = s.past ++ [f] := rfl
  by_cases hseen : 0 < cfg.probability ∧ f.isAllZeros = false
  · rw [if_pos hseen] at hhist
    refine ⟨by rw [hhist]; exact record_next_lt hrec f, ?_⟩
    rw [hhist, hpast]
    intro i hvalid
    rcases record_slot s f i with ⟨-, hle, -, hslot⟩ | hslot
    · rw [hslot]
      exact ⟨f, List.getElem?_concat_length, rfl, hle, List.take_left⟩
    · rw [hslot] at hvalid ⊢
      exact hold i hvalid
  · rw [if_neg hseen] at hhist
    refine ⟨by rw [hhist]; exact hrec.next_lt, ?_⟩
    rw [hhist, hpast]
    exact hold

/-! ### The entry that is chosen -/

theorem chosen_eq_some {e : HistEntry} (h : (chosen s f).1 = some e) :
    Passes s f.now ∧ findStale (record s f) f.size = some e := by
  rw [chosen_fst] at h
  split at h
  · rename_i hasks
    exact ⟨hasks.2, h⟩
  · cases h

theorem findStale_slot {e : HistEntry} (h : findStale (record s f) f.size = some e) :
    ∃ i < HIST_CAP, e = (record s f).hist.slot i ∧ e.valid = true ∧ f.size ≤ e.size := by
  obtain ⟨j, -, hj⟩ := List.mem_map.1 (List.mem_of_find?_eq_some h)
  exact ⟨_, Ring.back_lt _ (by decide) _, hj.symm, by simpa using List.find?_some h⟩

theorem chosen_cases (hrec : Recorded s) {e : HistEntry} (h : (chosen s f).1 = some e) :
    (e.event = s.past.length ∧ 0 < f.size ∧ f.size ≤ HIST_BYTES ∧ e.data.take f.size = f.data) ∨
    (∃ g, s.past[e.event]? = some g ∧ Kept (record s f) e.event ∧ f.size ≤ g.size ∧ g.size ≤ HIST_BYTES ∧
      e.data.take f.size = g.data.take f.size) := by
  obtain ⟨i, hi, rfl, hvalid, hsize⟩ := findStale_slot (chosen_eq_some h).2
  rcases record_slot s f i with ⟨hpos, hle, -, hslot⟩ | hslot
  · left
    rw [hslot]
    exact ⟨rfl, hpos, hle, List.take_left⟩
  · right
    have hkept : Kept (record s f) ((record s f).hist.slot i).event := ⟨i, hi, hvalid, rfl⟩
    rw [hslot] at hvalid hsize hkept ⊢
    obtain ⟨g, hg, hgsize, hle, hdata⟩ := hrec.entry i hvalid
    have hfit : f.size ≤ g.size := hgsize ▸ hsize
    refine ⟨g, hg, hkept, hfit, hle, ?_⟩
    rw [← hdata, List.take_take, Nat.min_eq_left hfit]

theorem pickSource_length (hrec : Recorded s) (f : Forwarding) : (pickSource s f).1.length = f.size := by
  rw [pickSource_data]
  rcases hchosen : (chosen s f).1 with _ | e
  · rfl
  · show (e.data.take f.size).length = f.size
    rcases chosen_cases hrec hchosen with ⟨-, -, -, hdata⟩ | ⟨g, -, -, hfit, -, hdata⟩
    · rw [hdata]
      rfl
    · rw [hdata, List.length_take]
      exact Nat.min_eq_left hfit

theorem source_length (hrec : Recorded s) (f : Forwarding) : (source s f).1.length = f.size := by
  unfold source
  split
  · rename_i hzero
    simp [Forwarding.bytes, hzero]
  · exact pickSource_length hrec f

def Fits (s : CHAOSLSQFwd cfg) (f : Forwarding) (depth : Int) : Prop :=
  let e := (record s f).hist.slot ((record s f).hist.back depth)
  e.valid = true ∧ f.size ≤ e.size

theorem findStale_own_iff (hrec : Recorded s) (f : Forwarding) :
    (∃ e, findStale (record s f) f.size = some e ∧ e.event = s.past.length) ↔
    (0 < f.size ∧ f.size ≤ HIST_BYTES) ∧ start_depth cfg ≤ 0 ∧
      ∀ j < (-start_depth cfg).toNat % HIST_CAP, ¬Fits s f (start_depth cfg + j) := by
  have hfind : ∀ e, findStale (record s f) f.size = some e ↔ ∃ i < (HIST_CAP - start_depth cfg).toNat,
      (Fits s f (start_depth cfg + i) ∧ ∀ j < i, ¬Fits s f (start_depth cfg + j)) ∧
      (record s f).hist.slot ((record s f).hist.back (start_depth cfg + i)) = e := by
    intro e
    have hfits : ∀ j : Nat, ((fun e : HistEntry => e.valid && decide (f.size ≤ e.size)) ∘ fun j : Nat =>
        (record s f).hist.slot ((record s f).hist.back (start_depth cfg + j))) j = true ↔
          Fits s f (start_depth cfg + j) := by
      simp [Fits]
    unfold findStale searched
    rw [List.find?_map, Option.map_eq_some_iff]
    simp only [List.find?_range_eq_some, List.mem_range, Bool.not_eq_true', ← Bool.not_eq_true, hfits]
    exact exists_congr fun i => by tauto
  constructor
  · rintro ⟨e, he, hevent⟩
    obtain ⟨i, hi, ⟨hfits, hbefore⟩, rfl⟩ := (hfind e).1 he
    rcases record_slot s f ((record s f).hist.back (start_depth cfg + i)) with ⟨hpos, hle, hslot, -⟩ | hold
    · rw [record_hist s hpos hle, Ring.back_write_eq_iff _ _ hrec.next_lt] at hslot
      unfold HIST_CAP at hi hslot
      refine ⟨⟨hpos, hle⟩, by omega, fun j hj => hbefore j ?_⟩
      unfold HIST_CAP at hj
      omega
    · -- an older entry is from an earlier forwarding
      have hvalid := hfits.1
      rw [hold] at hvalid hevent
      obtain ⟨g, hg, -⟩ := hrec.entry _ hvalid
      have := (List.getElem?_eq_some_iff.1 hg).1
      omega
  · rintro ⟨⟨hpos, hle⟩, hstart, hbefore⟩
    have hown : (record s f).hist.back (start_depth cfg + ((-start_depth cfg).toNat % HIST_CAP : Nat)) = s.hist.next := by
      rw [record_hist s hpos hle, Ring.back_write_eq_iff _ _ hrec.next_lt]
      unfold HIST_CAP
      omega
    have hslot := Ring.slot_write s.hist (fun e => ({ data := f.data ++ e.data.drop f.size, size := f.size
                                                      valid := true, event := s.past.length } : HistEntry)) s.hist.next
    rw [← record_hist s hpos hle, if_pos rfl, ← hown] at hslot
    refine ⟨_, (hfind _).2 ⟨_, ?_, ⟨⟨by rw [hslot], by rw [hslot]⟩, hbefore⟩, rfl⟩, by rw [hslot]⟩
    unfold HIST_CAP
    omega

/-! ### What the load should get -/

/-- The bytes of the store and no fault, or those of an earlier forwarding that is kept and one fault; no fault in single
bits. -/
def Clean (s : CHAOSLSQFwd cfg) (f : Forwarding) : Prop :=
  (((read s f).1 = f.bytes ∧ (read s f).2.faults_injected_count = s.faults_injected_count) ∨
    ((read s f).2.faults_injected_count = s.faults_injected_count + 1 ∧ ∃ n g, s.past[n]? = some g ∧
      Kept (read s f).2 n ∧ f.size ≤ g.size ∧ (read s f).1 = g.data.take f.size)) ∧
  (read s f).2.bitFaults = s.bitFaults

/-- `pickSource` draws a sample. -/
def Samples (s : CHAOSLSQFwd cfg) (f : Forwarding) : Prop :=
  f.isAllZeros = false ∧ cfg.source_fault_enum ≠ .None ∧ Open s f.now

instance decidableSamples (s : CHAOSLSQFwd cfg) (f : Forwarding) : Decidable (Samples s f) :=
  inferInstanceAs (Decidable (_ ∧ _))

/-- `pickSource` finds an entry, and counts a fault. -/
def Picks (s : CHAOSLSQFwd cfg) (f : Forwarding) : Prop :=
  Samples s f ∧ cfg.uniform s.rng.next.1 < cfg.probability ∧ (findStale (record s f) f.size).isSome

instance decidablePicks (s : CHAOSLSQFwd cfg) (f : Forwarding) : Decidable (Picks s f) :=
  inferInstanceAs (Decidable (_ ∧ _))

/-- `corrupt` fires for a load of some bytes: with the sample and the budget that `pickSource` leaves. -/
def Corrupts (s : CHAOSLSQFwd cfg) (f : Forwarding) : Prop :=
  f.size ≠ 0 ∧ Passes ({ s with
    rng := if Samples s f then s.rng.next.2 else s.rng
    faults_injected_count := s.faults_injected_count + if Picks s f then 1 else 0 } : CHAOSLSQFwd cfg) f.now

/-- `pickSource` takes the entry that it has just recorded. -/
def PicksCurrent (s : CHAOSLSQFwd cfg) (f : Forwarding) : Prop :=
  Samples s f ∧ cfg.uniform s.rng.next.1 < cfg.probability ∧ (0 < f.size ∧ f.size ≤ HIST_BYTES) ∧
  start_depth cfg ≤ 0 ∧ ∀ j < (-start_depth cfg).toNat % HIST_CAP, ¬Fits s f (start_depth cfg + j)

theorem picksCurrent_iff (hrec : Recorded s) (f : Forwarding) :
    PicksCurrent s f ↔ f.isAllZeros = false ∧ ∃ e, (chosen s f).1 = some e ∧ e.event = s.past.length := by
  unfold PicksCurrent
  rw [← findStale_own_iff hrec, chosen_fst]
  unfold Samples Passes
  split
  · rename_i hasks
    simp [hasks]
  · rename_i hasks
    simp only [reduceCtorEq, false_and, exists_false, and_false, iff_false]
    rintro ⟨⟨-, hmode, hopen⟩, hdraw, -⟩
    exact hasks ⟨hmode, hopen, hdraw⟩

theorem picks_iff (s : CHAOSLSQFwd cfg) (f : Forwarding) :
    Picks s f ↔ f.isAllZeros = false ∧ (chosen s f).1 ≠ none := by
  rw [chosen_fst]
  unfold Picks Samples Passes
  split
  · rename_i hasks
    simp [hasks, Option.isSome_iff_ne_none]
  · rename_i hasks
    simp only [ne_eq, not_true_eq_false, and_false, iff_false]
    rintro ⟨⟨-, hmode, hopen⟩, hdraw, -⟩
    exact hasks ⟨hmode, hopen, hdraw⟩

theorem corrupts_iff (s : CHAOSLSQFwd cfg) (f : Forwarding) :
    Corrupts s f ↔ f.size ≠ 0 ∧ (gate (source s f).2 f.now).1 = true := by
  unfold Corrupts
  rw [gate_iff]
  refine and_congr_right fun _ => (passes_congr ?_ ?_ f.now).symm
  all_goals
    unfold source
    cases hzero : f.isAllZeros with
    | true => simp [Samples, Picks, hzero]
    | false => ?_
  · rw [if_neg (by simp), (pickSource_frame s f).2.2.2.2, chosen_rng]
    simp [Samples, hzero]
  · rw [if_neg (by simp), (pickSource_frame s f).2.2.1]
    congr 1
    by_cases hnone : (chosen s f).1 = none
    · rw [if_pos hnone, if_neg fun h => ((picks_iff s f).1 h).2 hnone]
    · rw [if_neg hnone, if_pos ((picks_iff s f).2 ⟨hzero, hnone⟩)]

def Repeats (s : CHAOSLSQFwd cfg) (f : Forwarding) : Prop :=
  ∃ n g, s.past[n]? = some g ∧ Kept (record s f) n ∧ f.size ≤ g.size ∧ f.data = g.data.take f.size

theorem read_of_not_corrupts (hrec : Recorded s) (hon : 0 < cfg.probability) (hc : ¬Corrupts s f) :
    (read s f).1 = (source s f).1 ∧ SameFaults (source s f).2 (read s f).2 := by
  have hfires : ¬Fires (source s f).2 (source s f).1 f.now := by
    rintro ⟨hpass, hlen⟩
    rw [source_length hrec] at hlen
    exact hc ((corrupts_iff s f).2 ⟨hlen, hpass⟩)
  unfold read
  rw [if_pos hon]
  exact corrupt_of_not_fires hfires

theorem read_of_corrupts (hstruct : cfg.structural_fault_enum = .None) (hrec : Recorded s) (hc : Corrupts s f) :
    (read s f).2.bitFaults = s.bitFaults + 1 := by
  obtain ⟨hsize, hpass⟩ := (corrupts_iff s f).1 hc
  have hon : 0 < cfg.probability := ((gate_iff _ _).1 hpass).1.1
  have hfires : Fires (source s f).2 (source s f).1 f.now := ⟨hpass, by rw [source_length hrec]; exact hsize⟩
  have hsource : (source s f).2.bitFaults = s.bitFaults := by
    unfold source
    split
    · rfl
    · exact (pickSource_frame s f).2.2.2.1
  unfold read
  rw [if_pos hon]
  exact (corrupt_of_fires hstruct hfires).trans (by rw [hsource])

theorem clean_of_unseen (hrec : Recorded s) (hc : ¬Corrupts s f)
    (hunseen : ¬0 < cfg.probability ∨ f.isAllZeros = true) : Clean s f ∧ ¬PicksCurrent s f := by
  by_cases hon : 0 < cfg.probability
  · have hzero : f.isAllZeros = true := hunseen.resolve_left (not_not.2 hon)
    have hsource : source s f = (f.bytes, s) := by
      unfold source
      rw [if_pos hzero]
    obtain ⟨hdata, hsame⟩ := read_of_not_corrupts hrec hon hc
    rw [hsource] at hdata hsame
    refine ⟨⟨Or.inl ⟨hdata, hsame.count⟩, hsame.bits⟩, ?_⟩
    rintro ⟨⟨hfalse, -⟩, -⟩
    exact absurd (hzero.symm.trans hfalse) (by simp)
  · have hread : read s f = (f.bytes, s) := by
      unfold read
      rw [if_neg hon]
    refine ⟨?_, ?_⟩
    · unfold Clean
      rw [hread]
      exact ⟨Or.inl ⟨rfl, rfl⟩, rfl⟩
    · rintro ⟨⟨-, -, hopen⟩, -⟩
      exact hon hopen.1

theorem read_of_seen (hrec : Recorded s) (hon : 0 < cfg.probability) (hfalse : f.isAllZeros = false)
    (hc : ¬Corrupts s f) :
    (read s f).1 = (chosen s f).1.elim f.data (fun e => e.data.take f.size) ∧
    (read s f).2.faults_injected_count = s.faults_injected_count + (if (chosen s f).1 = none then 0 else 1) ∧
    (read s f).2.bitFaults = s.bitFaults ∧ ∀ n, Kept (read s f).2 n ↔ Kept (record s f) n := by
  have hsource : source s f = pickSource s f := by
    unfold source
    rw [if_neg (by simp [hfalse])]
  obtain ⟨hdata, hsame⟩ := read_of_not_corrupts hrec hon hc
  rw [hsource] at hdata hsame
  obtain ⟨phist, -, pcount, pbits, -⟩ := pickSource_frame s f
  refine ⟨hdata.trans (pickSource_data s f), hsame.count.trans pcount, hsame.bits.trans pbits, ?_⟩
  intro n
  unfold Kept
  rw [hsame.hist, phist]

theorem clean_of_not_corrupts (hrec : Recorded s) (hc : ¬Corrupts s f) :
    Clean s f ↔ (PicksCurrent s f → Repeats s f) := by
  have hfine : Clean s f ∧ ¬PicksCurrent s f → (Clean s f ↔ (PicksCurrent s f → Repeats s f)) :=
    fun h => ⟨fun _ hp => absurd hp h.2, fun _ => h.1⟩
  by_cases hunseen : ¬0 < cfg.probability ∨ f.isAllZeros = true
  · exact hfine (clean_of_unseen hrec hc hunseen)
  · have hon : 0 < cfg.probability := by
      by_contra h
      exact hunseen (Or.inl h)
    have hfalse : f.isAllZeros = false := by
      by_contra h
      exact hunseen (Or.inr (by simpa using h))
    have hbytes : f.bytes = f.data := by simp [Forwarding.bytes, hfalse]
    obtain ⟨hdata, hcount, hbits, hkept⟩ := read_of_seen hrec hon hfalse hc
    rcases hchosen : (chosen s f).1 with _ | e <;> rw [hchosen] at hdata hcount
    · apply hfine
      refine ⟨⟨Or.inl ⟨hdata.trans hbytes.symm, hcount⟩, hbits⟩, ?_⟩
      rw [picksCurrent_iff hrec, hchosen]
      simp
    · replace hdata : (read s f).1 = e.data.take f.size := hdata
      replace hcount : (read s f).2.faults_injected_count = s.faults_injected_count + 1 := hcount
      rcases chosen_cases hrec hchosen with ⟨hevent, -, -, htake⟩ | ⟨g, hg, hk, hfit, -, htake⟩
      · -- its own entry: the bytes are those of the store, and a fault is counted
        rw [htake] at hdata
        constructor
        · rintro ⟨⟨-, hno⟩ | ⟨-, n, g, hg, hk, hfit, heq⟩, -⟩ -
          · omega
          · exact ⟨n, g, hg, (hkept n).1 hk, hfit, hdata ▸ heq⟩
        · intro h
          obtain ⟨n, g, hg, hk, hfit, heq⟩ := h ((picksCurrent_iff hrec f).2 ⟨hfalse, e, hchosen, hevent⟩)
          exact ⟨Or.inr ⟨hcount, n, g, hg, (hkept n).2 hk, hfit, hdata.trans heq⟩, hbits⟩
      · apply hfine
        refine ⟨⟨Or.inr ⟨hcount, e.event, g, hg, (hkept _).2 hk, hfit, hdata.trans htake⟩, hbits⟩, ?_⟩
        rw [picksCurrent_iff hrec, hchosen]
        rintro ⟨-, e, ⟨rfl⟩, hevent⟩
        have hlt := (List.getElem?_eq_some_iff.1 hg).1
        omega

theorem clean_iff (hstruct : cfg.structural_fault_enum = .None) (hrec : Recorded s) (f : Forwarding) :
    Clean s f ↔ ¬Corrupts s f ∧ (PicksCurrent s f → Repeats s f) := by
  by_cases hc : Corrupts s f
  · have hbits := read_of_corrupts hstruct hrec hc
    constructor
    · intro h
      have := h.2
      omega
    · intro h
      exact absurd hc h.1
  · rw [clean_of_not_corrupts hrec hc]
    exact ⟨fun h => ⟨hc, h⟩, fun h => h.2⟩

/-- All loads of a run get what they should exactly if `corrupt` never fires and the entry that is taken is never that of
the forwarding itself, or its bytes are those of an earlier one. -/
theorem source_fault_clean_iff (hstruct : cfg.structural_fault_enum = .None) (draw : Nat → Nat)
    (fs : List Forwarding) :
    Along forward Clean (init cfg draw) fs ↔
    Along forward (fun s f => ¬Corrupts s f ∧ (PicksCurrent s f → Repeats s f)) (init cfg draw) fs := by
  refine Along.congr_of_invariant (I := Recorded) ?_ (init_recorded cfg draw) fs
  intro s f hrec
  exact ⟨clean_iff hstruct hrec f, fun _ => forward_recorded hrec f⟩

private def everyLoad (source_fault_enum : SourceFault) (phase_offset : Int) (first_clock max_faults : Nat) :
    FwdConfig where
  probability := 1
  fault_type_enum := .BitFlip
  fault_mask := 1
  mask_width := 1
  structural_fault_enum := .None
  source_fault_enum := source_fault_enum
  phase_offset := phase_offset
  skew_bytes := 0
  num_bits_to_change := 1
  byte_offset := 0
  first_clock := first_clock
  last_clock := 0
  max_faults := max_faults
  uniform := fun _ => 0
  random_fault_distribution := Mem.firstType

private def everyDraw : Nat → Nat := fun _ => 0

private def oneByte (b : Byte) (now : Nat) : Forwarding := { data := [b], now := now }

/-- An offset of one and a single fault from cycle 1 on: the load in this cycle gets the byte of the one before. -/
theorem source_fault_clean_phase :
    (read (forward (init (everyLoad .PhaseOffset 1 1 1) everyDraw) (oneByte 6 0)) (oneByte 9 1)).1 = [6] ∧
    Along forward Clean (init (everyLoad .PhaseOffset 1 1 1) everyDraw) [oneByte 6 0, oneByte 9 1] := by
  have hpick : ∀ (s : CHAOSLSQFwd (everyLoad .PhaseOffset 1 1 1)) (f : Forwarding), PicksCurrent s f → Repeats s f := by
    rintro s f ⟨-, -, -, hstart, -⟩
    exact absurd hstart (by decide)
  refine ⟨by decide +kernel, (source_fault_clean_iff rfl everyDraw _).2
    ⟨⟨?_, hpick _ _⟩, ⟨?_, hpick _ _⟩, trivial⟩⟩
  · rintro ⟨-, hpass⟩
    exact absurd hpass (by decide +kernel)
  · rintro ⟨-, hpass⟩
    exact absurd hpass (by decide +kernel)

/-- Substitution, one load: the byte of the store with a flipped bit, and two faults.  The same with an offset and no
earlier forwarding, as `pickSource` declines and `corrupt` does not.  With a budget of one fault the byte is that of the
store, but a fault is counted. -/
theorem source_fault_not_clean :
    ((read (init (everyLoad .FwdSourceSub 0 0 0) everyDraw) (oneByte 6 0)).1 = [7] ∧
      (read (init (everyLoad .FwdSourceSub 0 0 0) everyDraw) (oneByte 6 0)).2.faults_injected_count = 2 ∧
      ¬Along forward Clean (init (everyLoad .FwdSourceSub 0 0 0) everyDraw) [oneByte 6 0]) ∧
    ((read (init (everyLoad .PhaseOffset 1 0 0) everyDraw) (oneByte 6 0)).1 = [7] ∧
      ¬Along forward Clean (init (everyLoad .PhaseOffset 1 0 0) everyDraw) [oneByte 6 0]) ∧
    ((read (init (everyLoad .FwdSourceSub 0 0 1) everyDraw) (oneByte 6 0)).1 = [6] ∧
      (read (init (everyLoad .FwdSourceSub 0 0 1) everyDraw) (oneByte 6 0)).2.faults_injected_count = 1 ∧
      ¬Along forward Clean (init (everyLoad .FwdSourceSub 0 0 1) everyDraw) [oneByte 6 0]) := by
  refine ⟨⟨by decide +kernel, by decide +kernel, ?_⟩, ⟨by decide +kernel, ?_⟩, by decide +kernel, by decide +kernel, ?_⟩
  · rintro ⟨⟨-, h⟩, -⟩
    exact absurd h (by decide +kernel)
  · rintro ⟨⟨-, h⟩, -⟩
    exact absurd h (by decide +kernel)
  · rintro ⟨⟨⟨-, h⟩ | ⟨-, n, g, hg, -⟩, -⟩, -⟩
    · exact absurd h (by decide +kernel)
    · exact absurd hg (by simp [init])

/-! ### The data of an earlier forwarding -/

def Counted (s : CHAOSLSQFwd cfg) (f : Forwarding) : Prop :=
  (pickSource s f).2.faults_injected_count ≠ s.faults_injected_count

def Stale (s : CHAOSLSQFwd cfg) (f : Forwarding) : Prop :=
  ∃ e g, (chosen s f).1 = some e ∧ s.past[e.event]? = some g ∧ (pickSource s f).1 = g.data.take f.size

theorem counted_iff (s : CHAOSLSQFwd cfg) (f : Forwarding) : Counted s f ↔ ∃ e, (chosen s f).1 = some e := by
  unfold Counted
  rw [(pickSource_frame s f).2.2.1]
  rcases (chosen s f).1 with _ | e <;> simp

theorem not_stale_of_own {e : HistEntry} (he : (chosen s f).1 = some e) (hevent : e.event = s.past.length) :
    ¬Stale s f := by
  rintro ⟨e', g, he', hg, -⟩
  obtain rfl : e = e' := Option.some.inj (he.symm.trans he')
  have hlt := (List.getElem?_eq_some_iff.1 hg).1
  omega

theorem counted_stale_iff (hrec : Recorded s) (hmode : cfg.source_fault_enum ≠ .None) (hdepth : start_depth cfg = 0)
    (f : Forwarding) : (Counted s f → Stale s f) ↔ (Passes s f.now → f.size = 0 ∨ HIST_BYTES < f.size) := by
  constructor
  · intro h hpass
    by_contra hsize
    obtain ⟨e, he, hevent⟩ := (findStale_own_iff hrec f).2 ⟨by omega, by omega, fun j hj => by simp [hdepth] at hj⟩
    have hchosen : (chosen s f).1 = some e := by rw [chosen_fst, if_pos ⟨hmode, hpass⟩, he]
    exact not_stale_of_own hchosen hevent (h ((counted_iff s f).2 ⟨e, hchosen⟩))
  · intro h hcount
    obtain ⟨e, he⟩ := (counted_iff s f).1 hcount
    have hsize := h (chosen_eq_some he).1
    rcases chosen_cases hrec he with ⟨-, hpos, hle, -⟩ | ⟨g, hg, -, -, -, htake⟩
    · omega
    · refine ⟨e, g, he, hg, ?_⟩
      rw [pickSource_data, he]
      exact htake

/-- In the modes without an offset the data of a counted fault is that of an earlier forwarding exactly if the gate lets no
fault pass for a load that an entry of the history can hold. -/
theorem stale_source_iff (hmode : cfg.source_fault_enum = .FwdSourceSub ∨ cfg.source_fault_enum = .StaleLineReplay)
    (draw : Nat → Nat) (fs : List Forwarding) :
    Along forward (fun s f => f.isAllZeros = false → Counted s f → Stale s f) (init cfg draw) fs ↔
    Along forward (fun s f => f.isAllZeros = false → Passes s f.now → f.size = 0 ∨ HIST_BYTES < f.size)
      (init cfg draw) fs := by
  have hdepth : start_depth cfg = 0 := by
    unfold start_depth
    rw [if_neg]
    rcases hmode with h | h <;> simp [h]
  have hsome : cfg.source_fault_enum ≠ .None := by
    rcases hmode with h | h <;> simp [h]
  refine Along.congr_of_invariant (I := Recorded) ?_ (init_recorded cfg draw) fs
  intro s f hrec
  exact ⟨forall_congr' fun _ => counted_stale_iff hrec hsome hdepth f, fun _ => forward_recorded hrec f⟩

/-- A load of no bytes after one before the window: its fault is counted, and the entry is that of the first one. -/
theorem stale_source_empty :
    Counted (forward (init (everyLoad .StaleLineReplay 0 1 0) everyDraw) (oneByte 6 0)) { data := [], now := 1 } ∧
    Along forward (fun s f => f.isAllZeros = false → Counted s f → Stale s f)
      (init (everyLoad .StaleLineReplay 0 1 0) everyDraw) [oneByte 6 0, { data := [], now := 1 }] := by
  refine ⟨by unfold Counted; decide +kernel, (stale_source_iff (Or.inr rfl) everyDraw _).2 ⟨?_, ?_, trivial⟩⟩
  · intro _ hpass
    exact absurd hpass (by decide +kernel)
  · intro _ _
    exact Or.inl rfl

private theorem own_byte_returned {mode : SourceFault} (hmode : mode = .FwdSourceSub ∨ mode = .StaleLineReplay) :
    (pickSource (forward (init (everyLoad mode 0 0 0) everyDraw) (oneByte 6 0)) (oneByte 9 1)).1 = [9] ∧
    Counted (forward (init (everyLoad mode 0 0 0) everyDraw) (oneByte 6 0)) (oneByte 9 1) ∧
    ¬Along forward (fun s f => f.isAllZeros = false → Counted s f → Stale s f)
      (init (everyLoad mode 0 0 0) everyDraw) [oneByte 6 0, oneByte 9 1] := by
  have hdepth : start_depth (everyLoad mode 0 0 0) = 0 := by
    rcases hmode with rfl | rfl <;> rfl
  have hrec := forward_recorded (init_recorded (everyLoad mode 0 0 0) everyDraw) (oneByte 6 0)
  have hcount : Counted (forward (init (everyLoad mode 0 0 0) everyDraw) (oneByte 6 0)) (oneByte 9 1) := by
    unfold Counted
    rcases hmode with rfl | rfl <;> decide +kernel
  refine ⟨?_, hcount, ?_⟩
  · rcases hmode with rfl | rfl <;> decide +kernel
  · rintro ⟨-, h, -⟩
    have hpass : Passes (forward (init (everyLoad mode 0 0 0) everyDraw) (oneByte 6 0)) 1 := by
      rcases hmode with rfl | rfl <;> decide +kernel
    have hsome : mode ≠ .None := by rcases hmode with rfl | rfl <;> decide
    exact absurd ((counted_stale_iff hrec hsome hdepth _).1 (h rfl) hpass) (by decide)

/-- The second of two loads, in each of the modes: it gets its own byte, and a fault is counted. -/
theorem current_store_returned :
    ((pickSource (forward (init (everyLoad .FwdSourceSub 0 0 0) everyDraw) (oneByte 6 0)) (oneByte 9 1)).1 = [9] ∧
      Counted (forward (init (everyLoad .FwdSourceSub 0 0 0) everyDraw) (oneByte 6 0)) (oneByte 9 1) ∧
      ¬Along forward (fun s f => f.isAllZeros = false → Counted s f → Stale s f)
        (init (everyLoad .FwdSourceSub 0 0 0) everyDraw) [oneByte 6 0, oneByte 9 1]) ∧
    ((pickSource (forward (init (everyLoad .StaleLineReplay 0 0 0) everyDraw) (oneByte 6 0)) (oneByte 9 1)).1 = [9] ∧
      Counted (forward (init (everyLoad .StaleLineReplay 0 0 0) everyDraw) (oneByte 6 0)) (oneByte 9 1) ∧
      ¬Along forward (fun s f => f.isAllZeros = false → Counted s f → Stale s f)
        (init (everyLoad .StaleLineReplay 0 0 0) everyDraw) [oneByte 6 0, oneByte 9 1]) :=
  ⟨own_byte_returned (Or.inl rfl), own_byte_returned (Or.inr rfl)⟩

end CHAOSLSQFwd

end GemFI.Lsq
