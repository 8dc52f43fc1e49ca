import GemFI.Cov.StoreQueue

/-!
# Stores that go through the queue in order

Every store is written, consumed once and freed, each in store order and on its own slot.  The residency of the stores
is the sum over the consumed stores of the cycles from write to consume (`residency`).

The free of a store takes the front off the list of open intervals a second time.  If a younger store waits for its
consume then, the aggregate ledger loses the interval of that store (`aggregate_loses_store`); if every store is freed
only when all written stores have been consumed, both ledgers are the residency (`sq_ace_eq_wb`).
-/

namespace GemFI.Cov

open CHAOSCov Lifetime

variable {cfg : Config}

/-- The cycles in which the stores were written and consumed so far, in store order, and the number of freed ones. -/
structure Schedule where
  writes : List Nat := []
  consumes : List Nat := []
  freed : Nat := 0
  deriving DecidableEq, Repr

def Schedule.next (g : Schedule) (now : Nat) : Event cfg → Schedule
  | .sqWrite _ => { g with writes := g.writes ++ [now] }
  | .sqConsume _ => { g with consumes := g.consumes ++ [now] }
  | .sqFree _ => { g with freed := g.freed + 1 }
  | _ => g

def scheduleStep (x : CHAOSCov cfg × Schedule) (e : Event cfg) : CHAOSCov cfg × Schedule :=
  (step x.1 e, x.2.next x.1.roi_cycles e)

/-- Inside the window, the next store in order does its next step on its slot; a slot is taken from the write to the
free. -/
def InOrder (slot : Nat → Nat) (x : CHAOSCov cfg × Schedule) : Event cfg → Prop
  | .sqWrite i => x.1.roi_active = true ∧ i = slot x.2.writes.length ∧ i < cfg.sq_entries ∧
      ∀ j < x.2.writes.length, x.2.freed ≤ j → slot j ≠ i
  | .sqConsume i => x.1.roi_active = true ∧ i = slot x.2.consumes.length ∧ x.2.consumes.length < x.2.writes.length
  | .sqFree i => x.1.roi_active = true ∧ i = slot x.2.freed ∧ x.2.freed < x.2.consumes.length
  | _ => True

/-- A store is freed only when all written stores have been consumed. -/
def DrainedFree (x : CHAOSCov cfg × Schedule) : Event cfg → Prop
  | .sqFree _ => x.2.consumes.length = x.2.writes.length
  | _ => True

instance (slot : Nat → Nat) (x : CHAOSCov cfg × Schedule) (e : Event cfg) : Decidable (InOrder slot x e) := by
  rcases e
  case sqWrite i => exact inferInstanceAs (Decidable (_ ∧ _ ∧ _ ∧ ∀ j < x.2.writes.length, x.2.freed ≤ j → slot j ≠ i))
  case sqConsume i => exact inferInstanceAs (Decidable (_ ∧ _ ∧ x.2.consumes.length < x.2.writes.length))
  case sqFree i => exact inferInstanceAs (Decidable (_ ∧ _ ∧ x.2.freed < x.2.consumes.length))
  all_goals exact .isTrue trivial

instance (x : CHAOSCov cfg × Schedule) (e : Event cfg) : Decidable (DrainedFree x e) := by
  rcases e
  case sqFree i => exact inferInstanceAs (Decidable (x.2.consumes.length = x.2.writes.length))
  all_goals exact .isTrue trivial

def scheduleOf (es : List (Event cfg)) : Schedule := (es.foldl scheduleStep (fresh cfg, {})).2

private theorem foldl_scheduleStep_fst (es : List (Event cfg)) (x : CHAOSCov cfg × Schedule) :
    (es.foldl scheduleStep x).1 = run x.1 es := by
  induction es generalizing x with
  | nil => rfl
  | cons e es ih => exact ih _

def Schedule.residency (g : Schedule) : Nat :=
  (List.zipWith (fun consume write => consume - write) g.consumes g.writes).sum

/-! ### The residency of a schedule -/

private theorem zipWith_write (f : Nat → Nat → Nat) {cs ws : List Nat} (h : cs.length ≤ ws.length) (t : Nat) :
    List.zipWith f cs (ws ++ [t]) = List.zipWith f cs ws := by
  induction cs generalizing ws with
  | nil => simp
  | cons c cs ih =>
    cases ws with
    | nil => simp at h
    | cons w ws => simp [ih (by simpa using h)]

private theorem zipWith_consume (f : Nat → Nat → Nat) {cs ws : List Nat} {w : Nat} (h : ws[cs.length]? = some w)
    (t : Nat) : List.zipWith f (cs ++ [t]) ws = List.zipWith f cs ws ++ [f t w] := by
  induction cs generalizing ws with
  | nil =>
    cases ws with
    | nil => simp at h
    | cons v ws =>
      obtain rfl : v = w := by simpa using h
      simp
  | cons c cs ih =>
    cases ws with
    | nil => simp at h
    | cons v ws => simp [ih (by simpa using h)]

/-! ### The slot of a store -/

/-- Slot `i` holds the data of a store written in cycle `birth`. -/
private def Holds (s : CHAOSCov cfg) (i birth : Nat) (consumed : Bool) : Prop :=
  ∃ h : i < cfg.sq_entries, (s.sq_state ⟨i, h⟩).has_data = true ∧ (s.sq_state ⟨i, h⟩).birth = birth ∧
    (s.sq_state ⟨i, h⟩).ever_consumed = consumed

section Holds

variable {s : CHAOSCov cfg} {i k birth : Nat} {consumed : Bool}

private theorem Holds.of_eq {s' : CHAOSCov cfg} (h : Holds s k birth consumed)
    (hs : ∀ hk : k < cfg.sq_entries, s'.sq_state ⟨k, hk⟩ = s.sq_state ⟨k, hk⟩) : Holds s' k birth consumed := by
  obtain ⟨hk, h⟩ := h
  exact ⟨hk, by rw [hs hk]; exact h⟩

private theorem holds_write (ha : s.roi_active = true) (hi : i < cfg.sq_entries) :
    Holds (s.sqOnWrite i) i s.roi_cycles false := by
  refine ⟨hi, ?_⟩
  rw [(sqOnWrite_fields ha i).1, if_pos rfl]
  exact ⟨rfl, rfl, rfl⟩

private theorem Holds.write_ne (h : Holds s k birth consumed) (ha : s.roi_active = true) (hik : i ≠ k) :
    Holds (s.sqOnWrite i) k birth consumed :=
  h.of_eq fun _ => by rw [(sqOnWrite_fields ha i).1, if_neg hik]

private theorem Holds.consume (h : Holds s i birth consumed) (ha : s.roi_active = true) :
    Holds (s.sqOnConsume i) i birth true := by
  obtain ⟨hi, hd, hb, -⟩ := h
  refine ⟨hi, ?_⟩
  rw [(sqOnConsume_fields ha i).1, if_pos ⟨rfl, hd⟩]
  exact ⟨hd, hb, rfl⟩

private theorem Holds.consume_ne (h : Holds s k birth consumed) (ha : s.roi_active = true) (hik : i ≠ k) :
    Holds (s.sqOnConsume i) k birth consumed :=
  h.of_eq fun _ => by rw [(sqOnConsume_fields ha i).1, if_neg fun h => hik h.1]

private theorem Holds.free_ne (h : Holds s k birth consumed) (ha : s.roi_active = true) (hik : i ≠ k) :
    Holds (s.sqOnFree i) k birth consumed :=
  h.of_eq fun _ => by rw [(sqOnFree_fields ha i).1, if_neg hik]

private theorem Holds.forward (h : Holds s k birth consumed) (ha : s.roi_active = true) :
    Holds (s.sqOnForward i) k birth consumed := by
  obtain ⟨hk, h⟩ := h
  refine ⟨hk, ?_⟩
  rw [(sqOnForward_fields ha i).1]
  split <;> exact h

private theorem Holds.gain (h : Holds s i birth false) (t : Nat) :
    entryGain (fun j => SqFace.wb.cell (s.sq_state j)) t (some (i, .use true)) = t - birth := by
  obtain ⟨hi, hd, hb, hc⟩ := h
  simp [entryGain, hi, Lifetime.gain, SqFace.cell, hd, hb, hc, Live.anchor]

end Holds

/-! ### The invariant of drained schedules -/

private structure ScheduleInv (slot : Nat → Nat) (x : CHAOSCov cfg × Schedule) : Prop where
  freed_le : x.2.freed ≤ x.2.consumes.length
  consumed_le : x.2.consumes.length ≤ x.2.writes.length
  /-- The open intervals are those of the stores that wait for their consume. -/
  opened : x.1.harp_sq_open = x.2.writes.drop x.2.consumes.length
  live : ∀ j w, x.2.writes[j]? = some w → x.2.freed ≤ j → Holds x.1 (slot j) w (decide (j < x.2.consumes.length))
  distinct : ∀ j k, x.2.freed ≤ j → j < k → k < x.2.writes.length → slot j ≠ slot k
  aggregate : x.1.sq_ace_cycles = x.2.residency
  writeback : x.1.sq_wb_ace_cycles = x.2.residency

section Step

variable {slot : Nat → Nat} {s : CHAOSCov cfg} {g : Schedule} {i : Nat}

private theorem scheduleInv_write (h : ScheduleInv slot (s, g)) (hin : InOrder slot (s, g) (.sqWrite i)) :
    ScheduleInv slot (s.sqOnWrite i, { g with writes := g.writes ++ [s.roi_cycles] }) := by
  obtain ⟨ha, hslot, hi, hfree⟩ := hin
  obtain ⟨hfl, hcl, hopen, hlive, hdist, hagg, hwb⟩ := h
  obtain ⟨-, h2, h3, -, h5⟩ := sqOnWrite_fields ha i
  dsimp only at *
  constructor <;> dsimp only [Schedule.residency]
  · exact hfl
  · rw [List.length_append]
    omega
  · rw [h2, List.drop_append_of_le_length hcl, hopen]
  · intro j w hj hjf
    by_cases hjw : j < g.writes.length
    · rw [List.getElem?_append_left hjw] at hj
      exact (hlive j w hj hjf).write_ne ha fun he => hfree j hjw hjf he.symm
    · rw [List.getElem?_append_right (by omega), List.getElem?_singleton] at hj
      obtain rfl : j = g.writes.length := by
        by_contra hne
        rw [if_neg (by omega)] at hj
        cases hj
      obtain rfl : s.roi_cycles = w := by simpa using hj
      rw [decide_eq_false (by omega), ← hslot]
      exact holds_write ha hi
  · intro j k hj hjk hk
    rw [List.length_append, List.length_singleton] at hk
    by_cases hkw : k < g.writes.length
    · exact hdist j k hj hjk hkw
    · obtain rfl : k = g.writes.length := by omega
      rw [← hslot]
      exact hfree j hjk hj
  · rw [h3, hagg, zipWith_write _ hcl, Schedule.residency]
  · rw [h5, hwb, zipWith_write _ hcl, Schedule.residency]

private theorem scheduleInv_consume (h : ScheduleInv slot (s, g)) (hin : InOrder slot (s, g) (.sqConsume i)) :
    ScheduleInv slot (s.sqOnConsume i, { g with consumes := g.consumes ++ [s.roi_cycles] }) := by
  obtain ⟨ha, rfl, hlt⟩ := hin
  obtain ⟨hfl, hcl, hopen, hlive, hdist, hagg, hwb⟩ := h
  obtain ⟨-, h2, h3, -, h5⟩ := sqOnConsume_fields ha (slot g.consumes.length)
  dsimp only at *
  obtain ⟨w, hw⟩ : ∃ w, g.writes[g.consumes.length]? = some w := ⟨_, List.getElem?_eq_getElem hlt⟩
  -- the oldest open interval is the one of the consumed store
  have hhead : s.harp_sq_open.head? = some w := by rw [hopen, List.head?_drop, hw]
  have hres : Schedule.residency { g with consumes := g.consumes ++ [s.roi_cycles] } =
      g.residency + (s.roi_cycles - w) := by
    simp only [Schedule.residency, zipWith_consume _ hw, List.sum_append, List.sum_singleton]
  constructor <;> dsimp only
  · rw [List.length_append]
    omega
  · rw [List.length_append, List.length_singleton]
    omega
  · rw [h2, hopen, List.tail_drop, List.length_append, List.length_singleton]
  · intro j v hj hjf
    rw [List.length_append, List.length_singleton]
    have hjw : j < g.writes.length := (List.getElem?_eq_some_iff.mp hj).1
    have hjs := hlive j v hj hjf
    rcases Nat.lt_trichotomy j g.consumes.length with hlt' | rfl | hgt
    · rw [decide_eq_true (by omega)] at hjs ⊢
      exact hjs.consume_ne ha (hdist _ _ hjf hlt' hlt).symm
    · rw [decide_eq_true (by omega)]
      exact hjs.consume ha
    · rw [decide_eq_false (by omega)] at hjs ⊢
      exact hjs.consume_ne ha (hdist _ _ hfl hgt hjw)
  · exact hdist
  · rw [hres, h3, hagg, popGain, hhead]
    rfl
  · have hs := hlive _ w hw hfl
    rw [decide_eq_false (Nat.lt_irrefl _)] at hs
    rw [hres, h5, hwb, hs.gain]

private theorem scheduleInv_free (h : ScheduleInv slot (s, g)) (hin : InOrder slot (s, g) (.sqFree i))
    (hdr : DrainedFree (s, g) (.sqFree i)) : ScheduleInv slot (s.sqOnFree i, { g with freed := g.freed + 1 }) := by
  obtain ⟨ha, rfl, hlt⟩ := hin
  obtain ⟨hfl, hcl, hopen, hlive, hdist, hagg, hwb⟩ := h
  obtain ⟨-, h2, h3, -, h5⟩ := sqOnFree_fields ha (slot g.freed)
  simp only [DrainedFree] at hdr
  dsimp only at *
  constructor <;> dsimp only
  · exact hlt
  · exact hcl
  · -- no interval is open, so the free has none to drop
    rw [h2, hopen, hdr, List.drop_length, List.tail_nil]
  · intro j w hj hjf
    have hjw : j < g.writes.length := (List.getElem?_eq_some_iff.mp hj).1
    exact (hlive j w hj (by omega)).free_ne ha (hdist _ _ (Nat.le_refl _) hjf hjw)
  · exact fun j k hj => hdist j k (by omega)
  · exact h3.trans hagg
  · exact h5.trans hwb

private theorem ScheduleInv.of_eq {s' : CHAOSCov cfg} (h : ScheduleInv slot (s, g))
    (hopen : s'.harp_sq_open = s.harp_sq_open) (hagg : s'.sq_ace_cycles = s.sq_ace_cycles)
    (hwb : s'.sq_wb_ace_cycles = s.sq_wb_ace_cycles)
    (hheld : ∀ k w c, Holds s k w c → Holds s' k w c) : ScheduleInv slot (s', g) where
  freed_le := h.freed_le
  consumed_le := h.consumed_le
  opened := hopen.trans h.opened
  live j w hj hjf := hheld _ _ _ (h.live j w hj hjf)
  distinct := h.distinct
  aggregate := hagg.trans h.aggregate
  writeback := hwb.trans h.writeback

private theorem scheduleInv_forward (h : ScheduleInv slot (s, g)) : ScheduleInv slot (s.sqOnForward i, g) := by
  by_cases ha : s.roi_active = true
  · obtain ⟨-, h2, h3, -, h5⟩ := sqOnForward_fields ha i
    exact h.of_eq h2 h3 h5 fun _ _ _ hk => hk.forward ha
  · rw [show s.sqOnForward i = s by simp [sqOnForward, ha]]
    exact h

end Step

private theorem scheduleInv_step {slot : Nat → Nat} (x : CHAOSCov cfg × Schedule) (e : Event cfg)
    (h : ScheduleInv slot x) (he : InOrder slot x e ∧ DrainedFree x e) : ScheduleInv slot (scheduleStep x e) := by
  obtain ⟨s, g⟩ := x
  by_cases hp : e.part = .sq
  swap
  · obtain ⟨h1, h2, h3, -, h5⟩ := sq_frame s hp
    have hg : scheduleStep (s, g) e = (step s e, g) := by
      cases e <;> first | rfl | cases hp rfl
    rw [hg]
    exact h.of_eq h2 h3 h5 fun k _ _ hk => hk.of_eq fun _ => by rw [h1]
  cases e with
  | sqWrite i => exact scheduleInv_write h he.1
  | sqConsume i => exact scheduleInv_consume h he.1
  | sqFree i => exact scheduleInv_free h he.1 he.2
  | sqForward i => exact scheduleInv_forward h
  | _ => cases hp

/-- In a schedule of stores in order whose frees wait until the queue has drained, the aggregate ledger and the
writeback ledger are both the residency of the consumed stores. -/
theorem sq_ace_eq_wb (slot : Nat → Nat) (es : List (Event cfg))
    (h : Along scheduleStep (fun x e => InOrder slot x e ∧ DrainedFree x e) (fresh cfg, {}) es) :
    (run (fresh cfg) es).sq_ace_cycles = (scheduleOf es).residency ∧
      (run (fresh cfg) es).sq_wb_ace_cycles = (scheduleOf es).residency := by
  have h0 : ScheduleInv slot ((fresh cfg, {}) : CHAOSCov cfg × Schedule) := by
    constructor <;> simp [fresh, Schedule.residency]
  have hinv := h.invariant h0 scheduleInv_step
  rw [← foldl_scheduleStep_fst es (fresh cfg, {})]
  exact ⟨hinv.aggregate, hinv.writeback⟩

/-- Two stores that overlap, both consumed before the first is freed. -/
theorem sq_ace_eq_wb_tiny :
    let es : List (Event tiny) := .workBegin :: LSQUnit.deliver {} [.insertStore 1, .write 1 8, .cycle,
      .insertStore 2, .write 2 8, .cycle, .commitStores 2, .writebackStores, .writebackStores, .cycle,
      .completeStore 1, .completeStore 2]
    Along scheduleStep (fun x e => InOrder (fun j => (j + 1) % 2) x e ∧ DrainedFree x e) (fresh tiny, {}) es ∧
      (run (fresh tiny) es).sq_ace_cycles = (scheduleOf es).residency ∧
      (run (fresh tiny) es).sq_wb_ace_cycles = (scheduleOf es).residency :=
  ⟨by decide, sq_ace_eq_wb (fun j => (j + 1) % 2) _ (by decide)⟩

/-- Two stores are written in cycle 0.  The first is consumed and freed in cycle 1; the free drops the interval of the
second, and its consume in cycle 3 finds none to close. -/
theorem aggregate_loses_store :
    let es : List (Event tiny) := .workBegin :: LSQUnit.deliver {} [.insertStore 1, .write 1 8, .insertStore 2,
      .write 2 8, .cycle, .commitStores 1, .writebackStores, .completeStore 1, .cycle, .cycle, .commitStores 2,
      .writebackStores, .completeStore 2]
    let s := run (fresh tiny) es
    Along scheduleStep (InOrder fun j => (j + 1) % 2) (fresh tiny, {}) es ∧
      s.sq_ace_cycles = 1 ∧ s.sq_wb_ace_cycles = 4 ∧ (scheduleOf es).residency = 4 := by
  decide

end GemFI.Cov
