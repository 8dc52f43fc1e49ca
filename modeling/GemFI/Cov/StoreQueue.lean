import GemFI.Cov.LSQUnit
import GemFI.Cov.Timeline
import GemFI.Lib.Lifetime
import GemFI.Lib.Run

/-!
# Store-queue residency

Two ledgers are kept slot by slot, one for the writeback of the data and one for store-to-load forwarding; each is a
bank of lifetime cells (`sqCell_step`, `sqLedger_step`).  The aggregate ledger `sq_ace_cycles` matches writes,
consumes and frees by position in the list `harp_sq_open` and knows no slots.

* The aggregate stays below `sq_entries * roi_cycles` in every run in which no write hits a slot whose data is still
  waiting for its writeback (`sq_ace_le`).
* Squashed stores are never freed, and their intervals are closed by the consumes of other stores
  (`squashed_stores_exceed_queue`).
-/

namespace GemFI.Cov

open CHAOSCov Lifetime

variable {cfg : Config}

/-! ### What the hooks do to the fields -/

theorem updateSq_state (s : CHAOSCov cfg) (i : Nat) (f : SqState → SqState) (j : Fin cfg.sq_entries) :
    (updateSq s i f).sq_state j = if i = j then f (s.sq_state j) else s.sq_state j := by
  unfold updateSq
  by_cases hi : i < cfg.sq_entries
  · rw [dif_pos hi]
    by_cases hij : i = j
    · subst hij
      simp
    · have hne : j ≠ ⟨i, hi⟩ := fun h => hij (congrArg Fin.val h).symm
      simp [Function.update_of_ne hne, hij]
  · have hij : i ≠ j := fun h => hi (h ▸ j.isLt)
    rw [dif_neg hi, if_neg hij]

theorem updateSq_fields (s : CHAOSCov cfg) (i : Nat) (f : SqState → SqState) :
    (updateSq s i f).harp_sq_open = s.harp_sq_open ∧ (updateSq s i f).sq_ace_cycles = s.sq_ace_cycles ∧
    (updateSq s i f).sq_fwd_ace_cycles = s.sq_fwd_ace_cycles ∧
    (updateSq s i f).sq_wb_ace_cycles = s.sq_wb_ace_cycles := by
  unfold updateSq
  split <;> exact ⟨rfl, rfl, rfl, rfl⟩

def popGain (s : CHAOSCov cfg) : Nat := (s.harp_sq_open.head?.map fun birth => s.roi_cycles - birth).getD 0

def SqState.written (now : Nat) : SqState :=
  { birth := now, last_consume := now, last_forward := now, has_data := true }

def SqState.forwarded (now : Nat) (st : SqState) : SqState := { st with ever_forwarded := true, last_forward := now }

def SqState.consumed (now : Nat) (st : SqState) : SqState := { st with ever_consumed := true, last_consume := now }

variable {s : CHAOSCov cfg}

variable {i : Nat} {e : Event cfg} (φ : SqFace)

theorem step_sq_inactive (ha : s.roi_active = false) (hp : e.part = .sq) : step s e = s := by
  cases e with
  | sqWrite | sqConsume | sqFree | sqForward => simp [step, sqOnWrite, sqOnConsume, sqOnFree, sqOnForward, ha]
  | _ => cases hp

theorem sqOnWrite_fields (ha : s.roi_active = true) (i : Nat) :
    (∀ j, (s.sqOnWrite i).sq_state j = if i = j then SqState.written s.roi_cycles else s.sq_state j) ∧
    (s.sqOnWrite i).harp_sq_open = s.harp_sq_open ++ [s.roi_cycles] ∧
    (s.sqOnWrite i).sq_ace_cycles = s.sq_ace_cycles ∧ (s.sqOnWrite i).sq_fwd_ace_cycles = s.sq_fwd_ace_cycles ∧
    (s.sqOnWrite i).sq_wb_ace_cycles = s.sq_wb_ace_cycles := by
  simp only [sqOnWrite, ha, Bool.not_true, Bool.false_eq_true, ↓reduceIte]
  exact ⟨updateSq_state _ i _, updateSq_fields _ i _⟩

theorem sqOnFree_fields (ha : s.roi_active = true) (i : Nat) :
    (∀ j, (s.sqOnFree i).sq_state j = if i = j then { s.sq_state j with has_data := false } else s.sq_state j) ∧
    (s.sqOnFree i).harp_sq_open = s.harp_sq_open.tail ∧
    (s.sqOnFree i).sq_ace_cycles = s.sq_ace_cycles ∧ (s.sqOnFree i).sq_fwd_ace_cycles = s.sq_fwd_ace_cycles ∧
    (s.sqOnFree i).sq_wb_ace_cycles = s.sq_wb_ace_cycles := by
  simp only [sqOnFree, ha, Bool.not_true, Bool.false_eq_true, ↓reduceIte]
  exact ⟨updateSq_state _ i _, updateSq_fields _ i _⟩

inductive SqFace where
  | wb | fwd
  deriving DecidableEq, Repr

def SqFace.ledger : SqFace → CHAOSCov cfg → Nat
  | .wb, s => s.sq_wb_ace_cycles
  | .fwd, s => s.sq_fwd_ace_cycles

def SqFace.cell : SqFace → SqState → Option Live
  | .wb, st => if st.has_data then some ⟨st.birth, st.last_consume, st.ever_consumed⟩ else none
  | .fwd, st => if st.has_data then some ⟨st.birth, st.last_forward, st.ever_forwarded⟩ else none

def SqFace.sqOp (φ : SqFace) (active : Bool) : Event cfg → Option (Nat × Op)
  | .sqWrite i => if active then some (i, .start) else none
  | .sqConsume i => if active ∧ φ = .wb then some (i, .use true) else none
  | .sqForward i => if active ∧ φ = .fwd then some (i, .use true) else none
  | .sqFree i => if active then some (i, .stop) else none
  | _ => none

def onEntry (j : Fin cfg.sq_entries) (t : Nat) (x : Option (Nat × Op)) : Option (Nat × Op) :=
  x.bind fun y => if y.1 = j then some (t, y.2) else none

theorem onEntry_time {j : Fin cfg.sq_entries} {t : Nat} {x : Option (Nat × Op)} {o : Nat × Op}
    (h : onEntry j t x = some o) : o.1 = t := by
  obtain ⟨y, -, hy⟩ := Option.bind_eq_some_iff.1 h
  split at hy
  · exact (Option.some.inj hy) ▸ rfl
  · cases hy

def SqFace.hookOp (φ : SqFace) (s : CHAOSCov cfg) (e : Event cfg) (j : Fin cfg.sq_entries) : Option (Nat × Op) :=
  onEntry j s.roi_cycles (φ.sqOp s.roi_active e)

theorem sqOp_inactive (e : Event cfg) : φ.sqOp false e = none := by
  cases e <;> simp [SqFace.sqOp]

theorem sqOp_of_part (active : Bool) (h : e.part ≠ .sq) : φ.sqOp active e = none := by
  cases e with
  | sqWrite | sqConsume | sqFree | sqForward => exact absurd rfl h
  | _ => rfl

def entryGain (cell : Fin cfg.sq_entries → Option Live) (t : Nat) : Option (Nat × Op) → Nat
  | some (i, o) => if h : i < cfg.sq_entries then gain (cell ⟨i, h⟩) t o else 0
  | none => 0

theorem sum_onEntry (cell : Fin cfg.sq_entries → Option Live) (t : Nat) (x : Option (Nat × Op)) :
    ∑ j, charge (cell j) (onEntry j t x).toList = entryGain cell t x := by
  cases x with
  | none => exact Finset.sum_eq_zero fun i _ => rfl
  | some y =>
    obtain ⟨i, o⟩ := y
    by_cases hi : i < cfg.sq_entries
    · rw [sum_charge_eq_single cell _ ⟨i, hi⟩ fun j hj => ?_]
      · simp [onEntry, charge, entryGain, hi]
      · have : i ≠ j := fun h => hj (Fin.ext h.symm)
        simp [onEntry, this]
    · rw [sum_charge_eq_zero cell _ fun j => ?_]
      · simp [entryGain, hi]
      · have : i ≠ j := fun h => hi (h ▸ j.isLt)
        simp [onEntry, this]

private theorem entryGain_eq (cell : Fin cfg.sq_entries → Option Live) (t : Nat) (h : i < cfg.sq_entries)
    (o : Op) : entryGain cell t (some (i, o)) = gain (cell ⟨i, h⟩) t o := by
  rw [entryGain, dif_pos h]

private theorem state_eq_of_no_data (f : SqState → SqState)
    (h : ∀ hi : i < cfg.sq_entries, (s.sq_state ⟨i, hi⟩).has_data = false) (j : Fin cfg.sq_entries) :
    s.sq_state j = if i = j ∧ (s.sq_state j).has_data = true then f (s.sq_state j) else s.sq_state j := by
  rw [if_neg]
  rintro ⟨rfl, hd⟩
  rw [h j.isLt] at hd
  cases hd

private theorem updateSq_state_data {s s' : CHAOSCov cfg} (hi : i < cfg.sq_entries)
    (hd : (s.sq_state ⟨i, hi⟩).has_data = true) (hs : s'.sq_state = s.sq_state) (f : SqState → SqState)
    (j : Fin cfg.sq_entries) :
    (updateSq s' i f).sq_state j =
      if i = j ∧ (s.sq_state j).has_data = true then f (s.sq_state j) else s.sq_state j := by
  rw [updateSq_state, hs]
  by_cases hij : i = j
  · have hd' : (s.sq_state j).has_data = true := by
      have : (⟨i, hi⟩ : Fin cfg.sq_entries) = j := Fin.ext hij
      rw [← this, hd]
    rw [if_pos hij, if_pos ⟨hij, hd'⟩]
  · rw [if_neg hij, if_neg fun h => hij h.1]

theorem sqOnForward_fields (ha : s.roi_active = true) (i : Nat) :
    (∀ j, (s.sqOnForward i).sq_state j = if i = j ∧ (s.sq_state j).has_data = true then
      (s.sq_state j).forwarded s.roi_cycles else s.sq_state j) ∧
    (s.sqOnForward i).harp_sq_open = s.harp_sq_open ∧
    (s.sqOnForward i).sq_ace_cycles = s.sq_ace_cycles ∧
    (s.sqOnForward i).sq_fwd_ace_cycles = s.sq_fwd_ace_cycles +
      entryGain (fun j => SqFace.fwd.cell (s.sq_state j)) s.roi_cycles (some (i, .use true)) ∧
    (s.sqOnForward i).sq_wb_ace_cycles = s.sq_wb_ace_cycles := by
  by_cases hi : i < cfg.sq_entries
  swap
  · have hs : s.sqOnForward i = s := by simp [sqOnForward, hi]
    rw [hs, entryGain, dif_neg hi]
    exact ⟨state_eq_of_no_data (SqState.forwarded s.roi_cycles) fun h => absurd h hi, rfl, rfl, rfl, rfl⟩
  rw [entryGain_eq _ _ hi]
  cases hd : (s.sq_state ⟨i, hi⟩).has_data with
  | false =>
    have hs : s.sqOnForward i = s := by simp [sqOnForward, hi, hd]
    rw [hs]
    exact ⟨state_eq_of_no_data (SqState.forwarded s.roi_cycles) fun _ => hd, rfl, rfl,
      by simp [gain, SqFace.cell, hd], rfl⟩
  | true =>
    simp only [sqOnForward, ha, hi, hd, Bool.not_true, Bool.false_eq_true, ↓reduceIte, ↓reduceDIte]
    refine ⟨fun j => ?_, ?_⟩
    · refine updateSq_state_data hi hd ?_ (SqState.forwarded s.roi_cycles) j
      rfl
    · obtain ⟨h1, h2, h3, h4⟩ := updateSq_fields _ _ _
      refine ⟨h1, h2, h3.trans ?_, h4⟩
      cases hu : (s.sq_state ⟨i, hi⟩).ever_forwarded <;> simp [gain, SqFace.cell, hd, hu, Live.anchor]

private theorem closeOldest_fields (s : CHAOSCov cfg) :
    (closeOldest s).harp_sq_open = s.harp_sq_open.tail ∧
    (closeOldest s).sq_ace_cycles = s.sq_ace_cycles + popGain s ∧
    (closeOldest s).sq_state = s.sq_state ∧ (closeOldest s).roi_cycles = s.roi_cycles ∧
    (closeOldest s).sq_fwd_ace_cycles = s.sq_fwd_ace_cycles ∧
    (closeOldest s).sq_wb_ace_cycles = s.sq_wb_ace_cycles := by
  cases h : s.harp_sq_open <;> simp [closeOldest, popGain, h]

private theorem consumeSlot_fields (s : CHAOSCov cfg) (i : Nat) :
    (∀ j, (consumeSlot s i).sq_state j = if i = j ∧ (s.sq_state j).has_data = true then
      (s.sq_state j).consumed s.roi_cycles else s.sq_state j) ∧
    (consumeSlot s i).harp_sq_open = s.harp_sq_open ∧
    (consumeSlot s i).sq_ace_cycles = s.sq_ace_cycles ∧
    (consumeSlot s i).sq_fwd_ace_cycles = s.sq_fwd_ace_cycles ∧
    (consumeSlot s i).sq_wb_ace_cycles = s.sq_wb_ace_cycles +
      entryGain (fun j => SqFace.wb.cell (s.sq_state j)) s.roi_cycles (some (i, .use true)) := by
  by_cases hi : i < cfg.sq_entries
  swap
  · have hs : consumeSlot s i = s := by simp [consumeSlot, hi]
    rw [hs, entryGain, dif_neg hi]
    exact ⟨state_eq_of_no_data (SqState.consumed s.roi_cycles) fun h => absurd h hi, rfl, rfl, rfl, rfl⟩
  rw [entryGain_eq _ _ hi]
  cases hd : (s.sq_state ⟨i, hi⟩).has_data with
  | false =>
    have hs : consumeSlot s i = s := by simp [consumeSlot, hd]
    rw [hs]
    exact ⟨state_eq_of_no_data (SqState.consumed s.roi_cycles) fun _ => hd, rfl, rfl, rfl,
      by simp [gain, SqFace.cell, hd]⟩
  | true =>
    simp only [consumeSlot, hi, hd, ↓reduceIte, ↓reduceDIte]
    refine ⟨fun j => ?_, ?_⟩
    · refine updateSq_state_data hi hd ?_ (SqState.consumed s.roi_cycles) j
      rfl
    · obtain ⟨h1, h2, h3, h4⟩ := updateSq_fields _ _ _
      refine ⟨h1, h2, h3, h4.trans ?_⟩
      cases hu : (s.sq_state ⟨i, hi⟩).ever_consumed <;> simp [gain, SqFace.cell, hd, hu, Live.anchor]

theorem sqOnConsume_fields (ha : s.roi_active = true) (i : Nat) :
    (∀ j, (s.sqOnConsume i).sq_state j = if i = j ∧ (s.sq_state j).has_data = true then
      (s.sq_state j).consumed s.roi_cycles else s.sq_state j) ∧
    (s.sqOnConsume i).harp_sq_open = s.harp_sq_open.tail ∧
    (s.sqOnConsume i).sq_ace_cycles = s.sq_ace_cycles + popGain s ∧
    (s.sqOnConsume i).sq_fwd_ace_cycles = s.sq_fwd_ace_cycles ∧
    (s.sqOnConsume i).sq_wb_ace_cycles = s.sq_wb_ace_cycles +
      entryGain (fun j => SqFace.wb.cell (s.sq_state j)) s.roi_cycles (some (i, .use true)) := by
  simp only [sqOnConsume, ha, Bool.not_true, Bool.false_eq_true, ↓reduceIte]
  have hclose := closeOldest_fields s
  -- counting the consume changes none of the fields
  obtain ⟨s₁, hs₁⟩ : ∃ s₁, { closeOldest s with sq_consumes := (closeOldest s).sq_consumes + 1 } = s₁ := ⟨_, rfl⟩
  have h : s₁.harp_sq_open = s.harp_sq_open.tail ∧ s₁.sq_ace_cycles = s.sq_ace_cycles + popGain s ∧
      s₁.sq_state = s.sq_state ∧ s₁.roi_cycles = s.roi_cycles ∧ s₁.sq_fwd_ace_cycles = s.sq_fwd_ace_cycles ∧
      s₁.sq_wb_ace_cycles = s.sq_wb_ace_cycles := by rw [← hs₁]; exact hclose
  obtain ⟨h1, h2, h3, h4, h5, h6⟩ := h
  have hslot := consumeSlot_fields s₁ i
  rw [hs₁]
  rwa [h1, h2, h3, h4, h5, h6] at hslot

/-! ### The ledgers of the slots -/

theorem sqCell_step (s : CHAOSCov cfg) (e : Event cfg) (j : Fin cfg.sq_entries) :
    φ.cell ((step s e).sq_state j) = after (φ.cell (s.sq_state j)) (φ.hookOp s e j).toList := by
  by_cases hp : e.part = .sq
  swap
  · rw [(sq_frame s hp).1, SqFace.hookOp, sqOp_of_part φ _ hp]
    rfl
  cases ha : s.roi_active with
  | false =>
    rw [step_sq_inactive ha hp, SqFace.hookOp, ha, sqOp_inactive]
    rfl
  | true =>
    rw [SqFace.hookOp, ha]
    cases e with
    | sqWrite i =>
      rw [step, (sqOnWrite_fields ha i).1 j]
      by_cases hij : i = j <;> cases φ <;> simp [SqFace.sqOp, onEntry, hij, after, next, SqFace.cell, SqState.written]
    | sqFree i =>
      rw [step, (sqOnFree_fields ha i).1 j]
      by_cases hij : i = j <;> cases φ <;> simp [SqFace.sqOp, onEntry, hij, after, next, SqFace.cell]
    | sqConsume i =>
      rw [step, (sqOnConsume_fields ha i).1 j]
      by_cases hij : i = j <;> cases hd : (s.sq_state j).has_data <;> cases φ <;>
        simp [SqFace.sqOp, onEntry, hij, hd, after, next, SqFace.cell, SqState.consumed]
    | sqForward i =>
      rw [step, (sqOnForward_fields ha i).1 j]
      by_cases hij : i = j <;> cases hd : (s.sq_state j).has_data <;> cases φ <;>
        simp [SqFace.sqOp, onEntry, hij, hd, after, next, SqFace.cell, SqState.forwarded]
    | _ => cases hp

theorem sqLedger_step (s : CHAOSCov cfg) (e : Event cfg) :
    φ.ledger (step s e) = φ.ledger s + ∑ j, charge (φ.cell (s.sq_state j)) (φ.hookOp s e j).toList := by
  have hsum := sum_onEntry (fun j => φ.cell (s.sq_state j)) s.roi_cycles (φ.sqOp s.roi_active e)
  simp only [SqFace.hookOp, hsum]
  by_cases hp : e.part = .sq
  swap
  · obtain ⟨-, -, -, h1, h2⟩ := sq_frame s hp
    rw [sqOp_of_part φ _ hp]
    cases φ <;> simp [SqFace.ledger, entryGain, h1, h2]
  cases ha : s.roi_active with
  | false =>
    rw [step_sq_inactive ha hp, sqOp_inactive]
    rfl
  | true =>
    cases e with
    | sqWrite i =>
      obtain ⟨-, -, -, h1, h2⟩ := sqOnWrite_fields ha i
      cases φ <;> simp [step, SqFace.ledger, h1, h2, SqFace.sqOp, entryGain, gain]
    | sqFree i =>
      obtain ⟨-, -, -, h1, h2⟩ := sqOnFree_fields ha i
      cases φ <;> simp [step, SqFace.ledger, h1, h2, SqFace.sqOp, entryGain, gain]
    | sqConsume i =>
      obtain ⟨-, -, -, h1, h2⟩ := sqOnConsume_fields ha i
      cases φ with
      | wb => exact h2
      | fwd => exact h1
    | sqForward i =>
      obtain ⟨-, -, -, h1, h2⟩ := sqOnForward_fields ha i
      cases φ with
      | wb => exact h2
      | fwd => exact h1
    | _ => cases hp

/-! ### The aggregate ledger is bounded -/

def pending (s : CHAOSCov cfg) : Finset (Fin cfg.sq_entries) :=
  Finset.univ.filter fun j => (s.sq_state j).has_data = true ∧ (s.sq_state j).ever_consumed = false

/-- A write in a window goes to a slot below `sq_entries` whose data do not wait for their writeback. -/
def NoOverwrite (s : CHAOSCov cfg) : Event cfg → Prop
  | .sqWrite i => s.roi_active = true → ∃ h : i < cfg.sq_entries, ⟨i, h⟩ ∉ pending s
  | _ => True

instance (s : CHAOSCov cfg) (e : Event cfg) : Decidable (NoOverwrite s e) := by
  rcases e
  case sqWrite i =>
    exact inferInstanceAs (Decidable (s.roi_active = true → ∃ h : i < cfg.sq_entries, ⟨i, h⟩ ∉ pending s))
  all_goals exact .isTrue trivial

/-- The cycles that the open intervals would add if they were closed now. -/
def openCycles (s : CHAOSCov cfg) : Nat := (s.harp_sq_open.map fun birth => s.roi_cycles - birth).sum

structure AggregateInv (s : CHAOSCov cfg) : Prop where
  open_le : s.harp_sq_open.length ≤ (pending s).card
  bound : s.sq_ace_cycles + openCycles s ≤ cfg.sq_entries * s.roi_cycles

private theorem sum_sub_le (xs : List Nat) {t t' : Nat} (h : t ≤ t') :
    (xs.map fun b => t' - b).sum ≤ (xs.map fun b => t - b).sum + xs.length * (t' - t) := by
  induction xs with
  | nil => simp
  | cons x xs ih =>
    simp only [List.map_cons, List.sum_cons, List.length_cons, Nat.succ_mul]
    omega

private theorem AggregateInv.elapse {s s' : CHAOSCov cfg} (h : AggregateInv s) (hpend : pending s' = pending s)
    (hopen : s'.harp_sq_open = s.harp_sq_open) (hace : s'.sq_ace_cycles = s.sq_ace_cycles)
    (hle : s.roi_cycles ≤ s'.roi_cycles) : AggregateInv s' := by
  constructor
  · rw [hopen, hpend]
    exact h.open_le
  · have hcard : (pending s).card ≤ cfg.sq_entries := by
      simpa using Finset.card_le_univ (pending s)
    have hgrow := sum_sub_le s.harp_sq_open hle
    have hlen : s.harp_sq_open.length * (s'.roi_cycles - s.roi_cycles) ≤
        cfg.sq_entries * (s'.roi_cycles - s.roi_cycles) :=
      Nat.mul_le_mul_right _ (Nat.le_trans h.open_le hcard)
    have hsplit : cfg.sq_entries * s'.roi_cycles =
        cfg.sq_entries * s.roi_cycles + cfg.sq_entries * (s'.roi_cycles - s.roi_cycles) := by
      rw [← Nat.mul_add]
      congr 1
      omega
    have hb := h.bound
    rw [openCycles] at hb ⊢
    rw [hopen, hace, hsplit]
    omega

private theorem openCycles_tail (s : CHAOSCov cfg) :
    openCycles s = popGain s + (s.harp_sq_open.tail.map fun birth => s.roi_cycles - birth).sum := by
  cases h : s.harp_sq_open <;> simp [openCycles, popGain, h]

private theorem card_pending_pop (s s' : CHAOSCov cfg) (i : Nat)
    (hstate : ∀ j : Fin cfg.sq_entries, i ≠ j → s'.sq_state j = s.sq_state j) :
    (pending s).card - 1 ≤ (pending s').card := by
  have hmem : ∀ j : Fin cfg.sq_entries, i ≠ j → (j ∈ pending s' ↔ j ∈ pending s) := by
    intro j hj
    simp only [pending, Finset.mem_filter, hstate j hj]
  by_cases hi : i < cfg.sq_entries
  · refine Nat.le_trans Finset.pred_card_le_card_erase (Finset.card_le_card (s := (pending s).erase ⟨i, hi⟩) ?_)
    intro j hj
    rw [Finset.mem_erase] at hj
    exact (hmem j fun h => hj.1 (Fin.ext h.symm)).2 hj.2
  · have : pending s ⊆ pending s' := fun j hj => (hmem j fun h => hi (h ▸ j.isLt)).2 hj
    exact Nat.le_trans (Nat.sub_le _ _) (Finset.card_le_card this)

private theorem AggregateInv.pop {s s' : CHAOSCov cfg} (h : AggregateInv s) (i : Nat)
    (hstate : ∀ j : Fin cfg.sq_entries, i ≠ j → s'.sq_state j = s.sq_state j)
    (hopen : s'.harp_sq_open = s.harp_sq_open.tail) (hace : s'.sq_ace_cycles ≤ s.sq_ace_cycles + popGain s)
    (hcyc : s'.roi_cycles = s.roi_cycles) : AggregateInv s' := by
  have hcard := card_pending_pop s s' i hstate
  have hle := h.open_le
  have hb := h.bound
  constructor
  · rw [hopen, List.length_tail]
    omega
  · rw [openCycles_tail] at hb
    rw [openCycles, hcyc, hopen]
    omega

private theorem AggregateInv.write (h : AggregateInv s) (ha : s.roi_active = true) (hi : i < cfg.sq_entries)
    (hnot : ⟨i, hi⟩ ∉ pending s) (hcyc : (s.sqOnWrite i).roi_cycles = s.roi_cycles) :
    AggregateInv (s.sqOnWrite i) := by
  obtain ⟨h1, h2, h3, -⟩ := sqOnWrite_fields ha i
  have hpend : pending (s.sqOnWrite i) = insert ⟨i, hi⟩ (pending s) := by
    ext j
    simp only [pending, Finset.mem_filter, Finset.mem_univ, true_and, Finset.mem_insert, h1 j, Fin.ext_iff]
    by_cases hij : i = j
    · simp [hij, SqState.written]
    · simp [hij, Ne.symm hij]
  have hopen := h.open_le
  constructor
  · rw [h2, hpend, Finset.card_insert_of_notMem hnot, List.length_append, List.length_singleton]
    omega
  · -- the new interval is empty so far
    rw [openCycles, hcyc, h2, h3]
    simpa [openCycles] using h.bound

private theorem aggregateInv_step (h : AggregateInv s) (hok : NoOverwrite s e) : AggregateInv (step s e) := by
  have hle := roi_cycles_le_step s e
  by_cases hp : e.part = .sq
  swap
  · obtain ⟨h1, h2, h3, -⟩ := sq_frame s hp
    exact h.elapse (by simp only [pending, h1]) h2 h3 hle
  have hcyc : (step s e).roi_cycles = s.roi_cycles := (clock_frame s (by rw [hp]; decide)).2
  cases ha : s.roi_active with
  | false => rwa [step_sq_inactive ha hp]
  | true =>
    cases e with
    | sqWrite i =>
      obtain ⟨hi, hnot⟩ := hok ha
      exact h.write ha hi hnot hcyc
    | sqConsume i =>
      obtain ⟨h1, h2, h3, -⟩ := sqOnConsume_fields ha i
      exact h.pop i (fun j hij => by rw [step, h1 j, if_neg fun h => hij h.1]) h2 (Nat.le_of_eq h3) hcyc
    | sqFree i =>
      obtain ⟨h1, h2, h3, -⟩ := sqOnFree_fields ha i
      exact h.pop i (fun j hij => by rw [step, h1 j, if_neg hij]) h2 (h3 ▸ Nat.le_add_right _ _) hcyc
    | sqForward i =>
      obtain ⟨h1, h2, h3, -⟩ := sqOnForward_fields ha i
      have hpend : pending (s.sqOnForward i) = pending s := by
        ext j
        simp only [pending, Finset.mem_filter, h1 j]
        split <;> rfl
      exact h.elapse hpend h2 h3 hle
    | _ => cases hp

/-- The aggregate ledger stays a fraction of the queue in every run in which no write hits a slot whose data still
wait for their writeback. -/
theorem sq_ace_le (es : List (Event cfg)) (h : Along step NoOverwrite (fresh cfg) es) :
    (run (fresh cfg) es).sq_ace_cycles ≤ cfg.sq_entries * (run (fresh cfg) es).roi_cycles := by
  have h0 : AggregateInv (fresh cfg) := ⟨Nat.zero_le _, by simp [fresh, openCycles]⟩
  have hinv : AggregateInv (run (fresh cfg) es) := h.invariant h0 fun s e hs he => aggregateInv_step hs he
  have := hinv.bound
  omega

/-- Two stores of an empty queue go through it. -/
theorem sq_ace_le_tiny :
    let es : List (Event tiny) := .workBegin :: LSQUnit.deliver {} ((List.range 2).flatMap fun k =>
      [.insertStore k, .write (k + 1) 8, .cycle, .commitStores k, .writebackStores, .cycle, .completeStore (k + 1)])
    Along step NoOverwrite (fresh tiny) es ∧
      (run (fresh tiny) es).sq_ace_cycles ≤ tiny.sq_entries * (run (fresh tiny) es).roi_cycles :=
  ⟨by decide, sq_ace_le _ (by decide)⟩

/-- Eight stores are written, one in each cycle, and squashed; then four stores go through the queue of two entries.
Their consumes close the intervals that the squashed stores left open. -/
theorem squashed_stores_exceed_queue :
    let squashed : List LsqOp := (List.range 8).flatMap fun k => [.insertStore (k + 1), .write 1 8, .squash k, .cycle]
    let stores : List LsqOp := (List.range 4).flatMap fun k => [.insertStore (k + 9), .write (k + 1) 8, .cycle,
      .commitStores (k + 9), .writebackStores, .cycle, .completeStore (k + 1), .cycle]
    let s := run (fresh tiny) (.workBegin :: LSQUnit.deliver {} (squashed ++ stores))
    tiny.sq_entries * s.roi_cycles < s.sq_ace_cycles := by
  decide +kernel

end GemFI.Cov
