import GemFI.Diag.Diagnose
import Mathlib.Data.Finset.Card

/-!
# Applications on the top core

Rule P2 asks for several applications on the core with the most events.  An event without a name is collected as `?`
and so counts as an application: the rule sees two if the events report one name and one of them reports none
(`multi_app_iff`).  That is the only difference to the number of names that are reported, unless the name is `?`
itself.
-/

namespace GemFI.Diag

open Text Counter

def reported (events : List Event) (core : Nat) : List (List Char) :=
  ((events.filter fun e => e.cpu = some core).filterMap Event.comm).dedup

def ReportsTwo (events : List Event) : Prop :=
  ∃ core n, topCore (anomalies events) = some (core, n) ∧ 2 ≤ (reported (anomalies events) core).length

def OneAndMissing (events : List Event) : Prop :=
  ∃ core n, topCore (anomalies events) = some (core, n) ∧
    (∃ e ∈ anomalies events, e.cpu = some core ∧ e.comm = none) ∧
    ∃ name, name ≠ ['?'] ∧ reported (anomalies events) core = [name]

/-! ### Names with a placeholder -/

section Placeholder

variable {α : Type} [DecidableEq α]

theorem two_le_length_dedup {l : List α} : 2 ≤ l.dedup.length ↔ ∃ a ∈ l, ∃ b ∈ l, a ≠ b := by
  rw [← List.card_toFinset]
  refine Finset.one_lt_card.trans ?_
  simp only [List.mem_toFinset]

theorem two_le_length_dedup_getD (os : List (Option α)) (d : α) :
    2 ≤ (os.map fun o => o.getD d).dedup.length ↔
      2 ≤ (os.filterMap id).dedup.length ∨ none ∈ os ∧ ∃ x, some x ∈ os ∧ x ≠ d := by
  simp only [two_le_length_dedup, List.mem_map, List.mem_filterMap, id]
  constructor
  · rintro ⟨a, ⟨o, ho, rfl⟩, b, ⟨o', ho', rfl⟩, hne⟩
    cases o with
    | none =>
      cases o' with
      | none => exact absurd rfl hne
      | some y => exact .inr ⟨ho, y, ho', fun h => hne (by rw [h]; rfl)⟩
    | some x =>
      cases o' with
      | none => exact .inr ⟨ho', x, ho, fun h => hne (by rw [h]; rfl)⟩
      | some y => exact .inl ⟨x, ⟨_, ho, rfl⟩, y, ⟨_, ho', rfl⟩, hne⟩
  · rintro (⟨a, ⟨o, ho, rfl⟩, b, ⟨o', ho', rfl⟩, hne⟩ | ⟨hnone, x, hx, hne⟩)
    · exact ⟨a, ⟨_, ho, rfl⟩, b, ⟨_, ho', rfl⟩, hne⟩
    · exact ⟨d, ⟨_, hnone, rfl⟩, x, ⟨_, hx, rfl⟩, hne.symm⟩

end Placeholder

theorem mem_of_length_lt_two {α : Type} {l : List α} (h : ¬2 ≤ l.length) {x : α} : x ∈ l ↔ l = [x] := by
  cases l with
  | nil => simp
  | cons a l =>
    cases l with
    | nil => simp [eq_comm]
    | cons b l => exact absurd (by simp) h

variable (events : List Event)

theorem two_le_comms (core : Nat) :
    2 ≤ (comms events core).length ↔ 2 ≤ (reported events core).length ∨
      (∃ e ∈ events, e.cpu = some core ∧ e.comm = none) ∧ ∃ name ∈ reported events core, name ≠ ['?'] := by
  have h := two_le_length_dedup_getD ((events.filter fun e => e.cpu = some core).map Event.comm) ['?']
  rw [List.map_map, List.filterMap_map] at h
  refine h.trans (or_congr Iff.rfl (and_congr ?_ ?_))
  · simp only [List.mem_map, List.mem_filter, decide_eq_true_eq, and_assoc]
  · simp only [reported, List.mem_dedup, List.mem_map, List.mem_filterMap]

theorem comms_eq_reported_iff (core : Nat) :
    (2 ≤ (comms events core).length ↔ 2 ≤ (reported events core).length) ↔
      ¬((∃ e ∈ events, e.cpu = some core ∧ e.comm = none) ∧ ∃ name, name ≠ ['?'] ∧ reported events core = [name]) := by
  rw [two_le_comms]
  by_cases htwo : 2 ≤ (reported events core).length
  · refine iff_of_true (iff_of_true (.inl htwo) htwo) ?_
    rintro ⟨-, name, -, hname⟩
    simp [hname] at htwo
  · rw [or_iff_right htwo, iff_false_right htwo]
    simp only [mem_of_length_lt_two htwo, and_comm]

/-! ### The rule -/

theorem P2_aggregate :
    (aggregate events).P2_multi_app_on_top_core = true ↔
      ∃ core n, topCore (anomalies events) = some (core, n) ∧ 2 ≤ (comms (anomalies events) core).length := by
  show ((topCore (anomalies events)).any fun e => decide (2 ≤ (comms (anomalies events) e.1).length)) = true ↔ _
  simp [Option.any_eq_true]

theorem exists_core_iff (top : Nat × Nat) (P : Nat → Prop) : (∃ core n, some top = some (core, n) ∧ P core) ↔ P top.1 := by
  constructor
  · rintro ⟨core, n, heq, h⟩
    rwa [Option.some_inj.1 heq]
  · intro h
    exact ⟨top.1, top.2, rfl, h⟩

theorem P2_aggregate_iff :
    ((aggregate events).P2_multi_app_on_top_core = true ↔ ReportsTwo events) ↔ ¬OneAndMissing events := by
  rw [P2_aggregate]
  unfold ReportsTwo OneAndMissing
  cases topCore (anomalies events) with
  | none => simp
  | some top =>
    rw [exists_core_iff top fun core => 2 ≤ (comms (anomalies events) core).length,
      exists_core_iff top fun core => 2 ≤ (reported (anomalies events) core).length, exists_core_iff]
    exact comms_eq_reported_iff (anomalies events) top.1

theorem P2_evidence (texts : List (List Char)) :
    (evidence_from_logparse texts).P2_multi_app_on_top_core =
      (aggregate (signature (logEvents texts))).P2_multi_app_on_top_core := by
  unfold evidence_from_logparse aggregate
  dsimp only [id]
  rw [anomalies_signature]
  cases topCore (signature (logEvents texts)) with
  | none => simp
  | some top => simp

/-- The rule holds if and only if the top core has two reported names, exactly if it is not the case that its events report
one name, other than `?`, and one of them reports none.  So it is for the numbers of any events and for the evidence of any
logs. -/
theorem multi_app_iff (events : List Event) (texts : List (List Char)) :
    (((aggregate events).P2_multi_app_on_top_core = true ↔ ReportsTwo events) ↔ ¬OneAndMissing events) ∧
    (((evidence_from_logparse texts).P2_multi_app_on_top_core = true ↔ ReportsTwo (signature (logEvents texts))) ↔
      ¬OneAndMissing (signature (logEvents texts))) := by
  refine ⟨P2_aggregate_iff events, ?_⟩
  rw [P2_evidence]
  exact P2_aggregate_iff _

/-- Two events on core 3, one of `sh` and one without name. -/
theorem missing_name_counts :
    let events : List Event := [{ kind := .Oops, cpu := some 3, comm := some "sh".toList }, { kind := .Oops, cpu := some 3 }]
    (aggregate events).P2_multi_app_on_top_core = true ∧ topCore (anomalies events) = some (3, 2) ∧
    reported (anomalies events) 3 = ["sh".toList] := by
  decide +kernel

end GemFI.Diag
