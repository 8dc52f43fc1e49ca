import GemFI.Diag.EsrDecode
import GemFI.Diag.LogParse

/-!
# The rules of the diagnosis

`evidence_from_logparse` collects the spurious faults and the Oopses of the logs, and `evaluate` tests the rules on
their numbers.  Rule P4 is meant for exceptions on the core with the most events, but it reads the histogram of all
events: it fires if the events are concentrated on a core and any of them has an exception of at least 3 stars
(`firesP4_iff`), also if none of that core has (`p4_on_top_core_iff`).
-/

namespace GemFI.Diag

open Text Counter

/-! ### The evidence -/

structure Evidence where
  n_anomalies : Nat := 0
  top_core : Option Nat := none
  concentration : ℚ := 0
  P2_multi_app_on_top_core : Bool := false
  top_core_comms : List (List Char) := []
  esr_histogram : List (String × Nat) := []
  reboot_unplanned_30d : Nat := 0
  ai_workload : Bool := false
  ras_cpu_records : Nat := 0
  edac_ce_count : Nat := 0
  edac_ue_count : Nat := 0
  serror_with_valid_record : Bool := false
  service_misdiagnose_30d : Nat := 0
  fa_repro_rate : ℚ := 0
  persistent_failures_quarters : Nat := 0
  sibling_cores_failed : Bool := false
  uniform_distribution : Bool := false
  single_app_same_backtrace : Bool := false
  fuzzer_tool_origin : Bool := false
  hw_diagnostic_in_dump : Bool := false
  known_bug_or_cve : Bool := false
  mass_synchronized_anomalies : Bool := false
  missing_memory_barrier : Bool := false
  environment_transient : Bool := false
  single_negative_test : Bool := false
  p8_vector_signal : Bool := false
  p9_nzcv_anomaly : Bool := false

def logEvents (texts : List (List Char)) : List Event := texts.flatMap parse

def signature (events : List Event) : List Event :=
  events.filter fun e => e.kind = .spurious_translation_fault ∨ e.kind = .Oops

def textLe : List Char → List Char → Bool
  | [], _ => true
  | _ :: _, [] => false
  | a :: s, b :: t => a.toNat < b.toNat || a.toNat == b.toNat && textLe s t

def evidence_from_logparse (texts : List (List Char)) (extra : Evidence → Evidence := id) : Evidence :=
  let sig := signature (logEvents texts)
  let agg := aggregate sig
  let top_core_comms : List (List Char) := match agg.top_core with
    | some top => (comms sig top).insertionSort fun s t => textLe s t
    | none => []
  extra
    { n_anomalies := agg.n_anomalies
      top_core := agg.top_core
      concentration := agg.concentration
      P2_multi_app_on_top_core := decide (2 ≤ top_core_comms.length)
      top_core_comms
      esr_histogram := agg.esr_histogram }

/-! ### The rules -/

inductive PRule where
  | P1 | P2 | P3 | P4 | P5 | P6 | P7 | P10 | P11
  deriving DecidableEq, Repr

inductive NRule where
  | N1 | N2 | N3 | N4 | N5 | N6 | N7 | N8 | N9 | N10
  deriving DecidableEq, Repr

inductive Confidence where
  | EXCLUDED | HIGH | MEDIUM | LOW
  deriving DecidableEq, Repr

structure Verdict where
  confidence : Confidence
  rules_hit : List PRule
  rules_negative : List NRule
  deriving DecidableEq, Repr

/-- `int(text, 16)` of a number without sign. -/
def hexInt? (t : List Char) : Option Nat :=
  let digits := if t.take 2 = ['0', 'x'] ∨ t.take 2 = ['0', 'X'] then t.drop 2 else t
  if digits ≠ [] ∧ digits.all isHexDigit then some (ofHex digits) else none

/-- The values of the histogram with at least 3 stars; no result is a `ValueError`. -/
def p4_types (esr_histogram : List (String × Nat)) : Option (List String) := do
  let decoded ← esr_histogram.mapM fun e => (hexInt? e.1.toList).map fun esr => (e.1, decode esr)
  return (decoded.filter fun e => 3 ≤ e.2.sdc_weight_stars).map Prod.fst

def evaluate (ev : Evidence) : Option Verdict := do
  let p1 := decide (3 / 5 < ev.concentration)
  let p2 := ev.P2_multi_app_on_top_core || decide (2 ≤ ev.top_core_comms.length)
  let p3 := decide ((if ev.ai_workload then 3 else 6) ≤ ev.reboot_unplanned_30d)
  let types ← p4_types ev.esr_histogram
  let p4 := !types.isEmpty && p1
  let p5 := ev.ras_cpu_records == 0 && ev.edac_ce_count == 0 && ev.edac_ue_count == 0 && !ev.serror_with_valid_record
  let hits : List (PRule × Bool) :=
    [(.P1, p1), (.P2, p2), (.P3, p3), (.P4, p4), (.P5, p5), (.P6, 1 ≤ ev.service_misdiagnose_30d),
      (.P7, 7 / 10 ≤ ev.fa_repro_rate), (.P10, 2 ≤ ev.persistent_failures_quarters), (.P11, ev.sibling_cores_failed)]
  let negatives : List (NRule × Bool) :=
    [(.N1, ev.uniform_distribution || decide (ev.concentration ≤ 1 / 4) && decide (20 ≤ ev.n_anomalies)),
      (.N2, ev.single_app_same_backtrace), (.N3, 0 < ev.ras_cpu_records), (.N4, ev.fuzzer_tool_origin),
      (.N5, ev.hw_diagnostic_in_dump), (.N6, ev.known_bug_or_cve), (.N7, ev.mass_synchronized_anomalies),
      (.N8, ev.missing_memory_barrier), (.N9, ev.environment_transient), (.N10, ev.single_negative_test)]
  let rules_negative := (negatives.filter Prod.snd).map Prod.fst
  return {
    confidence :=
      if rules_negative ≠ [] then .EXCLUDED
      else if p1 && p2 && p3 && p5 && (p4 || ev.p8_vector_signal || ev.p9_nzcv_anomaly) then .HIGH
      else if p1 && p2 && p5 then .MEDIUM
      else .LOW
    rules_hit := (hits.filter Prod.snd).map Prod.fst
    rules_negative }

/-! ### Rule P4 -/

def firesP4 (texts : List (List Char)) : Bool :=
  (evaluate (evidence_from_logparse texts)).any fun v => decide (PRule.P4 ∈ v.rules_hit)

def Event.relevant (e : Event) : Bool := e.esr.any fun esr => decide (3 ≤ (decode esr).sdc_weight_stars)

def Concentrated (texts : List (List Char)) : Prop := 3 / 5 < (aggregate (signature (logEvents texts))).concentration

theorem hexInt?_esrKey (esr : Nat) : hexInt? (esrKey esr).toList = some esr := by
  have hdigits : (hex esr).toList.all isHexDigit = true := List.all_eq_true.2 fun c hc => isHexDigit_of_mem_hex hc
  have hne : (hex esr).toList ≠ [] := by
    rw [hex, String.toList_ofList]
    exact Nat.toDigits_ne_nil
  have hkey : (esrKey esr).toList = '0' :: 'x' :: (hex esr).toList := by
    simp [esrKey, String.toList_append]
  rw [hexInt?, hkey]
  exact (if_pos ⟨hne, hdigits⟩).trans (congrArg some (ofHex_hex esr))

theorem p4_types_counts (esrs : List Nat) : ∃ types, p4_types (counts (esrs.map esrKey)) = some types ∧
    (types ≠ [] ↔ ∃ esr ∈ esrs, 3 ≤ (decode esr).sdc_weight_stars) := by
  let value : String × Nat → Nat := fun e => (hexInt? e.1.toList).getD 0
  have hkey : ∀ e ∈ counts (esrs.map esrKey), ∃ esr ∈ esrs, e.1 = esrKey esr := by
    intro e he
    obtain ⟨esr, hesr, heq⟩ := List.mem_map.1 (mem_keys_counts.1 (List.mem_map_of_mem he))
    exact ⟨esr, hesr, heq.symm⟩
  have hvalue : ∀ {e : String × Nat} {esr : Nat}, e.1 = esrKey esr → value e = esr := by
    intro e esr h
    simp only [value, h, hexInt?_esrKey, Option.getD_some]
  have hmap : (counts (esrs.map esrKey)).mapM (fun e => (hexInt? e.1.toList).map fun esr : Nat => (e.1, decode esr)) =
      some ((counts (esrs.map esrKey)).map fun e => (e.1, decode (value e))) := by
    refine mapM_eq_some fun e he => ?_
    obtain ⟨esr, -, heq⟩ := hkey e he
    rw [hvalue heq, heq, hexInt?_esrKey, Option.map_some]
  refine ⟨_, by rw [p4_types, hmap]; rfl, ?_⟩
  constructor
  · intro hne
    obtain ⟨key, hmem⟩ := List.exists_mem_of_ne_nil _ hne
    simp only [List.mem_map, List.mem_filter, decide_eq_true_eq] at hmem
    obtain ⟨_, ⟨⟨e, he, rfl⟩, hstars⟩, -⟩ := hmem
    obtain ⟨esr, hesr, heq⟩ := hkey e he
    rw [hvalue heq] at hstars
    exact ⟨esr, hesr, hstars⟩
  · rintro ⟨esr, hesr, hstars⟩
    obtain ⟨e, he, heq⟩ := List.mem_map.1 (mem_keys_counts.2 (List.mem_map_of_mem (f := esrKey) hesr))
    refine List.ne_nil_of_mem (a := e.1) <|
      List.mem_map.2 ⟨(e.1, decode (value e)), List.mem_filter.2 ⟨List.mem_map_of_mem he, ?_⟩, rfl⟩
    rw [hvalue heq]
    exact decide_eq_true hstars

theorem mem_hits {ρ : Type} {hits : List (ρ × Bool)} {r : ρ} :
    r ∈ (hits.filter Prod.snd).map Prod.fst ↔ (r, true) ∈ hits := by
  simp

theorem evaluate_P4 {ev : Evidence} {types : List String} (h : p4_types ev.esr_histogram = some types) :
    ((evaluate ev).any fun v => decide (PRule.P4 ∈ v.rules_hit)) = true ↔ 3 / 5 < ev.concentration ∧ types ≠ [] := by
  unfold evaluate
  rw [h]
  simp only [Option.bind_eq_bind, Option.bind_some, Option.pure_def, Option.any_some, decide_eq_true_eq, mem_hits,
    List.mem_cons, List.not_mem_nil, Prod.mk.injEq, reduceCtorEq, false_and, true_and, false_or, or_false]
  rw [eq_comm, Bool.and_eq_true, decide_eq_true_eq, Bool.not_eq_true', List.isEmpty_eq_false_iff, and_comm]

theorem anomalies_signature (events : List Event) : anomalies (signature events) = signature events := by
  refine List.filter_eq_self.2 fun e he => ?_
  have hkind := (List.mem_filter.1 he).2
  rw [decide_eq_true_eq] at hkind
  rcases hkind with hkind | hkind <;> rw [hkind] <;> rfl

theorem firesP4_iff (texts : List (List Char)) :
    firesP4 texts = true ↔ Concentrated texts ∧ ∃ e ∈ signature (logEvents texts), e.relevant = true := by
  obtain ⟨types, htypes, hiff⟩ := p4_types_counts ((signature (logEvents texts)).filterMap Event.esr)
  have hhist : p4_types (evidence_from_logparse texts).esr_histogram = some types := by
    rw [← htypes]
    unfold evidence_from_logparse aggregate
    dsimp only [id]
    rw [anomalies_signature]
  rw [firesP4, evaluate_P4 hhist, hiff]
  refine and_congr Iff.rfl ⟨?_, ?_⟩
  · rintro ⟨esr, hesr, hstars⟩
    obtain ⟨e, he, heq⟩ := List.mem_filterMap.1 hesr
    exact ⟨e, he, by rw [Event.relevant, heq]; exact decide_eq_true hstars⟩
  · rintro ⟨e, he, hrelevant⟩
    obtain ⟨esr, heq, hstars⟩ := (Option.any_eq_true _ _).1 hrelevant
    exact ⟨esr, List.mem_filterMap.2 ⟨e, he, heq⟩, of_decide_eq_true hstars⟩

def RelevantOnTop (texts : List (List Char)) : Prop :=
  ∃ e ∈ anomalies (logEvents texts), e.cpu.isSome ∧ e.cpu = (evidence_from_logparse texts).top_core ∧ e.relevant = true

instance (texts : List (List Char)) : Decidable (RelevantOnTop texts) := inferInstanceAs (Decidable (∃ _ ∈ _, _))

structure RelevantElsewhere (texts : List (List Char)) : Prop where
  concentrated : Concentrated texts
  relevant : ∃ e ∈ signature (logEvents texts), e.relevant = true
  elsewhere : ¬RelevantOnTop texts

/-- The rule fires if the events are concentrated and any of them is relevant.  So it speaks of the top core, except if the
relevant events are all elsewhere. -/
theorem p4_on_top_core_iff (texts : List (List Char)) :
    (firesP4 texts = true ↔ Concentrated texts ∧ ∃ e ∈ signature (logEvents texts), e.relevant = true) ∧
      ((firesP4 texts = true → RelevantOnTop texts) ↔ ¬RelevantElsewhere texts) := by
  refine ⟨firesP4_iff texts, fun h helse => ?_, fun h hfires => ?_⟩
  · exact helse.elsewhere (h ((firesP4_iff texts).2 ⟨helse.concentrated, helse.relevant⟩))
  · obtain ⟨hconc, hrelevant⟩ := (firesP4_iff texts).1 hfires
    by_contra htop
    exact h ⟨hconc, hrelevant, htop⟩

/-- Three Oopses on core 1 without syndrome, and one on core 2 with a data abort. -/
def otherCoreLog : List Char := "Oops on CPU 1\nOops on CPU 1\nOops on CPU 1\nOops on CPU 2\nESR = 0x96000044\n".toList

/-- The rule fires although no event of the top core has a syndrome. -/
theorem p4_fires_on_other_core : firesP4 [otherCoreLog] = true ∧
    (evidence_from_logparse [otherCoreLog]).top_core = some 1 ∧ ¬RelevantOnTop [otherCoreLog] := by
  decide +kernel

end GemFI.Diag
