import GemFI.Tools.Classify

/-!
# Traps and failures of the simulator

The classifier looks for failures of the simulator before it looks for traps of the workload, in the same text.  Some
texts of traps contain a marker of a failure: `abort` is in `data abort` and in `prefetch abort`, and `SIGSEGV` is
both.  A run with one of these traps is put down as a failure of the simulator; a run with any other trap and no
failure has crashed (`trap_crash_iff`).
-/

namespace GemFI.Tools

def TRAP_TEXTS : List String :=
  ["illegal instruction", "SError", "data abort", "prefetch abort", "Unknown instruction", "SIGILL", "SIGSEGV"]

/-- The part of a text from position `i` on with `n` characters belongs to a trap. -/
def inTrap (text : List Char) (i n : Nat) : Bool :=
  TRAP_TEXTS.any fun t => (List.range (i + 1)).any fun j =>
    t.toList.isPrefixOf (text.drop j) && decide (i + n ≤ j + t.toList.length)

/-- There is a message of a failure of the simulator: a marker that is not a part of a trap. -/
def failureMessage (text : List Char) : Bool :=
  SIMERR_MARKERS.any fun mk => (List.range (text.length + 1)).any fun i =>
    mk.toList.isPrefixOf (text.drop i) && !inTrap text i mk.toList.length

def MARKED_TRAPS : List String := ["data abort", "prefetch abort", "SIGSEGV"]

theorem mem_marked_of_infix : ∀ t ∈ TRAP_TEXTS, ∀ mk ∈ SIMERR_MARKERS, mk.toList <:+: t.toList → t ∈ MARKED_TRAPS := by
  decide +kernel

theorem exists_marker_of_mem : ∀ t ∈ MARKED_TRAPS, ∃ mk ∈ SIMERR_MARKERS, mk.toList <:+: t.toList := by
  decide +kernel

theorem infix_of_covered {text mk t : List Char} {i j : Nat} (hmk : mk <+: text.drop i) (ht : t <+: text.drop j)
    (hji : j ≤ i) (hend : i + mk.length ≤ j + t.length) : mk <:+: t := by
  obtain ⟨r, hr⟩ := ht
  have hdrop : text.drop i = t.drop (i - j) ++ r := by
    have hi : i = j + (i - j) := by omega
    rw [hi, ← List.drop_drop, ← hr, List.drop_append_of_le_length (by omega), Nat.add_sub_cancel_left]
  rw [hdrop] at hmk
  have hprefix : mk <+: t.drop (i - j) := by
    apply List.prefix_of_prefix_length_le hmk (List.prefix_append _ _)
    rw [List.length_drop]
    omega
  exact hprefix.isInfix.trans (List.drop_suffix _ _).isInfix

theorem exists_prefix_drop {l text : List Char} (h : l <:+: text) : ∃ i < text.length + 1, l <+: text.drop i := by
  obtain ⟨a, b, rfl⟩ := h
  refine ⟨a.length, ?_, b, ?_⟩
  · rw [List.length_append, List.length_append]
    omega
  · rw [List.append_assoc, List.drop_left]

theorem is_simerr_iff {stderr : String} (h : failureMessage stderr.toList = false) :
    is_simerr (some stderr) = true ↔ ∃ t ∈ MARKED_TRAPS, occursIn t stderr = true := by
  have hany : is_simerr (some stderr) = true ↔ ∃ mk ∈ SIMERR_MARKERS, mk.toList <:+: stderr.toList := by
    show (if stderr = "" then false else SIMERR_MARKERS.any fun mk => occursIn mk stderr) = true ↔ _
    by_cases hempty : stderr = ""
    · rw [if_pos hempty, hempty]
      decide +kernel
    · rw [if_neg hempty]
      simp only [List.any_eq_true, occursIn, decide_eq_true_eq]
  rw [hany]
  simp only [occursIn, decide_eq_true_eq]
  constructor
  · rintro ⟨mk, hmk, hinfix⟩
    obtain ⟨i, hi, hprefix⟩ := exists_prefix_drop hinfix
    -- the marker is no failure, so it is a part of a trap
    have htrap : inTrap stderr.toList i mk.toList.length = true := by
      by_contra hnot
      rw [← Bool.not_eq_true] at h
      apply h
      simp only [failureMessage, List.any_eq_true, Bool.and_eq_true, List.mem_range, List.isPrefixOf_iff_prefix]
      exact ⟨mk, hmk, i, hi, hprefix, by simpa using hnot⟩
    simp only [inTrap, List.any_eq_true, Bool.and_eq_true, List.mem_range, List.isPrefixOf_iff_prefix,
      decide_eq_true_eq] at htrap
    obtain ⟨t, ht, j, hj, hat, hend⟩ := htrap
    have hcovered := infix_of_covered hprefix hat (by omega) hend
    exact ⟨t, mem_marked_of_infix t ht mk hmk hcovered, hat.isInfix.trans (List.drop_suffix _ _).isInfix⟩
  · rintro ⟨t, ht, hinfix⟩
    obtain ⟨mk, hmk, hsub⟩ := exists_marker_of_mem t ht
    exact ⟨mk, hmk, hsub.trans hinfix⟩

theorem is_arch_trap_of_mem {stderr : String} (stdout : Option String) {t : String} (ht : t ∈ TRAP_TEXTS)
    (h : occursIn t stderr = true) : is_arch_trap (some stderr) stdout = true := by
  have hin : occursIn t (stderr ++ stdout.getD "") = true := by
    rw [occursIn, decide_eq_true_eq] at h ⊢
    rw [String.toList_append]
    exact h.trans (List.prefix_append _ _).isInfix
  show (if stderr ++ stdout.getD "" = "" then false else TRAP_TEXTS.any fun mk => occursIn mk (stderr ++ stdout.getD "")) = true
  rw [if_neg, List.any_eq_true]
  · exact ⟨t, ht, hin⟩
  · intro hempty
    have hnone : ∀ t ∈ TRAP_TEXTS, occursIn t "" = false := by decide +kernel
    rw [hempty, hnone t ht] at hin
    cases hin

/-- A run with a trap in its stderr, without a message of a failure, a checksum or a timeout, is put down as crashed exactly
if none of the traps with a marker in their text occurs. -/
theorem trap_crash_iff (stdout : Option String) (stderr : String) (returncode faults_injected : Int)
    (golden_checksum : String) (htrap : ∃ t ∈ TRAP_TEXTS, occursIn t stderr = true)
    (hfailure : failureMessage stderr.toList = false)
    (hsum : extract_checksum (outputOf stdout (some stderr)) = "") :
    (classify_run stdout (some stderr) returncode faults_injected golden_checksum false).1 = .Crash ↔
      ∀ t ∈ MARKED_TRAPS, occursIn t stderr = false := by
  obtain ⟨t, ht, hoccurs⟩ := htrap
  have hsim := is_simerr_iff hfailure
  by_cases hmarked : ∃ t ∈ MARKED_TRAPS, occursIn t stderr = true
  · rw [classify_run_class, if_pos (hsim.2 hmarked)]
    refine iff_of_false (by decide) fun hnone => ?_
    obtain ⟨t, ht, hin⟩ := hmarked
    rw [hnone t ht] at hin
    cases hin
  · have hfine : is_simerr (some stderr) = false := Bool.eq_false_iff.2 fun h => hmarked (hsim.1 h)
    rw [classify_run_no_checksum stdout (some stderr) returncode faults_injected golden_checksum false hfine hsum
      (.inr (is_arch_trap_of_mem stdout ht hoccurs))]
    refine iff_of_true rfl fun t ht => ?_
    exact Bool.eq_false_iff.2 fun h => hmarked ⟨t, ht, h⟩

/-- A run that ends with an SError has crashed. -/
theorem trap_crash_serror :
    (classify_run none (some "SError") 0 1 "0123456789abcdef" false).1 = .Crash :=
  (trap_crash_iff none "SError" 0 1 "0123456789abcdef" (by decide +kernel) (by decide +kernel) (by decide +kernel)).2
    (by decide +kernel)

/-- A run that ends with a data abort, and with nothing else in its output, is a failure of the simulator. -/
theorem data_abort_not_crash :
    (∃ t ∈ TRAP_TEXTS, occursIn t "data abort" = true) ∧ failureMessage "data abort".toList = false ∧
    extract_checksum (outputOf none (some "data abort")) = "" ∧
    (classify_run none (some "data abort") 1 1 "0123456789abcdef" false).1 = .SimulatorError := by
  decide +kernel

end GemFI.Tools
