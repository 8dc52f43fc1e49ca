import GemFI.Lib.Text
import GemFI.Tools.Classify

/-!
# The fail-count oracle

Some kernels print the number of mismatches they have found as `fails=N` and no checksum.  For these the runner has
its own sequence of tests in place of `classify_run`.  It does not look at the exit code or for a trap, and at the
timeout only if there is no output at all; what is left without a count is put down as Masked.
`fail_count_agrees_iff` says for which runs the class is the one that the order of `classify_run` gives.

Digits are those of ASCII.  The counts are the matches of `fails\s*=\s*(\d+)`, and no match begins inside another one.
-/

namespace GemFI.Tools

open Text

/-- The number of a match of `fails\s*=\s*(\d+)` at the beginning of a text. -/
def failsAt (t : List Char) : Option Nat :=
  if "fails".toList.isPrefixOf t then
    match (t.drop 5).dropWhile isSpace with
    | '=' :: rest =>
      let digits := (rest.dropWhile isSpace).takeWhile Char.isDigit
      if digits = [] then none else some (Nat.ofDigitChars 10 digits 0)
    | _ => none
  else none

def failCounts (text : String) : List Nat := text.toList.tails.filterMap failsAt

/-- The last count, or -1. -/
def extract_fail_count (text : String) : Int :=
  if text = "" then -1
  else
    match (failCounts text).getLast? with
    | some n => n
    | none => -1

theorem extract_fail_count_of_nil {text : String} (h : failCounts text = []) : extract_fail_count text = -1 := by
  simp [extract_fail_count, h]

theorem extract_fail_count_of_getLast {text : String} {n : Nat} (h : (failCounts text).getLast? = some n) :
    extract_fail_count text = n := by
  have hne : text ≠ "" := by
    rintro rfl
    have hnone : (failCounts "").getLast? = none := by decide +kernel
    rw [hnone] at h
    cases h
  simp [extract_fail_count, h, hne]

/-- The class of a run whose oracle is of the kind `fail_count`. -/
def classify_fail_count (stdout stderr : Option String) (faults : Int) (timed_out : Bool) : Category × String :=
  if is_simerr stderr then (.SimulatorError, "gem5 panic/assert (tool failure)")
  else if timed_out ∧ stdout.getD "" = "" then (.Hang, "timeout, no output")
  else if faults = 0 then (.Inactive, "0 valid injections")
  else
    let fails := extract_fail_count (outputOf stdout stderr)
    if fails < 0 then (.Masked, "fail_count oracle: no fails= line found")
    else if 0 < fails then (.SDC, "fail_count oracle: fails=" ++ toString fails ++ " > 0")
    else (.Masked, "fail_count oracle: fails=0 (no mismatch)")

/-- The order of `classify_run`, with a count in place of the checksum: only a run that has finished is compared. -/
def orderedClass (stdout stderr : Option String) (returncode faults : Int) (timed_out : Bool) : Category :=
  if is_simerr stderr then .SimulatorError
  else if timed_out then .Hang
  else if returncode ≠ 0 ∨ is_arch_trap stderr stdout then .Crash
  else if faults = 0 then .Inactive
  else
    match (failCounts (outputOf stdout stderr)).getLast? with
    | none => .SimulatorError
    | some 0 => .Masked
    | some _ => .SDC

section

variable (stdout stderr : Option String) (returncode faults : Int) (timed_out : Bool)

theorem classify_fail_count_class :
    (classify_fail_count stdout stderr faults timed_out).1 =
      if is_simerr stderr then .SimulatorError
      else if timed_out ∧ stdout.getD "" = "" then .Hang
      else if faults = 0 then .Inactive
      else
        match (failCounts (outputOf stdout stderr)).getLast? with
        | none => .Masked
        | some 0 => .Masked
        | some _ => .SDC := by
  unfold classify_fail_count
  simp only [apply_ite Prod.fst]
  congr 3
  cases hlast : (failCounts (outputOf stdout stderr)).getLast? with
  | none =>
    have hminus := extract_fail_count_of_nil (List.getLast?_eq_none_iff.1 hlast)
    simp [hminus]
  | some n =>
    rw [extract_fail_count_of_getLast hlast, if_neg (by omega)]
    cases n with
    | zero => rfl
    | succ n =>
      rw [if_pos (by omega)]
      rfl

theorem classify_fail_count_rest (hsim : ¬is_simerr stderr = true) (hout : ¬(timed_out = true ∧ stdout.getD "" = "")) :
    (classify_fail_count stdout stderr faults timed_out).1 ∈ [Category.Inactive, .Masked, .SDC] := by
  rw [classify_fail_count_class, if_neg hsim, if_neg hout]
  split
  · simp
  · split <;> simp

/-- The runs that are put into the right class: those in which the simulator has failed, those that time out without any
output, and those that finish without an error and have no injection or print a count. -/
def RightlyClassed : Prop :=
  is_simerr stderr = true ∨ (timed_out = true ∧ stdout.getD "" = "") ∨
    (timed_out = false ∧ returncode = 0 ∧ is_arch_trap stderr stdout = false ∧
      (faults = 0 ∨ failCounts (outputOf stdout stderr) ≠ []))

theorem classify_fail_count_eq_iff :
    (classify_fail_count stdout stderr faults timed_out).1 = orderedClass stdout stderr returncode faults timed_out ↔
      RightlyClassed stdout stderr returncode faults timed_out := by
  unfold orderedClass RightlyClassed
  by_cases hsim : is_simerr stderr = true
  · rw [classify_fail_count_class]
    simp [hsim]
  · by_cases hout : timed_out = true ∧ stdout.getD "" = ""
    · rw [classify_fail_count_class, if_neg hsim, if_neg hsim, if_pos hout, if_pos hout.1]
      simp [hout]
    · have hrest := classify_fail_count_rest stdout stderr faults timed_out hsim hout
      rw [if_neg hsim]
      by_cases htime : timed_out = true
      · -- a timeout with some output is not put down as such
        rw [if_pos htime]
        constructor
        · intro heq
          rw [heq] at hrest
          simp at hrest
        · rintro (h | h | ⟨h, -⟩)
          · exact absurd h hsim
          · exact absurd h hout
          · rw [htime] at h
            cases h
      · rw [if_neg htime]
        by_cases hcrash : returncode ≠ 0 ∨ is_arch_trap stderr stdout = true
        · rw [if_pos hcrash]
          constructor
          · intro heq
            rw [heq] at hrest
            simp at hrest
          · rintro (h | h | ⟨-, hcode, htrap, -⟩)
            · exact absurd h hsim
            · exact absurd h hout
            · rw [htrap] at hcrash
              exact absurd hcrash (by simp [hcode])
        · rw [if_neg hcrash, classify_fail_count_class, if_neg hsim, if_neg hout]
          rw [not_or, not_not, Bool.not_eq_true] at hcrash
          rw [Bool.not_eq_true] at htime hsim
          by_cases hfaults : faults = 0
          · simp [hfaults, hcrash, htime]
          · rw [if_neg hfaults, if_neg hfaults]
            cases hlast : (failCounts (outputOf stdout stderr)).getLast? with
            | none =>
              have hnil := List.getLast?_eq_none_iff.1 hlast
              simp [hsim, htime, hfaults, hnil]
            | some n =>
              have hne : failCounts (outputOf stdout stderr) ≠ [] := by
                intro hnil
                rw [hnil] at hlast
                cases hlast
              cases n <;> simp [hcrash, htime, hne]

theorem orderedClass_masked (h : orderedClass stdout stderr returncode faults timed_out = .Masked) :
    timed_out = false ∧ returncode = 0 ∧ failCounts (outputOf stdout stderr) ≠ [] := by
  unfold orderedClass at h
  split at h
  · cases h
  · split at h
    · cases h
    · rename_i htime
      split at h
      · cases h
      · rename_i hcrash
        rw [not_or, not_not] at hcrash
        split at h
        · cases h
        · refine ⟨by simpa using htime, hcrash.1, fun hnil => ?_⟩
          rw [hnil] at h
          cases h

/-- Only runs that have finished are Masked, and the classes follow the order of `classify_run`, just if the run is one of
those that are put into the right class. -/
theorem fail_count_agrees_iff :
    (((classify_fail_count stdout stderr faults timed_out).1 = .Masked →
        timed_out = false ∧ returncode = 0 ∧ failCounts (outputOf stdout stderr) ≠ []) ∧
      (classify_fail_count stdout stderr faults timed_out).1 =
        orderedClass stdout stderr returncode faults timed_out) ↔
    RightlyClassed stdout stderr returncode faults timed_out := by
  rw [← classify_fail_count_eq_iff]
  constructor
  · exact fun h => h.2
  · intro heq
    refine ⟨fun hmasked => ?_, heq⟩
    rw [heq] at hmasked
    exact orderedClass_masked stdout stderr returncode faults timed_out hmasked

end

/-- Three runs with an injection that have not finished and are Masked: one that timed out in the middle of its output,
one that ended with an error, and one that printed no count. -/
theorem fail_count_masked :
    (classify_fail_count (some "iters=100") none 1 true).1 = .Masked ∧
    orderedClass (some "iters=100") none (-9) 1 true = .Hang ∧
    (classify_fail_count (some "iters=200 fails=0") none 1 false).1 = .Masked ∧
    orderedClass (some "iters=200 fails=0") none 139 1 false = .Crash ∧
    (classify_fail_count (some "done") none 1 false).1 = .Masked ∧
    orderedClass (some "done") none 0 1 false = .SimulatorError := by
  decide +kernel

end GemFI.Tools
