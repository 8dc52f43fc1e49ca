import Mathlib.Data.List.Infix

/-!
# The result classifier

`classify_run` puts a run into one of six classes by an ordered sequence of tests on its output, its exit code and the
timeout; `classify_run_pa` is the variant with nine classes that also looks for what the protection model has
reported.

In both a program checksum in the output overrides the exit code, a trap and the timeout: such a run is compared with
the golden checksum as if it had completed (`completed_iff`).  Only the second one looks at the exit code of such a
run, if the fault was contained; so the two agree except on these runs (`refines_iff`).

An output that is `None` is like an empty one.  A checksum is a line of 16 hexadecimal digits.
-/

namespace GemFI.Tools

inductive Category where
  | SimulatorError | Hang | Crash | DetectedContained | Inactive | Corrected | Latent | Masked | SDC
  deriving DecidableEq, Repr

/-! ### Tests on the output -/

def occursIn (mk text : String) : Bool := decide (mk.toList <:+: text.toList)

def isHex (c : Char) : Bool :=
  ('0' ≤ c && c ≤ '9') || ('a' ≤ c && c ≤ 'f') || ('A' ≤ c && c ≤ 'F')

/-- The line matches `^[0-9a-fA-F]{16}$`. -/
def isChecksum (line : List Char) : Bool := line.length = 16 && line.all isHex

/-- The last line that is a checksum, or the empty text. -/
def extract_checksum (text : String) : String :=
  if text = "" then ""
  else (((text.toList.splitOn '\n').filter isChecksum).getLast?.map String.ofList).getD ""

def SIMERR_MARKERS : List String :=
  ["panic", "Assertion", "SIGSEGV", "abort", "fatal: ", "RuntimeError", "std::out_of_range",
    "gem5 has encountered a segmentation fault"]

def is_simerr (stderr : Option String) : Bool :=
  let low := stderr.getD ""
  if low = "" then false else SIMERR_MARKERS.any fun mk => occursIn mk low

def is_arch_trap (stderr stdout : Option String) : Bool :=
  let text := stderr.getD "" ++ stdout.getD ""
  if text = "" then false
  else ["illegal instruction", "SError", "data abort", "prefetch abort", "Unknown instruction", "SIGILL", "SIGSEGV"].any
    fun mk => occursIn mk text

def trap_reason (stderr stdout : Option String) : String :=
  let text := stderr.getD "" ++ stdout.getD ""
  match ["illegal instruction", "SError", "data abort", "prefetch abort", "Unknown instruction", "SIGILL", "SIGSEGV",
      "SIGABRT"].find? fun mk => occursIn mk text with
  | some mk => "trap:" ++ mk
  | none => ""

def outputOf (stdout stderr : Option String) : String := stdout.getD "" ++ "\n" ++ stderr.getD ""

/-! ### Six classes -/

def commaTrap (stderr stdout : Option String) : String :=
  let trap := trap_reason stderr stdout
  if trap ≠ "" then ", " ++ trap else ""

def classify_run (stdout stderr : Option String) (returncode faults_injected : Int) (golden_checksum : String)
    (timed_out : Bool) : Category × String :=
  let out_checksum := extract_checksum (outputOf stdout stderr)
  if is_simerr stderr then
    (.SimulatorError, "gem5 panic/assert/SIGSEGV in stderr (tool failure, not a fault outcome) — run invalid")
  else if timed_out ∧ out_checksum = "" then
    (.Hang, "exceeded Hang timeout with no program checksum (control-flow corruption: never completed)")
  else if (returncode ≠ 0 ∨ is_arch_trap stderr stdout) ∧ out_checksum = "" then
    (.Crash, "workload trapped/crashed (exit=" ++ toString returncode ++ commaTrap stderr stdout ++ ") — DUE")
  else if faults_injected = 0 then
    (.Inactive, "0 valid injections (target absent/invalid at trigger, or XZR discard)")
  else if out_checksum = "" then
    (.SimulatorError, "no program checksum, exit=" ++ toString returncode ++
      ", not timed out, no trap marker — ambiguous tool state, run invalid")
  else if out_checksum = golden_checksum then
    (.Masked, "completed exit=" ++ toString returncode ++ ", checksum==golden (" ++ out_checksum ++
      ") — fault did not propagate")
  else
    (.SDC, "completed exit=" ++ toString returncode ++ ", checksum " ++ out_checksum ++ " != golden " ++
      golden_checksum ++ " — silent data corruption")

/-! ### Nine classes -/

def PA_MARKERS : List (Category × List String) :=
  [(.Corrected, ["EccCorrected", "Corrected:", "ECC-corrected"]),
    (.DetectedContained, ["Poisoned:", "DetectedContained:", "poisoned"]),
    (.Latent, ["Latent:", ">=3-bit", "beyond-SECDED"])]

def parse_pa_outcome (out_text : String) : Option Category :=
  if out_text = "" then none
  else (PA_MARKERS.find? fun e => e.2.any fun m => occursIn m out_text).map (·.1)

def classify_run_pa (stdout stderr : Option String) (returncode faults_injected : Int) (golden_checksum : String)
    (timed_out : Bool) : Category × String :=
  let out := outputOf stdout stderr
  let out_checksum := extract_checksum out
  let pa := parse_pa_outcome out
  if is_simerr stderr then
    (.SimulatorError, "gem5 panic/assert/SIGSEGV (tool failure) — run invalid")
  else if timed_out ∧ out_checksum = "" then
    (.Hang, "exceeded Hang timeout, no checksum (control-flow corruption: never completed)")
  else if (returncode ≠ 0 ∨ is_arch_trap stderr stdout) ∧ pa = some .DetectedContained then
    (.DetectedContained, "ECC detected+contained (poisoned, no escape) " ++ commaTrap stderr stdout ++
      " — contained DUE")
  else if (returncode ≠ 0 ∨ is_arch_trap stderr stdout) ∧ out_checksum = "" then
    (.Crash, "workload trapped/crashed (exit=" ++ toString returncode ++ commaTrap stderr stdout ++ ") — DUE")
  else if faults_injected = 0 then
    (.Inactive, "0 valid injections (target absent/invalid)")
  else if out_checksum = "" then
    (.SimulatorError, "no checksum, exit=" ++ toString returncode ++ ", no trap — ambiguous, invalid")
  else if out_checksum = golden_checksum then
    if pa = some .Corrected then
      (.Corrected, "ECC corrected single-bit -> checksum==golden (" ++ out_checksum ++ ") — protection worked")
    else if pa = some .Latent then
      (.Latent, ">=3-bit beyond SECDED, undetected but not consumed -> checksum==golden (" ++ out_checksum ++
        ") — latent, not SDC")
    else
      (.Masked, "completed checksum==golden (" ++ out_checksum ++ ") — fault did not propagate")
  else
    (.SDC, "completed checksum " ++ out_checksum ++ " != golden " ++ golden_checksum ++ " — silent data corruption")

/-! ### Completed runs -/

def Category.completed (c : Category) : Prop := c = .Masked ∨ c = .SDC

section

variable (stdout stderr : Option String) (returncode faults_injected : Int) (golden_checksum : String) (timed_out : Bool)

theorem classify_run_class :
    (classify_run stdout stderr returncode faults_injected golden_checksum timed_out).1 =
      if is_simerr stderr then .SimulatorError
      else if timed_out ∧ extract_checksum (outputOf stdout stderr) = "" then .Hang
      else if (returncode ≠ 0 ∨ is_arch_trap stderr stdout) ∧ extract_checksum (outputOf stdout stderr) = "" then .Crash
      else if faults_injected = 0 then .Inactive
      else if extract_checksum (outputOf stdout stderr) = "" then .SimulatorError
      else if extract_checksum (outputOf stdout stderr) = golden_checksum then .Masked
      else .SDC := by
  unfold classify_run
  simp only [apply_ite Prod.fst]

theorem classify_run_completed_iff :
    (classify_run stdout stderr returncode faults_injected golden_checksum timed_out).1.completed ↔
      is_simerr stderr = false ∧ extract_checksum (outputOf stdout stderr) ≠ "" ∧ faults_injected ≠ 0 := by
  unfold Category.completed
  rw [classify_run_class]
  by_cases hsim : is_simerr stderr = true
  · simp [hsim]
  · by_cases hsum : extract_checksum (outputOf stdout stderr) = ""
    · -- all tests that are left end in a class of runs that are not completed
      rw [if_neg hsim]
      simp only [hsum, and_true, if_true]
      split
      · simp
      · split
        · simp
        · split <;> simp
    · by_cases hfaults : faults_injected = 0
      · simp [hsim, hsum, hfaults]
      · rw [if_neg hsim, if_neg fun h => hsum h.2, if_neg fun h => hsum h.2, if_neg hfaults, if_neg hsum]
        simp only [Bool.not_eq_true] at hsim
        split <;> simp [hsim, hsum, hfaults]

theorem classify_run_no_checksum (hsim : is_simerr stderr = false)
    (hsum : extract_checksum (outputOf stdout stderr) = "") (hcrash : returncode ≠ 0 ∨ is_arch_trap stderr stdout = true) :
    (classify_run stdout stderr returncode faults_injected golden_checksum timed_out).1 =
      if timed_out then .Hang else .Crash := by
  rw [classify_run_class]
  cases timed_out <;> simp [hsim, hsum, hcrash]

/-- A run that is put down as Masked or SDC has completed without an error, and one with an injection and a non-zero
exit code has crashed or hangs: this holds exactly if no run with an injection that ended with an error, reported a trap
or timed out has printed a checksum. -/
theorem completed_iff :
    (((classify_run stdout stderr returncode faults_injected golden_checksum timed_out).1.completed →
        returncode = 0 ∧ timed_out = false ∧ is_arch_trap stderr stdout = false ∧
          extract_checksum (outputOf stdout stderr) ≠ "") ∧
      (1 ≤ faults_injected → returncode ≠ 0 → is_simerr stderr = false →
        (classify_run stdout stderr returncode faults_injected golden_checksum timed_out).1 = .Crash ∨
        (classify_run stdout stderr returncode faults_injected golden_checksum timed_out).1 = .Hang)) ↔
    ¬(is_simerr stderr = false ∧ extract_checksum (outputOf stdout stderr) ≠ "" ∧ faults_injected ≠ 0 ∧
      (returncode ≠ 0 ∨ timed_out = true ∨ is_arch_trap stderr stdout = true)) := by
  have hiff := classify_run_completed_iff stdout stderr returncode faults_injected golden_checksum timed_out
  constructor
  · rintro ⟨hnormal, -⟩ ⟨hsim, hsum, hfaults, hbad⟩
    obtain ⟨hcode, htime, htrap, -⟩ := hnormal (hiff.2 ⟨hsim, hsum, hfaults⟩)
    rcases hbad with hbad | hbad | hbad
    · exact hbad hcode
    · rw [htime] at hbad
      cases hbad
    · rw [htrap] at hbad
      cases hbad
  · intro hnot
    constructor
    · intro hcompleted
      obtain ⟨hsim, hsum, hfaults⟩ := hiff.1 hcompleted
      have hfine : ¬(returncode ≠ 0 ∨ timed_out = true ∨ is_arch_trap stderr stdout = true) :=
        fun hbad => hnot ⟨hsim, hsum, hfaults, hbad⟩
      simp only [not_or, not_not, Bool.not_eq_true] at hfine
      exact ⟨hfine.1, hfine.2.1, hfine.2.2, hsum⟩
    · intro hfaults hcode hsim
      by_cases hsum : extract_checksum (outputOf stdout stderr) = ""
      · rw [classify_run_no_checksum stdout stderr _ _ _ _ hsim hsum (.inl hcode)]
        cases timed_out <;> simp
      · exact absurd ⟨hsim, hsum, by omega, .inl hcode⟩ hnot

end

/-- A run that ends with an error after it has printed the golden checksum is Masked; one that hangs after a wrong
checksum is SDC, and so is one that has reported a trap. -/
theorem crashed_run_masked :
    (classify_run (some "0123456789abcdef\n") (some "") 139 1 "0123456789abcdef" false).1 = .Masked ∧
    (classify_run (some "0123456789abcdee\n") (some "") (-9) 1 "0123456789abcdef" true).1 = .SDC ∧
    (classify_run (some "0123456789abcdee\n") (some "SError") 0 1 "0123456789abcdef" false).1 = .SDC := by
  decide +kernel

/-! ### The two classifiers -/

def Category.sixClass : Category → Category
  | .Corrected | .Latent => .Masked
  | .DetectedContained => .Crash
  | c => c

section

variable (stdout stderr : Option String) (returncode faults_injected : Int) (golden_checksum : String) (timed_out : Bool)

theorem classify_run_pa_class :
    (classify_run_pa stdout stderr returncode faults_injected golden_checksum timed_out).1 =
      if is_simerr stderr then .SimulatorError
      else if timed_out ∧ extract_checksum (outputOf stdout stderr) = "" then .Hang
      else if (returncode ≠ 0 ∨ is_arch_trap stderr stdout) ∧
          parse_pa_outcome (outputOf stdout stderr) = some .DetectedContained then .DetectedContained
      else if (returncode ≠ 0 ∨ is_arch_trap stderr stdout) ∧ extract_checksum (outputOf stdout stderr) = "" then .Crash
      else if faults_injected = 0 then .Inactive
      else if extract_checksum (outputOf stdout stderr) = "" then .SimulatorError
      else if extract_checksum (outputOf stdout stderr) = golden_checksum then
        if parse_pa_outcome (outputOf stdout stderr) = some .Corrected then .Corrected
        else if parse_pa_outcome (outputOf stdout stderr) = some .Latent then .Latent
        else .Masked
      else .SDC := by
  unfold classify_run_pa
  simp only [apply_ite Prod.fst]

theorem sixClass_of_not_contained
    (h : ¬((returncode ≠ 0 ∨ is_arch_trap stderr stdout = true) ∧
      parse_pa_outcome (outputOf stdout stderr) = some .DetectedContained)) :
    (classify_run_pa stdout stderr returncode faults_injected golden_checksum timed_out).1.sixClass =
      (classify_run stdout stderr returncode faults_injected golden_checksum timed_out).1 := by
  rw [classify_run_pa_class, classify_run_class, if_neg h]
  simp only [apply_ite Category.sixClass]
  simp only [Category.sixClass, ite_self]

theorem contained_of_crashed (hsim : is_simerr stderr = false)
    (htime : ¬(timed_out = true ∧ extract_checksum (outputOf stdout stderr) = ""))
    (h : (returncode ≠ 0 ∨ is_arch_trap stderr stdout = true) ∧
      parse_pa_outcome (outputOf stdout stderr) = some .DetectedContained) :
    (classify_run_pa stdout stderr returncode faults_injected golden_checksum timed_out).1 = .DetectedContained := by
  rw [classify_run_pa_class, if_neg (by simp [hsim]), if_neg htime, if_pos h]

/-- The classifiers agree, and what is SDC for one is not contained, corrected or latent for the other, exactly if the run
is not one with a checksum that ended with an error and has a contained fault. -/
theorem refines_iff :
    ((classify_run_pa stdout stderr returncode faults_injected golden_checksum timed_out).1.sixClass =
        (classify_run stdout stderr returncode faults_injected golden_checksum timed_out).1 ∧
      ((classify_run stdout stderr returncode faults_injected golden_checksum timed_out).1 = .SDC →
        (classify_run_pa stdout stderr returncode faults_injected golden_checksum timed_out).1 ∉
          [Category.DetectedContained, .Corrected, .Latent])) ↔
    ¬(is_simerr stderr = false ∧ extract_checksum (outputOf stdout stderr) ≠ "" ∧
      (returncode ≠ 0 ∨ is_arch_trap stderr stdout = true) ∧
      parse_pa_outcome (outputOf stdout stderr) = some .DetectedContained) := by
  constructor
  · rintro ⟨hagree, -⟩ ⟨hsim, hsum, hcontained⟩
    have hpa := contained_of_crashed stdout stderr returncode faults_injected golden_checksum timed_out hsim
      (fun h => hsum h.2) hcontained
    rw [hpa] at hagree
    by_cases hfaults : faults_injected = 0
    · rw [classify_run_class] at hagree
      simp [hsim, hsum, hfaults, Category.sixClass] at hagree
    · have hcompleted := (classify_run_completed_iff stdout stderr returncode faults_injected golden_checksum
        timed_out).2 ⟨hsim, hsum, hfaults⟩
      rw [← hagree] at hcompleted
      simp [Category.sixClass, Category.completed] at hcompleted
  · intro hnot
    have hagree : (classify_run_pa stdout stderr returncode faults_injected golden_checksum timed_out).1.sixClass =
        (classify_run stdout stderr returncode faults_injected golden_checksum timed_out).1 := by
      by_cases hcontained : (returncode ≠ 0 ∨ is_arch_trap stderr stdout = true) ∧
          parse_pa_outcome (outputOf stdout stderr) = some .DetectedContained
      · by_cases hsim : is_simerr stderr = true
        · rw [classify_run_pa_class, classify_run_class, if_pos hsim, if_pos hsim]
          rfl
        · -- then there is no checksum, and the run hangs or has crashed
          rw [Bool.not_eq_true] at hsim
          have hsum : extract_checksum (outputOf stdout stderr) = "" :=
            not_not.1 fun hsum => hnot ⟨hsim, hsum, hcontained⟩
          rw [classify_run_no_checksum stdout stderr _ _ _ _ hsim hsum hcontained.1]
          cases htime : timed_out with
          | true =>
            rw [classify_run_pa_class, if_neg (by simp [hsim]), if_pos ⟨rfl, hsum⟩]
            rfl
          | false =>
            rw [contained_of_crashed stdout stderr _ _ _ _ hsim (by simp) hcontained]
            rfl
      · exact sixClass_of_not_contained stdout stderr _ _ _ _ hcontained
    refine ⟨hagree, fun hsdc hmem => ?_⟩
    rw [hsdc] at hagree
    simp only [List.mem_cons, List.not_mem_nil, or_false] at hmem
    rcases hmem with hmem | hmem | hmem <;>
    · rw [hmem] at hagree
      cases hagree

end

/-- A run with a poisoned line that ends with an error after a wrong checksum is SDC for one classifier and contained for
the other. -/
theorem sdc_reported_contained :
    (classify_run (some "0123456789abcdee\n") (some "poisoned") 1 1 "0123456789abcdef" false).1 = .SDC ∧
    (classify_run_pa (some "0123456789abcdee\n") (some "poisoned") 1 1 "0123456789abcdef" false).1 =
      .DetectedContained := by
  decide +kernel

end GemFI.Tools
