import GemFI.Lib.Text
import GemFI.Tools.Classify

/-!
# The result line between the runner and the campaign

The runner prints one line with its result, and `run_one` of the campaign reads it back from the output, token by
token.  The runner calls the number of faults `faults_injected` and the campaign looks for `faults`; so the number is
lost, and everything else is recovered (`run_one_result`).  The run of the process is left out.
-/

namespace GemFI.Tools

open Text

def Category.name : Category → String
  | .SimulatorError => "SimulatorError"
  | .Hang => "Hang"
  | .Crash => "Crash"
  | .DetectedContained => "DetectedContained"
  | .Inactive => "Inactive"
  | .Corrected => "Corrected"
  | .Latent => "Latent"
  | .Masked => "Masked"
  | .SDC => "SDC"

/-- A result of the runner, with the count of the read trace if there is one.  The name of the run is one word, as the names
are that the campaign makes up. -/
structure RunnerResult where
  run_id : String
  run_id_word : ∀ c ∈ run_id.toList, isSpace c = false
  cls : Category
  faults : Int
  returncode : Int
  timed_out : Bool
  reads_before_overwrite : Option Nat

def RunnerResult.tokens (r : RunnerResult) : List String :=
  ["[runner]", "RESULT:", "run_id=" ++ r.run_id, "classification=" ++ r.cls.name,
      "faults_injected=" ++ toString r.faults, "exit=" ++ toString r.returncode,
      "timed_out=" ++ if r.timed_out then "True" else "False"] ++
    (r.reads_before_overwrite.map fun n => "reads_before_overwrite=" ++ toString n).toList

def RunnerResult.line (r : RunnerResult) : String := " ".intercalate r.tokens

/-! ### Reading the line -/

structure RunOne where
  cls : String := "Unknown"
  faults : Int := 0
  timed_out : Bool := false
  reads : Int := -1
  deriving DecidableEq, Repr

def valueOf (tok : List Char) : List Char := (tok.dropWhile (· != '=')).drop 1

def readToken (r : RunOne) (tok : List Char) : RunOne :=
  if "classification=".toList.isPrefixOf tok then { r with cls := String.ofList (valueOf tok) }
  else if "faults=".toList.isPrefixOf tok then { r with faults := (int? (valueOf tok)).getD r.faults }
  else if "timed_out=".toList.isPrefixOf tok then { r with timed_out := decide (valueOf tok = "True".toList) }
  else if "reads_before_overwrite=".toList.isPrefixOf tok then { r with reads := (int? (valueOf tok)).getD r.reads }
  else r

def isResult (line : List Char) : Bool := decide ("[runner] RESULT:".toList <:+: line)

def readLine (r : RunOne) (line : List Char) : RunOne := if isResult line then (words line).foldl readToken r else r

def readOutput (out : List Char) : RunOne := (splitlines out).foldl readLine {}

def run_one (stdout stderr : String) : RunOne := readOutput (stdout ++ "\n" ++ stderr).toList

/-- The class with the reads taken into account; empty without a read trace. -/
def RunOne.rt4 (r : RunOne) : String :=
  if r.reads < 0 then ""
  else if r.reads = 0 then "Benign"
  else if r.cls ∈ ["SDC", "Crash", "Hang", "SimulatorError"] then r.cls
  else if r.cls ∈ ["Masked", "Latent"] then "Masked"
  else r.cls

/-! ### The round trip -/

/-- The output of a run of the runner: the lines that it prints before and after the result, none of which looks like a
result, and the errors. -/
structure RunnerOutput where
  before : List String
  after : List String
  stderr : String
  line : ∀ l ∈ before ++ after, ∀ c ∈ l.toList, isLineBreak c = false
  no_result : ∀ l ∈ before ++ after, isResult l.toList = false
  stderr_no_result : ∀ l ∈ splitlines stderr.toList, isResult l = false

def RunnerOutput.stdout (o : RunnerOutput) (r : RunnerResult) : String :=
  String.ofList (unlines ((o.before ++ r.line :: o.after).map String.toList))

theorem foldl_readLine {lines : List (List Char)} (h : ∀ l ∈ lines, isResult l = false) (r : RunOne) :
    lines.foldl readLine r = r := by
  induction lines generalizing r with
  | nil => rfl
  | cons l lines ih =>
    rw [List.foldl_cons, readLine, h l List.mem_cons_self, if_neg Bool.false_ne_true,
      ih (fun l hl => h l (List.mem_cons_of_mem _ hl))]

def keys : List (List Char) :=
  ["classification=", "faults=", "timed_out=", "reads_before_overwrite="].map String.toList

theorem isPrefixOf_append_eq_false {key pre : List Char} (h : ¬key <+: pre ∧ ¬pre <+: key) (t : List Char) :
    key.isPrefixOf (pre ++ t) = false := by
  rw [Bool.eq_false_iff, ne_eq, List.isPrefixOf_iff_prefix]
  intro hkey
  rcases List.prefix_or_prefix_of_prefix hkey (List.prefix_append pre t) with hpre | hpre
  · exact h.1 hpre
  · exact h.2 hpre

theorem isPrefixOf_append_self (pre t : List Char) : pre.isPrefixOf (pre ++ t) = true :=
  List.isPrefixOf_iff_prefix.2 (List.prefix_append pre t)

theorem valueOf_append {name : List Char} (h : '=' ∉ name) (t : List Char) : valueOf (name ++ '=' :: t) = t := by
  have hdrop : (name ++ '=' :: t).dropWhile (· != '=') = '=' :: t := by
    rw [List.dropWhile_append_of_pos]
    · rfl
    · intro c hc
      rw [bne_iff_ne]
      rintro rfl
      exact h hc
  rw [valueOf, hdrop, List.drop_one, List.tail_cons]

theorem readToken_other {pre : List Char} (h : ∀ key ∈ keys, ¬key <+: pre ∧ ¬pre <+: key) (t : List Char) (r : RunOne) :
    readToken r (pre ++ t) = r := by
  have hkey : ∀ key ∈ keys, key.isPrefixOf (pre ++ t) = false :=
    fun key hmem => isPrefixOf_append_eq_false (h key hmem) t
  simp only [keys, List.map_cons, List.map_nil, List.forall_mem_cons, List.not_mem_nil, false_implies, implies_true,
    and_true] at hkey
  obtain ⟨hcls, hfaults, htime, hreads⟩ := hkey
  simp only [readToken, hcls, hfaults, htime, hreads, Bool.false_eq_true, ↓reduceIte]

theorem keys_table : ∀ key ∈ keys, (key = key.dropLast ++ ['='] ∧ '=' ∉ key.dropLast) ∧
    ∀ other ∈ keys, other ≠ key → ¬other <+: key ∧ ¬key <+: other := by
  decide +kernel

theorem valueOf_key {key : List Char} (hkey : key ∈ keys) (t : List Char) : valueOf (key ++ t) = t := by
  obtain ⟨hname, heq⟩ := (keys_table key hkey).1
  rw [hname, List.append_assoc, List.singleton_append, valueOf_append heq]

theorem isPrefixOf_key {key other : List Char} (hkey : key ∈ keys) (hother : other ∈ keys) (hne : other ≠ key)
    (t : List Char) : other.isPrefixOf (key ++ t) = false :=
  isPrefixOf_append_eq_false ((keys_table key hkey).2 other hother hne) t

theorem readToken_classification (t : List Char) (r : RunOne) :
    readToken r ("classification=".toList ++ t) = { r with cls := String.ofList t } := by
  rw [readToken, if_pos (isPrefixOf_append_self _ _), valueOf_key (by simp [keys])]

theorem readToken_timed_out (t : List Char) (r : RunOne) :
    readToken r ("timed_out=".toList ++ t) = { r with timed_out := decide (t = "True".toList) } := by
  have hkey : ∀ other ∈ ["classification=".toList, "faults=".toList],
      other.isPrefixOf ("timed_out=".toList ++ t) = false := by
    intro other hother
    refine isPrefixOf_key (by simp [keys]) ?_ ?_ t <;> revert other <;> simp [keys]
  rw [readToken, hkey _ List.mem_cons_self, if_neg Bool.false_ne_true, hkey "faults=".toList (by simp),
    if_neg Bool.false_ne_true, if_pos (isPrefixOf_append_self _ _), valueOf_key (by simp [keys])]

theorem readToken_reads (n : Nat) (r : RunOne) :
    readToken r ("reads_before_overwrite=" ++ toString n).toList = { r with reads := n } := by
  have hkey : ∀ other ∈ ["classification=".toList, "faults=".toList, "timed_out=".toList],
      other.isPrefixOf ("reads_before_overwrite=".toList ++ (toString n).toList) = false := by
    intro other hother
    refine isPrefixOf_key (by simp [keys]) ?_ ?_ _ <;> revert other <;> simp [keys]
  have hnumber : int? (toString n).toList = some (n : Int) := int?_toString n
  rw [String.toList_append, readToken, hkey _ List.mem_cons_self, if_neg Bool.false_ne_true,
    hkey "faults=".toList (by simp), if_neg Bool.false_ne_true, hkey "timed_out=".toList (by simp),
    if_neg Bool.false_ne_true, if_pos (isPrefixOf_append_self _ _), valueOf_key (by simp [keys]), hnumber,
    Option.getD_some]

theorem word_append {pre t : String} (hpre : pre.toList ≠ [] ∧ ∀ c ∈ pre.toList, isSpace c = false)
    (ht : ∀ c ∈ t.toList, isSpace c = false) :
    (pre ++ t).toList ≠ [] ∧ ∀ c ∈ (pre ++ t).toList, isSpace c = false := by
  rw [String.toList_append]
  exact ⟨List.append_ne_nil_of_left_ne_nil hpre.1 _, List.forall_mem_append.2 ⟨hpre.2, ht⟩⟩

theorem isSpace_of_mem_toString {i : Int} {c : Char} (h : c ∈ (toString i).toList) : isSpace c = false := by
  have hchar := mem_toString_int h
  rw [Bool.or_eq_true] at hchar
  rcases hchar with hdigit | hminus
  · exact isSpace_of_isDigit hdigit
  · rw [eq_of_beq hminus]
    decide

theorem no_space {t : List Char} (h : (t.all fun c => !isSpace c) = true) : ∀ c ∈ t, isSpace c = false := by
  simpa using h

theorem tokens_table : (∀ t ∈ ["[runner]", "RESULT:", "run_id=", "classification=", "faults_injected=", "exit=", "timed_out=",
      "reads_before_overwrite="], t.toList ≠ [] ∧ (t.toList.all fun c => !isSpace c) = true) ∧
    ∀ pre ∈ ["[runner]", "RESULT:", "run_id=", "faults_injected=", "exit="], ∀ key ∈ keys,
      ¬key <+: pre.toList ∧ ¬pre.toList <+: key := by
  decide +kernel

variable (r : RunnerResult)

theorem tokens_word : ∀ w ∈ r.tokens.map String.toList, w ≠ [] ∧ ∀ c ∈ w, isSpace c = false := by
  have hfixed : ∀ t ∈ ["[runner]", "RESULT:", "run_id=", "classification=", "faults_injected=", "exit=", "timed_out=",
      "reads_before_overwrite="], t.toList ≠ [] ∧ ∀ c ∈ t.toList, isSpace c = false := fun t ht =>
    ⟨(tokens_table.1 t ht).1, no_space (tokens_table.1 t ht).2⟩
  have hname : ∀ c ∈ r.cls.name.toList, isSpace c = false := no_space (by cases r.cls <;> decide +kernel)
  have htime : ∀ c ∈ (if r.timed_out then "True" else "False").toList, isSpace c = false :=
    no_space (by cases r.timed_out <;> decide +kernel)
  intro w hw
  obtain ⟨t, ht, rfl⟩ := List.mem_map.1 hw
  rcases List.mem_append.1 ht with ht | ht
  · simp only [List.mem_cons, List.not_mem_nil, or_false] at ht
    rcases ht with rfl | rfl | rfl | rfl | rfl | rfl | rfl
    · exact hfixed _ (by simp)
    · exact hfixed _ (by simp)
    · exact word_append (hfixed _ (by simp)) r.run_id_word
    · exact word_append (hfixed _ (by simp)) hname
    · exact word_append (hfixed _ (by simp)) fun c => isSpace_of_mem_toString
    · exact word_append (hfixed _ (by simp)) fun c => isSpace_of_mem_toString
    · exact word_append (hfixed _ (by simp)) htime
  · rw [Option.mem_toList, Option.map_eq_some_iff] at ht
    obtain ⟨n, -, rfl⟩ := ht
    exact word_append (hfixed _ (by simp)) fun c hc => isSpace_of_isDigit (isDigit_of_mem_toString hc)

theorem line_toList : r.line.toList = [' '].intercalate (r.tokens.map String.toList) := by
  have hblank : " ".toList = [' '] := by simp
  rw [RunnerResult.line, String.toList_intercalate, hblank]

theorem foldl_readToken :
    (r.tokens.map String.toList).foldl readToken {} =
      { cls := r.cls.name, faults := 0, timed_out := r.timed_out
        reads := (r.reads_before_overwrite.map Int.ofNat).getD (-1) } := by
  have hother : ∀ pre ∈ ["[runner]", "RESULT:", "run_id=", "faults_injected=", "exit="], ∀ (t : List Char) (q : RunOne),
      readToken q (pre.toList ++ t) = q := fun pre hpre t q => readToken_other (tokens_table.2 pre hpre) t q
  have hwhole : ∀ pre ∈ ["[runner]", "RESULT:", "run_id=", "faults_injected=", "exit="], ∀ q : RunOne,
      readToken q pre.toList = q := by
    intro pre hpre q
    simpa using hother pre hpre [] q
  have htime : decide ((if r.timed_out then "True" else "False").toList = "True".toList) = r.timed_out := by
    cases r.timed_out <;> simp
  have hreads : ∀ q : RunOne, ((r.reads_before_overwrite.map fun n => "reads_before_overwrite=" ++ toString n).toList.map
      String.toList).foldl readToken q = { q with reads := (r.reads_before_overwrite.map Int.ofNat).getD q.reads } := by
    intro q
    cases r.reads_before_overwrite with
    | none => rfl
    | some n => exact readToken_reads n q
  rw [RunnerResult.tokens, List.map_append, List.foldl_append, hreads]
  simp only [List.map_cons, List.map_nil, List.foldl_cons, List.foldl_nil, String.toList_append]
  rw [hwhole "[runner]" (by simp), hwhole "RESULT:" (by simp), hother "run_id=" (by simp), readToken_classification,
    hother "faults_injected=" (by simp), hother "exit=" (by simp), readToken_timed_out, htime, String.ofList_toList]

theorem isResult_line : isResult r.line.toList = true := by
  have hmark : "[runner] RESULT:".toList = "[runner]".toList ++ [' '] ++ "RESULT:".toList := by simp
  refine decide_eq_true (List.IsPrefix.isInfix ?_)
  rw [line_toList, RunnerResult.tokens, hmark]
  simp only [List.cons_append, List.map_cons, List.intercalate_cons_cons, List.append_assoc,
    List.prefix_append_right_inj]
  exact List.prefix_append _ _

theorem line_no_break : ∀ c ∈ r.line.toList, isLineBreak c = false := by
  have hbreak : ∀ c, isSpace c = false → isLineBreak c = false := by
    intro c hc
    rw [Bool.eq_false_iff]
    intro h
    rw [isSpace_of_isLineBreak h] at hc
    cases hc
  rw [line_toList]
  refine forall_mem_intercalate (List.forall_mem_singleton.2 (by decide)) fun w hw c hc => hbreak c ?_
  exact (tokens_word r w hw).2 c hc

theorem run_one_result (o : RunnerOutput) :
    run_one (o.stdout r) o.stderr =
      { cls := r.cls.name, faults := 0, timed_out := r.timed_out
        reads := (r.reads_before_overwrite.map Int.ofNat).getD (-1) } := by
  have hnewline : "\n".toList = ['\n'] := by simp
  have hlines : ∀ l ∈ (o.before ++ r.line :: o.after).map String.toList, ∀ c ∈ l, isLineBreak c = false := by
    intro l hl
    obtain ⟨line, hline, rfl⟩ := List.mem_map.1 hl
    rcases List.mem_append.1 hline with hmem | hmem
    · exact o.line line (List.mem_append_left _ hmem)
    · rcases List.mem_cons.1 hmem with rfl | hmem
      · exact line_no_break r
      · exact o.line line (List.mem_append_right _ hmem)
  have hbefore : ∀ l ∈ o.before.map String.toList, isResult l = false := by
    intro l hl
    obtain ⟨line, hline, rfl⟩ := List.mem_map.1 hl
    exact o.no_result line (List.mem_append_left _ hline)
  have hrest : ∀ l ∈ o.after.map String.toList ++ [] :: splitlines o.stderr.toList, isResult l = false := by
    intro l hl
    rcases List.mem_append.1 hl with hl | hl
    · obtain ⟨line, hline, rfl⟩ := List.mem_map.1 hl
      exact o.no_result line (List.mem_append_right _ hline)
    · rcases List.mem_cons.1 hl with rfl | hl
      · refine decide_eq_false ?_
        rw [List.infix_nil]
        simp
      · exact o.stderr_no_result l hl
  have hsplit : splitlines (o.stdout r ++ "\n" ++ o.stderr).toList =
      o.before.map String.toList ++ r.line.toList :: (o.after.map String.toList ++ [] :: splitlines o.stderr.toList) := by
    rw [String.toList_append, String.toList_append, hnewline, RunnerOutput.stdout, String.toList_ofList,
      List.append_assoc, splitlines, linesBy_unlines_append (by decide) (by decide) hlines, List.singleton_append]
    have hempty : linesBy isLineBreak ('\n' :: o.stderr.toList) = [] :: linesBy isLineBreak o.stderr.toList :=
      linesBy_append (l := []) (by decide) (by decide) (by simp) o.stderr.toList
    rw [hempty]
    simp
  rw [run_one, readOutput, hsplit, List.foldl_append, foldl_readLine hbefore, List.foldl_cons, foldl_readLine hrest,
    readLine, isResult_line, if_pos rfl, line_toList, words_intercalate (tokens_word r), foldl_readToken]

/-- The campaign recovers a result just if it has no faults. -/
theorem run_one_recovers_iff (r : RunnerResult) (o : RunnerOutput) :
    ((run_one (o.stdout r) o.stderr).cls = r.cls.name ∧ (run_one (o.stdout r) o.stderr).faults = r.faults ∧
      (run_one (o.stdout r) o.stderr).timed_out = r.timed_out ∧
      (run_one (o.stdout r) o.stderr).reads = (r.reads_before_overwrite.map Int.ofNat).getD (-1)) ↔ r.faults = 0 := by
  rw [run_one_result]
  constructor
  · exact fun h => h.2.1.symm
  · exact fun h => ⟨rfl, h.symm, rfl, rfl⟩

/-- A run with one fault that ends in a silent data corruption: no fault is recovered. -/
theorem run_one_loses_fault :
    let r : RunnerResult :=
      { run_id := "c0-r0", run_id_word := no_space (by decide +kernel), cls := .SDC, faults := 1, returncode := 0
        timed_out := false, reads_before_overwrite := some 2 }
    let o : RunnerOutput :=
      { before := [], after := [], stderr := "", line := by simp, no_result := by simp
        stderr_no_result := by decide +kernel }
    run_one (o.stdout r) o.stderr = { cls := "SDC", faults := 0, timed_out := false, reads := 2 } ∧ r.faults = 1 := by
  intro r o
  exact ⟨run_one_result r o, rfl⟩

end GemFI.Tools
