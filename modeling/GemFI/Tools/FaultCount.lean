import GemFI.Lib.Text
import GemFI.Tools.Classify

/-!
# The fault counts of the runner and of harp_eval

After a run the runner reads the first injection log it finds and counts the faults from its lines: every line that is
not blank and has none of a list of phrases is a fault, unless a line states the number itself.  `harp_eval` reads the log
of the structure under test and counts the lines that are not blank and do not say `SKIPPED`.
-/

namespace GemFI.Tools

open Text

def startsWith (pre text : String) : Bool := pre.toList.isPrefixOf text.toList

def LOG_NAMES : List String :=
  ["fault_injections.log", "main_mem_injections.log", "cache_injections.log", "rat_injections.log",
    "rob_injections.log", "fpu_injections.log", "exec_injections.log", "freelist_injections.log",
    "lsq_fwd_injections.log", "addr_path_injections.log", "ptw_injections.log", "armtlb_injections.log",
    "arm_sysreg_injections.log"]

/-- The number that a line states: the first word between its first `faults_injected:` and the next one. -/
def statedCount (line : String) : Option Int :=
  let mark := "faults_injected:".toList
  match (breakOn mark line.toList).2 with
  | none => none
  | some rest => (words (breakOn mark rest).1).head?.bind int?

def isDetail (line : String) : Bool :=
  ["f5_substitute:", "mark_free:", "pop_wrong:"].any fun mode => occursIn mode line && !occursIn "Site:" line

def countLine (logname : String) (faults : Int) (line : String) : Int :=
  if occursIn "faults_injected:" line then (statedCount line).getD faults
  else if startsWith "ReadTracePoll" line || startsWith "ReadTraceFinal" line then faults
  else if occursIn "DIRECTED reg:" line then faults
  else if occursIn "Inactive" line || startsWith "Error" line then faults
  else if occursIn "REJECT" line || occursIn "MISS" line then faults
  else if isDetail line then faults
  else if decide (logname = "cache_injections.log") && !occursIn "Cache Block Addr" line then faults
  else if !(strip line.toList).isEmpty then faults + 1
  else faults

def countLog (logname text : String) : Int :=
  ((fileLines text.toList).map String.ofList).foldl (countLine logname) 0

def count_faults (files : String → Option String) : Int :=
  (LOG_NAMES.findSome? fun logname => (files logname).map (countLog logname)).getD 0

theorem count_faults_of_first {files : String → Option String} {text : String}
    (h : files "fault_injections.log" = some text) : count_faults files = countLog "fault_injections.log" text := by
  simp [count_faults, LOG_NAMES, h]

/-! ### Lines that count and lines that do not -/

def phrases : List (List Char) :=
  ["faults_injected:", "DIRECTED reg:", "Inactive", "REJECT", "MISS", "f5_substitute:", "mark_free:", "pop_wrong:",
    "\n", "\r"].map String.toList

def countPhrases : List (List Char) := ["faults_injected:", "\n", "\r"].map String.toList

theorem countPhrases_table : countPhrases ⊆ phrases ∧ countPhrases = ["faults_injected:".toList, ['\n'], ['\r']] := by
  decide +kernel

variable {line : String}

theorem countLine_of_avoids (h : Avoids phrases line.toList) (hpoll : startsWith "ReadTracePoll" line = false)
    (hfinal : startsWith "ReadTraceFinal" line = false) (herror : startsWith "Error" line = false)
    (hblank : (strip line.toList).isEmpty = false) (faults : Int) :
    countLine "fault_injections.log" faults line = faults + 1 := by
  have hocc : ∀ mk : String, mk.toList ∈ phrases → occursIn mk line = false :=
    fun mk hmk => decide_eq_false (h _ hmk)
  have hphrase : ∀ mk ∈ ["faults_injected:", "DIRECTED reg:", "Inactive", "REJECT", "MISS", "f5_substitute:",
      "mark_free:", "pop_wrong:"], occursIn mk line = false :=
    fun mk hmk => hocc mk (List.mem_map_of_mem (List.mem_append_left ["\n", "\r"] hmk))
  simp only [List.forall_mem_cons, List.not_mem_nil, false_implies, implies_true, and_true] at hphrase
  obtain ⟨hcount, hdirected, hinactive, hreject, hmiss, hf5, hmark, hpop⟩ := hphrase
  simp [countLine, isDetail, hcount, hdirected, hinactive, hreject, hmiss, hf5, hmark, hpop, hpoll, hfinal, herror,
    hblank]

theorem occursIn_count_of_avoids (h : Avoids countPhrases line.toList) : occursIn "faults_injected:" line = false :=
  decide_eq_false (h _ (by simp [countPhrases]))

/-! ### A log of such lines -/

/-- A line that can be read back, by which the count grows by `d`. -/
def Adds (line : String) (d : Int) : Prop :=
  Avoids countPhrases line.toList ∧ ∀ faults, countLine "fault_injections.log" faults line = faults + d

section

variable {s : String} {ps : List Piece}

theorem fits_head {mks : List (List Char)} {t : List Char} (h : Fits mks (.lit s :: ps) t) : s.toList <+: t := by
  cases h
  exact List.prefix_append _ _

theorem startsWith_eq_false {pre : String} {c d : Char} {l t : List Char} (hpre : pre.toList = c :: l)
    (hline : line.toList = d :: t) (h : c ≠ d) : startsWith pre line = false := by
  rw [startsWith, hpre, hline, List.isPrefixOf_cons_cons]
  simp [h]

theorem Adds.of_avoids (h : Fits phrases (.lit s :: ps) line.toList)
    (hps : ∀ mk ∈ phrases, mayOccur (.lit s :: ps) mk = false)
    (hs : (s.toList.head?.any fun c => c != 'R' && c != 'E') ∧ s.toList.any fun c => !isSpace c) : Adds line 1 := by
  obtain ⟨t, ht⟩ := fits_head h
  obtain ⟨c, hc, hread⟩ := (Option.any_eq_true _ _).1 hs.1
  obtain ⟨l, hl⟩ := List.head?_eq_some_iff.1 hc
  obtain ⟨d, hd, hspace⟩ := List.any_eq_true.1 hs.2
  rw [Bool.and_eq_true, bne_iff_ne, bne_iff_ne] at hread
  have hline : line.toList = c :: (l ++ t) := by rw [← ht, hl, List.cons_append]
  have hpoll : "ReadTracePoll".toList = 'R' :: "eadTracePoll".toList := by simp
  have hfinal : "ReadTraceFinal".toList = 'R' :: "eadTraceFinal".toList := by simp
  have hwrong : "Error".toList = 'E' :: "rror".toList := by simp
  have hblank : strip line.toList ≠ [] := strip_ne_nil ((fits_head h).subset hd) (by simpa using hspace)
  have havoid := h.avoids (List.Subset.refl _) hps
  refine ⟨fun mk hmk => havoid mk (countPhrases_table.1 hmk), ?_⟩
  exact countLine_of_avoids havoid (startsWith_eq_false hpoll hline hread.1.symm)
    (startsWith_eq_false hfinal hline hread.1.symm) (startsWith_eq_false hwrong hline hread.2.symm) (by simpa using hblank)

theorem Adds.of_mem (h : Fits phrases ps line.toList) (hps : ∀ mk ∈ countPhrases, mayOccur ps mk = false)
    (hs : .lit s ∈ ps) (hmark : ["DIRECTED reg:", "Inactive", "MISS"].any fun mk => occursIn mk s) : Adds line 0 := by
  have havoid := h.avoids countPhrases_table.1 hps
  have hocc : ∀ mk : String, occursIn mk s = true → occursIn mk line = true :=
    fun mk hmk => decide_eq_true ((of_decide_eq_true hmk).trans (h.infix_of_mem hs))
  refine ⟨havoid, fun faults => ?_⟩
  simp only [List.any_cons, List.any_nil, Bool.or_false, Bool.or_eq_true] at hmark
  unfold countLine
  rw [occursIn_count_of_avoids havoid, if_neg Bool.false_ne_true]
  rcases hmark with hmark | hmark | hmark <;> simp [hocc _ hmark]

theorem Adds.of_startsWith (h : Fits phrases (.lit s :: ps) line.toList)
    (hps : ∀ mk ∈ countPhrases, mayOccur (.lit s :: ps) mk = false)
    (hs : startsWith "ReadTracePoll" s ∨ startsWith "ReadTraceFinal" s) : Adds line 0 := by
  have havoid := h.avoids countPhrases_table.1 hps
  have hstart : startsWith "ReadTracePoll" line = true ∨ startsWith "ReadTraceFinal" line = true := by
    simp only [startsWith, List.isPrefixOf_iff_prefix] at hs ⊢
    exact hs.imp (·.trans (fits_head h)) (·.trans (fits_head h))
  exact ⟨havoid, fun faults => by simp [countLine, occursIn_count_of_avoids havoid, hstart]⟩

end

/-- The lines can be read back, and the count from them is `n`. -/
def Counts (lines : List String) (n : Int) : Prop :=
  (∀ line ∈ lines, Avoids countPhrases line.toList) ∧ lines.foldl (countLine "fault_injections.log") 0 = n

theorem Counts.nil : Counts [] 0 := ⟨by simp, rfl⟩

theorem Counts.concat {lines : List String} {n d : Int} (h : Counts lines n) (hline : Adds line d) :
    Counts (lines ++ [line]) (n + d) := by
  constructor
  · intro l hl
    rcases List.mem_append.1 hl with hl | hl
    · exact h.1 l hl
    · rw [List.mem_singleton.1 hl]
      exact hline.1
  · rw [List.foldl_append, h.2]
    exact hline.2 n

def logText (lines : List String) : String := String.ofList (unlines (lines.map String.toList))

theorem fileLines_logText {lines : List String} (h : ∀ line ∈ lines, Avoids countPhrases line.toList) :
    fileLines (logText lines).toList = lines.map String.toList := by
  rw [logText, String.toList_ofList]
  refine linesBy_unlines (by decide) (by decide) fun l hl c hc => ?_
  obtain ⟨line, hline, rfl⟩ := List.mem_map.1 hl
  have havoid := h line hline
  have hbreak : ∀ b : Char, [b] ∈ countPhrases → c ≠ b := by
    rintro b hb rfl
    exact havoid _ hb ((List.singleton_infix_iff _ _).2 hc)
  have hn := hbreak '\n' (by simp [countPhrases_table.2])
  have hr := hbreak '\r' (by simp [countPhrases_table.2])
  simp [hn, hr]

theorem Counts.countLog {lines : List String} {n : Int} (h : Counts lines n) :
    Tools.countLog "fault_injections.log" (logText lines) = n := by
  rw [Tools.countLog, fileLines_logText h.1, List.map_map]
  simpa using h.2

/-! ### The count of harp_eval -/

inductive HarpStructure where
  | irf | l1d | l2c_data | l2c_tag | lsq | intadd | intmul | fpadd | fpmul
  deriving DecidableEq, Repr

def INJ_LOG : HarpStructure → String
  | .irf => "fault_injections.log"
  | .l1d | .l2c_data | .l2c_tag => "cache_injections.log"
  | .lsq => "lsq_fwd_injections.log"
  | .intadd | .intmul => "fu_perm_injections.log"
  | .fpadd | .fpmul => "fpu_injections.log"

def skipMark : List Char := "SKIPPED".toList

def harpCounts (line : List Char) : Bool := !(strip line).isEmpty && !decide (skipMark <:+: line)

/-- The number of injections; -1 if there is no log. -/
def count_injections (files : String → Option String) (target : HarpStructure) : Int :=
  match files (INJ_LOG target) with
  | none => -1
  | some text => (fileLines text.toList).countP harpCounts

theorem harpCounts_of_fits {s : String} {ps : List Piece} {line : List Char} (h : Fits [skipMark] (.lit s :: ps) line)
    (hps : mayOccur (.lit s :: ps) skipMark = false) (hs : (s.toList.any fun c => !isSpace c) = true) :
    harpCounts line = true := by
  obtain ⟨c, hc, hspace⟩ := List.any_eq_true.1 hs
  have hblank : strip line ≠ [] := strip_ne_nil ((fits_head h).subset hc) (by simpa using hspace)
  have hskip : ¬skipMark <:+: line := h.avoids (List.Subset.refl _) (by simpa using hps) _ List.mem_cons_self
  simp [harpCounts, hblank, hskip]

end GemFI.Tools
