import GemFI.Diag.LogParse

/-!
# Logs of complete reports

A report of the kernel has a line `Unable to handle kernel paging request`, a line `Internal error: Oops`, the line
with the core, and the end of its trace; a line `Kernel panic` may follow.  Each of the three lines that look like an
Oops begins an event, so a report is two or three anomalies, of which one has a core (`n_anomalies_reports_iff`).
-/

namespace GemFI.Diag

open Text Counter

abbrev Line := {l : List Char // ∀ c ∈ l, isLineBreak c = false}

/-- A line with a phrase that is no warning and no spurious fault. -/
abbrev OopsLine (phrase : String) :=
  {l : Line // has phrase (message l.1) = true ∧ isSpurious (message l.1) = false ∧ isWarn (message l.1) = false}

structure Report (c : Nat) where
  unable : OopsLine "Unable to handle kernel paging request"
  abort : List Line
  internal : OopsLine "Internal error: Oops"
  modules : List Line
  cpu : Line
  cpu_text : ∃ (pid : Nat) (comm rest : List Char), message cpu.1 =
    ("CPU: " ++ toString c ++ " PID: " ++ toString pid ++ " Comm: ").toList ++ comm ++ rest
  context : List Line
  endTrace : Line
  endTrace_text : has "---[ end trace" (message endTrace.1) = true
  panic : Option (OopsLine "Kernel panic")

namespace Report

variable {c : Nat}

def others (r : Report c) : List Line := r.abort ++ r.modules ++ [r.cpu] ++ r.context ++ [r.endTrace]

def lines (r : Report c) : List Line :=
  (r.unable.1 :: r.abort) ++ (r.internal.1 :: r.modules) ++ (r.cpu :: (r.context ++ [r.endTrace])) ++
    (r.panic.map Subtype.val).toList

def Quiet (r : Report c) : Prop := ∀ l ∈ r.others, begins (message l.1) = false

/-- The report tells its core in its own line only, which is not taken for one of the memory controller. -/
structure TellsCore (r : Report c) : Prop where
  quiet : r.Quiet
  unable : headerCpu (message r.unable.1.1) = none
  internal : headerCpu (message r.internal.1.1) = none
  panic : ∀ l ∈ r.panic, headerCpu (message l.1.1) = none
  abort : ∀ l ∈ r.abort, oopsCpu (message l.1) = none
  modules : ∀ l ∈ r.modules, oopsCpu (message l.1) = none ∧ closes (message l.1) = false
  cpu : isEdac (message r.cpu.1) = false

end Report

def logText {c : Nat} (rs : List (Report c)) : List Char := unlines ((rs.flatMap Report.lines).map Subtype.val)

def panics {c : Nat} (rs : List (Report c)) : Nat := rs.countP fun r => r.panic.isSome

/-! ### The lines that begin an Oops -/

theorem beginsOops_of_phrase {phrase : String} (hphrase : ∀ t, has phrase t = true → isOops t = true)
    (l : OopsLine phrase) : beginsOops (message l.1.1) = true := by
  obtain ⟨hhas, hspurious, hwarn⟩ := l.2
  simp [beginsOops, hspurious, hwarn, hphrase _ hhas]

theorem has_mono {p q : String} {t : List Char} (hpq : p.toList <:+: q.toList) (h : has q t = true) : has p t = true :=
  decide_eq_true (hpq.trans (of_decide_eq_true h))

theorem isOops_of_phrase : (∀ t, has "Unable to handle kernel paging request" t = true → isOops t = true) ∧
    (∀ t, has "Internal error: Oops" t = true → isOops t = true) ∧
    ∀ t, has "Kernel panic" t = true → isOops t = true := by
  refine ⟨fun t h => ?_, fun t h => ?_, fun t h => ?_⟩
  · have hlower : "Unable to handle kernel paging request".toList.map Char.toLower =
        "unable to handle kernel paging request".toList := by simp
    have hcase : hasNoCase "unable to handle kernel paging request" t = true := by
      refine decide_eq_true ?_
      rw [← hlower]
      exact (of_decide_eq_true h).map _
    simp [isOops, hcase]
  · have hoops : has "Oops" t = true := has_mono ⟨"Internal error: ".toList, [], by simp⟩ h
    simp [isOops, hoops]
  · simp [isOops, h]

variable {c : Nat} (rs : List (Report c))

theorem Report.countP_lines (r : Report c) :
    r.lines.countP (fun l => beginsOops (message l.1)) =
      2 + (if r.panic.isSome then 1 else 0) + r.others.countP (fun l => beginsOops (message l.1)) := by
  have hunable := beginsOops_of_phrase isOops_of_phrase.1 r.unable
  have hinternal := beginsOops_of_phrase isOops_of_phrase.2.1 r.internal
  have hpanic : (r.panic.map Subtype.val).toList.countP (fun l => beginsOops (message l.1)) =
      if r.panic.isSome then 1 else 0 := by
    cases r.panic with
    | none => rfl
    | some l => simp [beginsOops_of_phrase isOops_of_phrase.2.2 l]
  simp only [Report.lines, Report.others, List.countP_append, List.countP_cons, List.countP_nil, hunable, hinternal,
    hpanic, if_true]
  omega

theorem countP_reports :
    (rs.flatMap Report.lines).countP (fun l => beginsOops (message l.1)) =
      2 * rs.length + panics rs + (rs.flatMap Report.others).countP (fun l => beginsOops (message l.1)) := by
  induction rs with
  | nil => rfl
  | cons r rs ih =>
    have hpanics : panics (r :: rs) = panics rs + if r.panic.isSome then 1 else 0 := List.countP_cons
    rw [List.flatMap_cons, List.countP_append, ih, r.countP_lines, List.flatMap_cons, List.countP_append,
      List.length_cons, hpanics]
    omega

theorem splitlines_logText : splitlines (logText rs) = (rs.flatMap Report.lines).map Subtype.val := by
  refine linesBy_unlines (by decide) (by decide) fun l hl => ?_
  obtain ⟨line, -, rfl⟩ := List.mem_map.1 hl
  exact line.2

theorem countP_logText :
    (splitlines (logText rs)).countP (fun ln => beginsOops (message ln)) =
      2 * rs.length + panics rs + (rs.flatMap Report.others).countP (fun l => beginsOops (message l.1)) := by
  rw [splitlines_logText, List.countP_map]
  exact countP_reports rs

theorem le_n_anomalies : 2 * rs.length + panics rs ≤ (aggregate (parse (logText rs))).n_anomalies := by
  have hle := (n_anomalies_parse (logText rs)).1
  rw [countP_logText] at hle
  omega

theorem Report.beginsOops_of_begins {r : Report c} (h : r.Quiet) :
    ∀ l ∈ r.lines, begins (message l.1) = true → beginsOops (message l.1) = true := by
  intro l hl hbegins
  by_cases hother : l ∈ r.others
  · rw [h l hother] at hbegins
    cases hbegins
  · have hoops : l = r.unable.1 ∨ l = r.internal.1 ∨ ∃ p, r.panic = some p ∧ p.1 = l := by
      simp only [Report.lines, Report.others, List.mem_append, List.mem_cons, List.not_mem_nil, or_false,
        Option.mem_toList, Option.map_eq_some_iff, not_or] at hl hother
      tauto
    rcases hoops with rfl | rfl | ⟨p, -, rfl⟩
    · exact beginsOops_of_phrase isOops_of_phrase.1 _
    · exact beginsOops_of_phrase isOops_of_phrase.2.1 _
    · exact beginsOops_of_phrase isOops_of_phrase.2.2 _

theorem n_anomalies_of_quiet {rs : List (Report c)} (h : ∀ r ∈ rs, r.Quiet) :
    (aggregate (parse (logText rs))).n_anomalies = 2 * rs.length + panics rs := by
  have hlines : ∀ ln ∈ splitlines (logText rs), begins (message ln) = true → beginsOops (message ln) = true := by
    rw [splitlines_logText]
    intro ln hln
    obtain ⟨l, hl, rfl⟩ := List.mem_map.1 hln
    obtain ⟨r, hr, hl⟩ := List.mem_flatMap.1 hl
    exact Report.beginsOops_of_begins (h r hr) l hl
  have hothers : (rs.flatMap Report.others).countP (fun l => beginsOops (message l.1)) = 0 := by
    refine List.countP_eq_zero.2 fun l hl hoops => ?_
    obtain ⟨r, hr, hl⟩ := List.mem_flatMap.1 hl
    have hquiet := h r hr l hl
    simp only [begins, Bool.or_eq_false_iff] at hquiet
    simp [beginsOops, hquiet] at hoops
  rw [(n_anomalies_parse (logText rs)).2 hlines, countP_logText, hothers, Nat.add_zero]

/-! ### The cores of a report -/

theorem laterCore_some (rest : List Char) (c : Nat) : laterCore rest (some c) = some c := by
  unfold laterCore
  split <;> rfl

theorem laterCore_none {rest : List Char} (h : oopsCpu rest = none) : laterCore rest none = none := by
  rw [laterCore, h]
  exact ite_self _

theorem oopsCpu_cpu (r : Report c) : oopsCpu (message r.cpu.1) = some c := by
  obtain ⟨pid, comm, rest, htext⟩ := r.cpu_text
  obtain ⟨t, ht⟩ : ∃ t, message r.cpu.1 = 'C' :: 'P' :: 'U' :: ':' :: ' ' :: ((toString c).toList ++ ' ' :: t) := by
    refine ⟨"PID: ".toList ++ ((toString pid).toList ++ (" Comm: ".toList ++ (comm ++ rest))), ?_⟩
    rw [htext]
    simp [String.toList_append]
  have hdrop : ((toString c).toList ++ ' ' :: t).dropWhile isSpace = (toString c).toList ++ ' ' :: t := by
    cases hdigits : (toString c).toList with
    | nil =>
      have hread := nat?_toString c
      rw [hdigits] at hread
      cases hread
    | cons d ds =>
      have hd : d.isDigit = true := isDigit_of_mem_toString (by rw [hdigits]; exact List.mem_cons_self)
      rw [List.cons_append, List.dropWhile_cons_of_neg (by simp [isSpace_of_isDigit hd])]
  have htake : ((toString c).toList ++ ' ' :: t).takeWhile Char.isDigit = (toString c).toList := by
    rw [List.takeWhile_append_of_pos fun d hd => isDigit_of_mem_toString hd]
    exact List.append_nil _
  have hcolon : dropColon (':' :: ' ' :: ((toString c).toList ++ ' ' :: t)) = (toString c).toList ++ ' ' :: t := hdrop
  have hafter : after? "CPU" (message r.cpu.1) = some (':' :: ' ' :: ((toString c).toList ++ ' ' :: t)) := by
    rw [ht]
    rfl
  rw [oopsCpu, ht, search_cons, ← ht, hafter, Option.bind_some, hcolon, htake, nat?_toString, Option.some_or]

def Report.cores {c : Nat} (r : Report c) : List (Option Nat) := [none, some c] ++ (r.panic.map fun _ => none).toList

section

variable {c : Nat} {r : Report c}

theorem Report.cores_unable (h : r.TellsCore) (s : ParseState) :
    (((r.unable.1 :: r.abort).map Subtype.val).foldl parseLine s).cores = s.cores ++ [none] := by
  rw [List.map_cons, List.foldl_cons, parseLine_of_beginsOops (beginsOops_of_phrase isOops_of_phrase.1 _)]
  set t := s.start .Oops (by decide) (message r.unable.1.1) with ht
  have hcore : t.core = some none := by rw [ht, ParseState.core_start, h.unable]
  have hkeep := @cores_foldl (r.abort.map Subtype.val) t <| by
    intro ln hln
    obtain ⟨l, hl, rfl⟩ := List.mem_map.1 hln
    refine ⟨h.quiet l (by simp [Report.others, hl]), fun core hc => ?_⟩
    rw [hcore, Option.mem_some] at hc
    rw [← hc, laterCore_none (h.abort l hl)]
  rw [hkeep.1, ht, ParseState.cores_start, h.unable]

theorem Report.core_internal (h : r.TellsCore) (s : ParseState) :
    (((r.internal.1 :: r.modules).map Subtype.val).foldl parseLine s).done = s.cores ∧
      (((r.internal.1 :: r.modules).map Subtype.val).foldl parseLine s).core = some none := by
  rw [List.map_cons, List.foldl_cons, parseLine_of_beginsOops (beginsOops_of_phrase isOops_of_phrase.2.1 _)]
  set t := s.start .Oops (by decide) (message r.internal.1.1) with ht
  have hcore : t.core = some none := by rw [ht, ParseState.core_start, h.internal]
  obtain ⟨hcores, hkeep⟩ := @cores_foldl (r.modules.map Subtype.val) t <| by
    intro ln hln
    obtain ⟨l, hl, rfl⟩ := List.mem_map.1 hln
    refine ⟨h.quiet l (by simp [Report.others, hl]), fun core hc => ?_⟩
    rw [hcore, Option.mem_some] at hc
    rw [← hc, laterCore_none (h.modules l hl).1]
  have hpend : ((r.modules.map Subtype.val).foldl parseLine t).core = some none := by
    rcases hkeep with hkeep | ⟨⟨ln, hln, hcloses⟩, -⟩
    · rw [hkeep, hcore]
    · obtain ⟨l, hl, rfl⟩ := List.mem_map.1 hln
      rw [(h.modules l hl).2] at hcloses
      cases hcloses
  rw [ParseState.cores, ParseState.cores, hpend, hcore] at hcores
  exact ⟨(List.append_cancel_right hcores).trans (s.done_start _ _), hpend⟩

theorem Report.cores_cpu (h : r.TellsCore) {s : ParseState} (hcore : s.core = some none) :
    (((r.cpu :: (r.context ++ [r.endTrace])).map Subtype.val).foldl parseLine s).cores = s.done ++ [some c] := by
  have htold : laterCore (message r.cpu.1) none = some c := by
    rw [laterCore, h.cpu, oopsCpu_cpu]
    rfl
  obtain ⟨hcores, hnext⟩ := cores_of_not_begins (h.quiet r.cpu (by simp [Report.others])) s
  rw [hcore, Option.map_some, htold] at hcores hnext
  rw [List.map_cons, List.foldl_cons]
  refine (cores_foldl fun ln hln => ?_).1.trans hcores
  obtain ⟨l, hl, rfl⟩ := List.mem_map.1 hln
  refine ⟨h.quiet l ?_, fun core hc => ?_⟩
  · simp only [List.mem_append, List.mem_singleton] at hl
    rcases hl with hl | hl <;> simp [Report.others, hl]
  · rcases hnext with hnext | ⟨-, hnext⟩ <;> rw [hnext] at hc
    · rw [← Option.mem_some.1 hc, laterCore_some]
    · cases hc

theorem Report.cores_panic (h : r.TellsCore) (s : ParseState) :
    ((((r.panic.map Subtype.val).toList).map Subtype.val).foldl parseLine s).cores =
      s.cores ++ (r.panic.map fun _ => none).toList := by
  cases hpanic : r.panic with
  | none => exact (List.append_nil _).symm
  | some l =>
    have hline : parseLine s l.1.1 = s.start .Oops (by decide) (message l.1.1) :=
      parseLine_of_beginsOops (beginsOops_of_phrase isOops_of_phrase.2.2 l) s
    simp only [Option.map_some, Option.toList_some, List.map_cons, List.map_nil, List.foldl_cons, List.foldl_nil]
    rw [hline, ParseState.cores_start, h.panic l hpanic]

theorem Report.foldl_lines (h : r.TellsCore) (s : ParseState) :
    ((r.lines.map Subtype.val).foldl parseLine s).cores = s.cores ++ r.cores := by
  rw [Report.lines, List.map_append, List.map_append, List.map_append, List.foldl_append, List.foldl_append,
    List.foldl_append, Report.cores_panic h, Report.cores_cpu h (Report.core_internal h _).2,
    (Report.core_internal h _).1, Report.cores_unable h, Report.cores]
  simp

end

theorem cores_logText {rs : List (Report c)} (h : ∀ r ∈ rs, r.TellsCore) :
    (anomalies (parse (logText rs))).map Event.cpu = rs.flatMap Report.cores := by
  have hrun : ∀ s : ParseState, (((rs.flatMap Report.lines).map Subtype.val).foldl parseLine s).cores =
      s.cores ++ rs.flatMap Report.cores := by
    induction rs with
    | nil => exact fun s => (List.append_nil _).symm
    | cons r rs ih =>
      intro s
      rw [List.flatMap_cons, List.map_append, List.foldl_append, ih fun r hr => h r (List.mem_cons_of_mem _ hr),
        Report.foldl_lines (h r List.mem_cons_self), List.flatMap_cons, List.append_assoc]
  rw [anomalies_parse, splitlines_logText, hrun]
  rfl

theorem filterMap_cores : (rs.flatMap Report.cores).filterMap id = List.replicate rs.length c := by
  induction rs with
  | nil => rfl
  | cons r rs ih =>
    rw [List.flatMap_cons, List.filterMap_append, ih, List.length_cons, List.replicate_succ, Report.cores]
    cases r.panic <;> rfl

theorem per_core_reports {rs : List (Report c)} (h : ∀ r ∈ rs, r.TellsCore) :
    (anomalies (parse (logText rs))).filterMap Event.cpu = List.replicate rs.length c := by
  rw [← filterMap_cores, ← cores_logText h, List.filterMap_map]
  rfl

theorem roundHalfEven_le {x : ℚ} {n : ℤ} (h : x ≤ n) : roundHalfEven x ≤ n := by
  have hfloor : ⌊x⌋ ≤ n := Int.cast_le.1 ((Int.floor_le x).trans h)
  rcases hfloor.eq_or_lt with heq | hlt
  · -- the number is whole
    have hx : x = n := le_antisymm h (heq ▸ Int.floor_le x)
    have hzero : x - ⌊x⌋ < 1 / 2 := by
      rw [heq, hx]
      norm_num
    rw [roundHalfEven, if_pos hzero, heq]
  · unfold roundHalfEven
    dsimp only
    split_ifs <;> omega

theorem round4_le_half {x : ℚ} (h : x ≤ 1 / 2) : round4 x ≤ 1 / 2 := by
  have hround : roundHalfEven (10000 * x) ≤ 5000 := roundHalfEven_le (by push_cast; linarith)
  have hcast : (roundHalfEven (10000 * x) : ℚ) ≤ 5000 := by exact_mod_cast hround
  rw [round4, div_le_div_iff₀ (by norm_num) (by norm_num)]
  linarith

theorem concentration_reports {rs : List (Report c)} (h : ∀ r ∈ rs, r.TellsCore) :
    (aggregate (parse (logText rs))).concentration = round4 (rs.length / (2 * rs.length + panics rs)) := by
  have hlen : (anomalies (parse (logText rs))).length = 2 * rs.length + panics rs :=
    n_anomalies_of_quiet fun r hr => (h r hr).quiet
  unfold aggregate topCore
  dsimp only
  rw [per_core_reports h, hlen]
  cases rs with
  | nil => norm_num [counts]
  | cons r rs =>
    rw [List.length_cons, counts_replicate, List.argmax_singleton]
    push_cast
    rfl

theorem concentration_le_half : (rs.length / (2 * rs.length + panics rs) : ℚ) ≤ 1 / 2 := by
  refine div_le_of_le_mul₀ (by positivity) (by norm_num) ?_
  linarith [Nat.cast_nonneg (α := ℚ) (panics rs)]

/-- There is one anomaly for each report, all are on the core, and the concentration is that of one core: this is so of
the log without a report only, and its concentration is 0.  There are two anomalies for each report and one more for a
panic, if no other line begins an event; and one of them has the core of the report, if its own line tells it. -/
theorem n_anomalies_reports_iff {c : Nat} (rs : List (Report c)) :
    ((aggregate (parse (logText rs))).n_anomalies = rs.length ∧
      (∀ e ∈ anomalies (parse (logText rs)), e.cpu = some c) ∧
      (rs ≠ [] → (aggregate (parse (logText rs))).concentration = 1) ↔ rs = []) ∧
    (aggregate (parse (logText ([] : List (Report c))))).concentration = 0 ∧
    ((∀ r ∈ rs, r.Quiet) → (aggregate (parse (logText rs))).n_anomalies = 2 * rs.length + panics rs) ∧
    ((∀ r ∈ rs, r.TellsCore) →
      (aggregate (parse (logText rs))).per_core = (if rs = [] then [] else [(toString c, rs.length)]) ∧
      (aggregate (parse (logText rs))).concentration = round4 (rs.length / (2 * rs.length + panics rs)) ∧
      (aggregate (parse (logText rs))).concentration ≤ 1 / 2) := by
  refine ⟨⟨fun h => ?_, ?_⟩, ?_, n_anomalies_of_quiet, fun h => ⟨?_, concentration_reports h, ?_⟩⟩
  · have hle := le_n_anomalies rs
    exact List.length_eq_zero_iff.1 (by omega)
  · rintro rfl
    have hnone : (anomalies (parse (logText ([] : List (Report c))))).length = 0 :=
      n_anomalies_of_quiet fun r (hr : r ∈ ([] : List (Report c))) => absurd hr List.not_mem_nil
    refine ⟨hnone, fun e he => ?_, fun hne => absurd rfl hne⟩
    rw [List.length_eq_zero_iff.1 hnone] at he
    cases he
  · have hround : round4 ((0 : Nat) / (2 * (0 : Nat) + (0 : Nat))) = 0 := by decide +kernel
    exact (concentration_reports fun r hr => absurd hr List.not_mem_nil).trans hround
  · unfold aggregate
    dsimp only
    rw [per_core_reports h]
    cases rs with
    | nil => rfl
    | cons r rs =>
      rw [List.length_cons, counts_replicate, if_neg (List.cons_ne_nil r rs)]
      rfl
  · rw [concentration_reports h]
    exact round4_le_half (concentration_le_half rs)

theorem no_break {t : List Char} (h : (t.all fun c => !isLineBreak c) = true) : ∀ c ∈ t, isLineBreak c = false := by
  simpa using h

def sampleReport : Report 3 where
  unable := ⟨⟨"Unable to handle kernel paging request".toList, no_break (by decide +kernel)⟩, by decide +kernel⟩
  abort := []
  internal := ⟨⟨"Internal error: Oops".toList, no_break (by decide +kernel)⟩, by decide +kernel⟩
  modules := []
  cpu := ⟨"CPU: 3 PID: 7 Comm: sh".toList, no_break (by decide +kernel)⟩
  cpu_text := ⟨7, "sh".toList, [], by decide +kernel⟩
  context := []
  endTrace := ⟨"---[ end trace ]---".toList, no_break (by decide +kernel)⟩
  endTrace_text := by decide +kernel
  panic := none

theorem sampleReport_tellsCore : sampleReport.TellsCore where
  quiet := by
    have hothers : ∀ l ∈ sampleReport.others, begins (message l.1) = false := by decide +kernel
    exact hothers
  unable := by decide +kernel
  internal := by decide +kernel
  panic := nofun
  abort := nofun
  modules := nofun
  cpu := by decide +kernel

/-- One report is two anomalies, and the concentration is 1/2. -/
theorem one_report_two_anomalies : (aggregate (parse (logText [sampleReport]))).n_anomalies = 2 ∧
    (aggregate (parse (logText [sampleReport]))).concentration = 1 / 2 := by
  have htells : ∀ r ∈ [sampleReport], r.TellsCore := List.forall_mem_singleton.2 sampleReport_tellsCore
  have hpanics : panics [sampleReport] = 0 := rfl
  have hround : round4 (1 / (2 * 1 + 0)) = 1 / 2 := by decide +kernel
  rw [n_anomalies_of_quiet fun r hr => (htells r hr).quiet, concentration_reports htells, hpanics]
  exact ⟨rfl, by exact_mod_cast hround⟩

end GemFI.Diag
