import GemFI.Reg.RegLog

/-!
# Two readers of the log of CHAOSPhysReg

`harp_eval` counts the lines of an injection log that are not blank and do not say `SKIPPED`, which CHAOSPhysReg never
writes.  So for `harp_eval` every line of its log is an injection, also those that the runner does not count: a
trigger that has missed, the polls of the read trace, and a fault in a register of the free list.  The two agree on
whether a run had an injection exactly if the log is empty or has a line that the runner counts
(`inactive_agree_iff`).
-/

namespace GemFI.Reg

open Mem (FaultType)
open Text Tools PhysRegLog

variable {cfg : PhysRegConfig}

namespace PhysRegLine

variable {log : LogParams}

/-- The names do not have the mark of a record without an injection. -/
structure Plain (log : LogParams) : Prop extends log.Readable where
  cpu_skip : Avoids [skipMark] log.cpu_name.toList
  role_skip : Avoids [skipMark] log.semantic_role.toList

theorem harpCounts_text (hlog : Plain log) (l : PhysRegLine cfg) : harpCounts (l.text log).toList = true := by
  obtain ⟨hfault, hlane, htrace⟩ := pieces_table
  cases l with
  | fault cycle tid reg arch ty mask size =>
    obtain ⟨slot, hslot, hfits⟩ := slotText_fits [skipMark] cfg.fi_mode arch
    exact harpCounts_of_fits (s := "Cycle: ")
      (faultLine_fits (by simp) hlog.cpu_skip hlog.role_skip cycle tid reg hfits ty mask size)
      (hfault _ (log.semantic_role ≠ "") (cfg.trigger_value_mask ≠ 0#64) slot hslot _ List.mem_cons_self) (by decide +kernel)
  | lane n mask =>
    exact harpCounts_of_fits (laneLine_fits n mask) (hlane _ List.mem_cons_self) (by decide +kernel)
  | miss cycle idx val =>
    exact harpCounts_of_fits (missLine_fits cycle idx val) (htrace _ List.mem_cons_self).1 (by decide +kernel)
  | poll t cycle =>
    exact harpCounts_of_fits (pollLine_fits t cycle) ((htrace _ List.mem_cons_self).2 _).1 (by decide +kernel)
  | final t => exact harpCounts_of_fits (finalLine_fits t) ((htrace _ List.mem_cons_self).2 _).2 (by decide +kernel)

/-! ### The two verdicts -/

section Verdicts

variable {log : LogParams} (hlog : Plain log) {files : String → Option String} (ls : List (PhysRegLine cfg))
include hlog

theorem count_injections_lines (hfile : files "fault_injections.log" = some (logText (ls.map (text log)))) :
    count_injections files .irf = ls.length := by
  have hread := fileLines_logText (lines_counts hlog.toReadable ls).1
  have hall : ∀ line ∈ (ls.map (text log)).map String.toList, harpCounts line = true := by
    intro line hline
    rw [List.map_map] at hline
    obtain ⟨l, -, rfl⟩ := List.mem_map.1 hline
    exact harpCounts_text hlog l
  unfold count_injections
  rw [show INJ_LOG .irf = "fault_injections.log" from rfl, hfile]
  show (((fileLines (logText (ls.map (text log))).toList).countP harpCounts : Nat) : Int) = ls.length
  rw [hread, List.countP_eq_length.2 hall, List.length_map, List.length_map]

theorem count_faults_lines (hfile : files "fault_injections.log" = some (logText (ls.map (text log)))) :
    count_faults files = ls.countP counted := by
  rw [count_faults_of_first hfile]
  exact (lines_counts hlog.toReadable ls).countLog

end Verdicts

/-- The two readers agree on whether there was an injection exactly if the log is empty or has a line that the runner
counts. -/
theorem inactive_agree_iff {log : LogParams} (hlog : Plain log) (files : String → Option String)
    (ls : List (PhysRegLine cfg)) (hfile : files "fault_injections.log" = some (logText (ls.map (text log)))) :
    (count_injections files .irf = 0 ↔ count_faults files = 0) ↔ ls = [] ∨ ∃ l ∈ ls, l.counted = true := by
  rw [count_injections_lines hlog ls hfile, count_faults_lines hlog ls hfile, Int.natCast_eq_zero, Int.natCast_eq_zero,
    List.length_eq_zero_iff, List.countP_eq_zero]
  constructor
  · intro hagree
    by_contra hnot
    rw [not_or] at hnot
    exact hnot.1 (hagree.2 fun l hl hcounted => hnot.2 ⟨l, hl, hcounted⟩)
  · rintro (rfl | ⟨l, hl, hcounted⟩)
    · simp
    · refine iff_of_false ?_ fun hnone => hnone l hl hcounted
      rintro rfl
      cases hl

theorem oneCpu_plain : Plain oneCpu := ⟨oneCpu_readable, by decide +kernel, by decide +kernel⟩

def faultIn (arch : Int) : PhysRegLine fourRegs := .fault 5 0 (.scalar .IntRegClass, 2) arch .BitFlip 1 3

def oneFault (arch : Int) (name : String) : Option String :=
  if name = "fault_injections.log" then some (logText ([faultIn arch].map (text oneCpu))) else none

theorem oneFault_log (arch : Int) :
    oneFault arch "fault_injections.log" = some (logText ([faultIn arch].map (text oneCpu))) := if_pos rfl

/-- A fault in a register that is mapped to an architectural one. -/
theorem inactive_agree_mapped : count_injections (oneFault 7) .irf = 0 ↔ count_faults (oneFault 7) = 0 :=
  (inactive_agree_iff oneCpu_plain (oneFault 7) [faultIn 7] (oneFault_log 7)).2
    (.inr ⟨faultIn 7, List.mem_cons_self, by decide⟩)

/-- After a fault in a register of the free list the run has an injection for `harp_eval` but none for the runner. -/
theorem free_slot_disagrees : count_injections (oneFault (-2)) .irf = 1 ∧ count_faults (oneFault (-2)) = 0 := by
  rw [count_injections_lines oneCpu_plain [faultIn (-2)] (oneFault_log (-2)),
    count_faults_lines oneCpu_plain [faultIn (-2)] (oneFault_log (-2))]
  decide

end PhysRegLine

/-! ### The log of a run -/

namespace PhysRegLog

open PhysRegLine

variable {log : LogParams} {t : PhysRegLog cfg}

/-- For the log of a run: the readers agree exactly if the log is empty or there is a fault that the runner counts, one in a
register that is not free or in a vector register. -/
theorem run_inactive_agree_iff (hlog : Plain log) (reg : ScalarClass → Nat → BitVec 64)
    (vecReg : Nat → Nat → BitVec 8) (draw : Nat → Nat) (es : List LogEvent) {files : String → Option String}
    (ht : t = run log (init cfg reg vecReg draw) es) (hfile : files "fault_injections.log" = some (logText t.lines)) :
    (count_injections files .irf = 0 ↔ count_faults files = 0) ↔
      t.lines = [] ∨ t.freeFaults < t.injector.numFaultsInjected + vectorFaults t.injector := by
  obtain ⟨ls, hls, hcount⟩ := @run_records cfg log hlog.toReadable reg vecReg draw es
  rw [← ht] at hls hcount
  rw [hls] at hfile
  have hle : ls.countP counted ≤ ls.length := List.countP_le_length
  have hempty : t.lines = [] ↔ ls.length = 0 := by rw [hls, List.map_eq_nil_iff, List.length_eq_zero_iff]
  rw [hempty, count_injections_lines hlog ls hfile, count_faults_lines hlog ls hfile]
  omega

theorem run_inactive_agree_attack :
    let t := run oneCpu (init fourRegs (fun _ _ => 0) (fun _ _ => 0) fun _ => 0) [.event .attack allInUse]
    count_injections (fun _ => some (logText t.lines)) .irf = 0 ↔ count_faults (fun _ => some (logText t.lines)) = 0 := by
  intro t
  have hfault : t.freeFaults < t.injector.numFaultsInjected + vectorFaults t.injector := by decide +kernel
  refine (run_inactive_agree_iff (t := t) oneCpu_plain _ _ _ [.event .attack allInUse] rfl ?_).2 (.inr hfault)
  rfl

end PhysRegLog

end GemFI.Reg
