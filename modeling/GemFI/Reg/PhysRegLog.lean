import GemFI.Reg.CHAOSPhysReg
import GemFI.Tools.FaultCount

/-!
# The log of CHAOSPhysReg

The injector with the lines it writes to `fault_injections.log`: one for each fault, a second one for the lane of a
vector register, one for a trigger that misses, and those of the read trace, which may come at any time.  The log does
not change what the injector does (`run_injector`).

The runner counts the line of a lane as a fault of its own, and does not count a fault in a register of the free list
(that of the program at the time of the event).  So its count and the counter of the injector differ by these two
numbers (`count_run`).
-/

namespace GemFI.Reg

open Mem (Rng FaultType)
open Text Tools CHAOSPhysReg

structure LogParams where
  cpu_name : String
  semantic_role : String
  write_log : Bool

/-- Lines are written, and the names in them do not have a phrase that the runner looks for, or the end of a line. -/
structure LogParams.Readable (log : LogParams) : Prop where
  write_log : log.write_log = true
  cpu_name : Avoids phrases log.cpu_name.toList
  semantic_role : Avoids phrases log.semantic_role.toList

structure FreeList where
  isFree : Slot → Bool
  numFreeRegs : RegClassType → Nat

structure PhysRegLog (cfg : PhysRegConfig) where
  injector : CHAOSPhysReg cfg
  lines : List String := []
  free_list_size_at_inject : Nat := 0
  traced_phys_idx : Int := -1
  overwrite_recorded : Bool := false
  overwritten_at_cycle : Nat := 0
  freeFaults : Nat := 0

/-! ### The lines -/

def faultTypeToString : FaultType → String
  | .BitFlip => "bit_flip"
  | .StuckAtZero => "stuck_at_zero"
  | .StuckAtOne => "stuck_at_one"
  | .Random => "random"

def Mode.text : Mode → String
  | .Phys => "phys"
  | .ArchFrontend => "arch_frontend"
  | .ArchCommit => "arch_commit"

def RegClassType.text : RegClassType → String
  | .scalar .FloatRegClass => "fp"
  | .VecRegClass => "vec"
  | .scalar .IntRegClass => "int"

namespace PhysRegLog

variable {cfg : PhysRegConfig}

/-- The architectural register that is logged: the directed one, or the first one that is mapped to the slot; -2 stands
for a slot of the free list and -1 for one without such a register. -/
def chosenArch (s : CHAOSPhysReg cfg) (free : FreeList) (tid : Nat) (slot : Slot) : Int :=
  if cfg.fi_mode = .Phys then
    if free.isFree slot then -2
    else if cfg.hasContext tid && cfg.hasIsa tid then
      let cap := min (cfg.numArchRegs tid slot.1) (if slot.1 = .scalar .IntRegClass then 31 else 32)
      match (List.range cap).find? fun a => s.frontRenameMap tid slot.1 a = some slot.2 with
      | some a => a
      | none => -1
    else -1
  else cfg.target_arch_idx

def slotText (fi_mode : Mode) (chosen_arch_idx : Int) : String :=
  if fi_mode = .Phys then
    if chosen_arch_idx = -2 then " (Inactive/free slot)"
    else if 0 ≤ chosen_arch_idx then " (Active, mapped from ArchReg[" ++ toString chosen_arch_idx ++ "])"
    else " (Active, held by in-flight inst, no current rename-map entry)"
  else if 0 ≤ chosen_arch_idx then " (<= ArchReg[" ++ toString chosen_arch_idx ++ "])"
  else ""

def faultFields (cfg : PhysRegConfig) (log : LogParams) (cycle tid : Nat) (slot : Slot) (chosen_arch_idx : Int)
    (ty : FaultType) (mask : BitVec 64) (free_list_size : Nat) : List String :=
  ["Cycle: " ++ toString cycle, " CPU: " ++ log.cpu_name, " Thread: " ++ toString tid, " Mode: " ++ cfg.fi_mode.text,
      " RegClass: " ++ slot.1.text,
      " PhysReg[" ++ toString slot.2 ++ "]" ++ slotText cfg.fi_mode chosen_arch_idx,
      " FaultType: " ++ faultTypeToString ty, " Mask: " ++ bitset mask, " FreeListSize: " ++ toString free_list_size] ++
    (if log.semantic_role ≠ "" then [" SemanticRole: " ++ log.semantic_role] else []) ++
    (if cfg.trigger_value_mask ≠ 0#64 then
      [" F3trigger: mask=0x" ++ hex cfg.trigger_value_mask.toNat ++ " pattern=0x" ++ hex cfg.trigger_value_pattern.toNat]
    else [])

def faultLine (cfg : PhysRegConfig) (log : LogParams) (cycle tid : Nat) (slot : Slot) (chosen_arch_idx : Int)
    (ty : FaultType) (mask : BitVec 64) (free_list_size : Nat) : String :=
  ",".intercalate (faultFields cfg log cycle tid slot chosen_arch_idx ty mask free_list_size)

def laneLine (cfg : PhysRegConfig) (lane : Nat) (mask : BitVec 64) : String :=
  "  [vec lane " ++ toString lane ++ "/" ++ toString (max (max cfg.vecRegBytes 8 / laneBytes cfg) 1) ++ " width=" ++
    toString (8 * laneBytes cfg) ++ "bits mask=0x" ++ hex (laneMask cfg mask).toNat ++ "]"

def missLine (cfg : PhysRegConfig) (cycle idx : Nat) (val : BitVec 64) : String :=
  "Cycle: " ++ toString cycle ++ ", PhysReg[" ++ toString idx ++ "] F3 trigger MISS: val=0x" ++ hex val.toNat ++
    " mask=0x" ++ hex cfg.trigger_value_mask.toNat ++ " pattern=0x" ++ hex cfg.trigger_value_pattern.toNat ++
    " — injection skipped."

def traceText (t : PhysRegLog cfg) : String :=
  "PhysReg[" ++ toString t.traced_phys_idx ++ "] reads_before_overwrite=" ++
    toString t.injector.regFile.reads_before_overwrite ++ " overwritten=" ++
    (if t.overwrite_recorded then "1" ++ " at_cycle=" ++ toString t.overwritten_at_cycle else "0")

def pollLine (t : PhysRegLog cfg) (cycle : Nat) : String :=
  "ReadTracePoll: cycle " ++ toString cycle ++ " " ++ t.traceText

def finalLine (t : PhysRegLog cfg) : String := "ReadTraceFinal: " ++ t.traceText ++ " (workload halted)"

/-! ### The handlers -/

def write (log : LogParams) (t : PhysRegLog cfg) (line : String) : PhysRegLog cfg :=
  if log.write_log then { t with lines := t.lines ++ [line] } else t

def probe (t : PhysRegLog cfg) (free : FreeList) (slot : Slot) : PhysRegLog cfg :=
  if cfg.fi_mode = .Phys then { t with free_list_size_at_inject := free.numFreeRegs slot.1 } else t

def logFault (log : LogParams) (t : PhysRegLog cfg) (free : FreeList) (now tid : Nat) (slot : Slot) (mask : BitVec 64) :
    PhysRegLog cfg :=
  let arch := chosenArch t.injector free tid slot
  let t := { t with
    injector := CHAOSPhysReg.processFault t.injector tid
    traced_phys_idx := slot.2
    overwrite_recorded := false
    overwritten_at_cycle := 0
    freeFaults := t.freeFaults + if cfg.fi_mode = .Phys ∧ free.isFree slot = true then 1 else 0 }
  write log t (faultLine cfg log (cfg.curCycle now) tid slot arch (chosenType cfg) mask t.free_list_size_at_inject)

def processFault (log : LogParams) (free : FreeList) (now : Nat) (t : PhysRegLog cfg) (tid : Nat) : PhysRegLog cfg :=
  let target := chooseTarget t.injector tid
  match target.1 with
  | none => { t with injector := CHAOSPhysReg.processFault t.injector tid }
  | some slot =>
    let mask := drawMask cfg target.2
    let t := probe t free slot
    match slot.1 with
    | .scalar cls =>
      let val := t.injector.regFile.reg cls slot.2
      if triggerMiss cfg val then
        write log { t with injector := CHAOSPhysReg.processFault t.injector tid }
          (missLine cfg (cfg.curCycle now) slot.2 val)
      else logFault log t free now tid slot mask.1
    | .VecRegClass =>
      -- the line of the lane is written before the fault is counted
      logFault log (write log t (laneLine cfg (chooseLane cfg mask.2).1 mask.1)) free now tid slot mask.1

def attackThread (log : LogParams) (free : FreeList) (now : Nat) (t : PhysRegLog cfg) (tid : Nat) : PhysRegLog cfg :=
  if cfg.active t.injector.halted tid then processFault log free now t tid else t

def attackCheck (log : LogParams) (free : FreeList) (t : PhysRegLog cfg) (now : Nat) : PhysRegLog cfg :=
  let t := (List.range cfg.numThreads).foldl (attackThread log free now) t
  { t with injector := reschedule t.injector now }

def readTraceCheck (log : LogParams) (t : PhysRegLog cfg) (now : Nat) : PhysRegLog cfg :=
  let t :=
    if t.injector.regFile.trace_overwritten && !t.overwrite_recorded then
      { t with overwritten_at_cycle := cfg.curCycle now, overwrite_recorded := true }
    else t
  let t := write log t (pollLine t (cfg.curCycle now))
  if cfg.anyActive t.injector.halted then t
  else
    let t := write log t (finalLine t)
    { t with
      injector := { t.injector with regFile := t.injector.regFile.clearReadTraceTarget }
      traced_phys_idx := -1 }

/-- An event of the injector, with the free list at this time, or a poll of the read trace. -/
inductive LogEvent where
  | event (e : CHAOSPhysReg.Event) (free : FreeList)
  | poll (now : Nat)

def step (log : LogParams) (t : PhysRegLog cfg) : LogEvent → PhysRegLog cfg
  | .event .attack free =>
    match t.injector.attackEvent with
    | none => t
    | some p =>
      let t := { t with injector := { t.injector with attackEvent := none } }
      if p.squashed then t else attackCheck log free t p.tick
  | .event e _ => { t with injector := CHAOSPhysReg.step t.injector e }
  | .poll now => readTraceCheck log t now

def run (log : LogParams) (t : PhysRegLog cfg) (es : List LogEvent) : PhysRegLog cfg := es.foldl (step log) t

end PhysRegLog

/-! ### What the readers make of the lines -/

inductive PhysRegLine (cfg : PhysRegConfig) where
  | fault (cycle tid : Nat) (slot : Slot) (chosen_arch_idx : Int) (ty : FaultType) (mask : BitVec 64) (size : Nat)
  | lane (n : Nat) (mask : BitVec 64)
  | miss (cycle idx : Nat) (val : BitVec 64)
  | poll (t : PhysRegLog cfg) (cycle : Nat)
  | final (t : PhysRegLog cfg)

namespace PhysRegLine

open PhysRegLog

variable {cfg : PhysRegConfig}

def text (log : LogParams) : PhysRegLine cfg → String
  | .fault cycle tid slot arch ty mask size => faultLine cfg log cycle tid slot arch ty mask size
  | .lane n mask => laneLine cfg n mask
  | .miss cycle idx val => missLine cfg cycle idx val
  | .poll t cycle => pollLine t cycle
  | .final t => finalLine t

/-- The runner counts the line: it is that of a fault, unless the register is free, or that of a lane. -/
def counted : PhysRegLine cfg → Bool
  | .fault _ _ _ arch _ _ _ => !decide (cfg.fi_mode = .Phys ∧ arch = -2)
  | .lane .. => true
  | .miss .. | .poll .. | .final .. => false

/-- What is written behind the register, for one that is free and for one that is not. -/
def slotPieces (free : Bool) : List (List Piece) :=
  if free then [[.lit " (Inactive/free slot)"]]
  else [[.lit " (Active, mapped from ArchReg[", .number, .lit "])"],
    [.lit " (Active, held by in-flight inst, no current rename-map entry)"],
    [.lit " (<= ArchReg[", .number, .lit "])"], []]

def faultPieces (slot : List Piece) (role trigger : Bool) : List Piece :=
  [.lit ","].intercalate
    ([[.lit "Cycle: ", .number], [.lit " CPU: ", .name], [.lit " Thread: ", .number], [.lit " Mode: ", .name],
      [.lit " RegClass: ", .name], .lit " PhysReg[" :: .number :: .lit "]" :: slot, [.lit " FaultType: ", .name],
      [.lit " Mask: ", .number], [.lit " FreeListSize: ", .number]] ++
    (if role then [[.lit " SemanticRole: ", .name]] else []) ++
    (if trigger then [[.lit " F3trigger: mask=0x", .number, .lit " pattern=0x", .number]] else []))

def lanePieces : List Piece :=
  [.lit "  [vec lane ", .number, .lit "/", .number, .lit " width=", .number, .lit "bits mask=0x", .number, .lit "]"]

def missPieces : List Piece :=
  [.lit "Cycle: ", .number, .lit ", PhysReg[", .number, .lit "] F3 trigger MISS: val=0x", .number, .lit " mask=0x",
    .number, .lit " pattern=0x", .number, .lit " — injection skipped."]

def tracePieces (recorded : Bool) : List Piece :=
  [.lit "PhysReg[", .number, .lit "] reads_before_overwrite=", .number, .lit " overwritten="] ++
    if recorded then [.lit "1", .lit " at_cycle=", .number] else [.lit "0"]

def pollPieces (recorded : Bool) : List Piece :=
  .lit "ReadTracePoll: cycle " :: .number :: .lit " " :: tracePieces recorded

def finalPieces (recorded : Bool) : List Piece :=
  .lit "ReadTraceFinal: " :: (tracePieces recorded ++ [.lit " (workload halted)"])

theorem pieces_table :
    (∀ free role trigger, ∀ slot ∈ slotPieces free, ∀ mk ∈ skipMark :: if free then countPhrases else phrases,
      mayOccur (faultPieces slot role trigger) mk = false) ∧
    (∀ mk ∈ skipMark :: phrases, mayOccur lanePieces mk = false) ∧
    ∀ mk ∈ skipMark :: countPhrases, mayOccur missPieces mk = false ∧
      ∀ recorded, mayOccur (pollPieces recorded) mk = false ∧ mayOccur (finalPieces recorded) mk = false := by
  decide +kernel

variable {log : LogParams} {mks : List (List Char)}

theorem slotText_fits (mks : List (List Char)) (fi_mode : Mode) (arch : Int) :
    ∃ ps ∈ slotPieces (decide (fi_mode = .Phys ∧ arch = -2)), Fits mks ps (slotText fi_mode arch).toList := by
  have harch : ∀ {part : String}, Fits mks [.lit part, .number, .lit "])"] (part ++ toString arch ++ "])").toList := by
    intro part
    apply Fits.of_append_nil
    simp only [String.toList_append, List.append_assoc]
    exact .lit _ (.int _ (.lit _ .nil))
  have hlit : ∀ {part : String}, Fits mks [.lit part] part.toList := .of_append_nil (.lit _ .nil)
  unfold slotText
  by_cases hmode : fi_mode = .Phys
  · by_cases hfree : arch = -2
    · rw [if_pos hmode, if_pos hfree]
      exact ⟨_, by simp [slotPieces, hmode, hfree], hlit⟩
    · rw [if_pos hmode, if_neg hfree]
      split
      · exact ⟨_, by simp [slotPieces, hfree], harch⟩
      · exact ⟨_, by simp [slotPieces, hfree], hlit⟩
  · rw [if_neg hmode]
    split
    · exact ⟨_, by simp [slotPieces, hmode], harch⟩
    · exact ⟨[], by simp [slotPieces, hmode], .nil⟩

theorem traceText_fits (t : PhysRegLog cfg) : Fits mks (tracePieces t.overwrite_recorded) t.traceText.toList := by
  apply Fits.of_append_nil
  unfold traceText tracePieces
  cases t.overwrite_recorded with
  | true =>
    simp only [↓reduceIte, String.toList_append, List.append_assoc]
    exact .lit _ (.int _ (.lit _ (.nat _ (.lit _ (.lit _ (.lit _ (.nat _ .nil)))))))
  | false =>
    simp only [Bool.false_eq_true, ↓reduceIte, String.toList_append, List.append_assoc]
    exact .lit _ (.int _ (.lit _ (.nat _ (.lit _ (.lit _ .nil)))))

theorem names_avoid : (∀ m : Mode, Avoids (skipMark :: phrases) m.text.toList) ∧
    (∀ cls : RegClassType, Avoids (skipMark :: phrases) cls.text.toList) ∧
    ∀ ty : FaultType, Avoids (skipMark :: phrases) (faultTypeToString ty).toList := by
  refine ⟨fun m => ?_, fun cls => ?_, fun ty => ?_⟩
  · cases m <;> decide +kernel
  · rcases cls with (_ | _) | _ <;> decide +kernel
  · cases ty <;> decide +kernel

theorem faultLine_fits (hmks : mks ⊆ skipMark :: phrases) (hcpu : Avoids mks log.cpu_name.toList)
    (hrole : Avoids mks log.semantic_role.toList) (cycle tid : Nat) (slot : Slot) {arch : Int} {ps : List Piece}
    (hslot : Fits mks ps (slotText cfg.fi_mode arch).toList) (ty : FaultType) (mask : BitVec 64) (size : Nat) :
    Fits mks (faultPieces ps (log.semantic_role ≠ "") (cfg.trigger_value_mask ≠ 0#64))
      (faultLine cfg log cycle tid slot arch ty mask size).toList := by
  obtain ⟨hmode, hclass, htype⟩ := names_avoid
  rw [faultLine, String.toList_intercalate]
  apply Fits.intercalate
  unfold faultFields
  rw [List.map_append, List.map_append]
  refine List.rel_append (List.rel_append ?_ ?_) ?_
  · refine .cons ?_ (.cons ?_ (.cons ?_ (.cons ?_ (.cons ?_ (.cons ?_ (.cons ?_ (.cons ?_ (.cons ?_ .nil))))))))
    all_goals
      apply Fits.of_append_nil
      simp only [String.toList_append, List.append_assoc]
    · exact .lit _ (.nat _ .nil)
    · exact .lit _ (.name hcpu .nil)
    · exact .lit _ (.nat _ .nil)
    · exact .lit _ (.name (fun mk hmk => hmode _ mk (hmks hmk)) .nil)
    · exact .lit _ (.name (fun mk hmk => hclass _ mk (hmks hmk)) .nil)
    · rw [List.append_nil]
      exact .lit _ (.nat _ (.lit _ hslot))
    · exact .lit _ (.name (fun mk hmk => htype _ mk (hmks hmk)) .nil)
    · exact .lit _ (.bitset _ .nil)
    · exact .lit _ (.nat _ .nil)
  · by_cases hempty : log.semantic_role = ""
    · simp [hempty]
    · simp only [ne_eq, hempty, not_false_eq_true, decide_true, ↓reduceIte, List.map_cons, List.map_nil]
      refine .cons (.of_append_nil ?_) .nil
      rw [String.toList_append, List.append_assoc]
      exact .lit _ (.name hrole .nil)
  · by_cases hzero : cfg.trigger_value_mask = 0#64
    · simp [hzero]
    · simp only [ne_eq, hzero, not_false_eq_true, decide_true, ↓reduceIte, List.map_cons, List.map_nil]
      refine .cons (.of_append_nil ?_) .nil
      simp only [String.toList_append, List.append_assoc]
      exact .lit _ (.hex _ (.lit _ (.hex _ .nil)))

theorem laneLine_fits (n : Nat) (mask : BitVec 64) : Fits mks lanePieces (laneLine cfg n mask).toList := by
  apply Fits.of_append_nil
  unfold laneLine
  simp only [String.toList_append, List.append_assoc]
  exact .lit _ (.nat _ (.lit _ (.nat _ (.lit _ (.nat _ (.lit _ (.hex _ (.lit _ .nil))))))))

theorem missLine_fits (cycle idx : Nat) (val : BitVec 64) : Fits mks missPieces (missLine cfg cycle idx val).toList := by
  apply Fits.of_append_nil
  unfold missLine
  simp only [String.toList_append, List.append_assoc]
  exact .lit _ (.nat _ (.lit _ (.nat _ (.lit _ (.hex _ (.lit _ (.hex _ (.lit _ (.hex _ (.lit _ .nil))))))))))

theorem pollLine_fits (t : PhysRegLog cfg) (cycle : Nat) :
    Fits mks (pollPieces t.overwrite_recorded) (pollLine t cycle).toList := by
  unfold pollLine
  simp only [String.toList_append, List.append_assoc]
  exact .lit _ (.nat _ (.lit _ (traceText_fits t)))

theorem finalLine_fits (t : PhysRegLog cfg) : Fits mks (finalPieces t.overwrite_recorded) (finalLine t).toList := by
  unfold finalLine
  simp only [String.toList_append, List.append_assoc]
  exact .lit _ ((traceText_fits t).append (.of_append_nil (.lit _ .nil)))

theorem text_adds (hlog : log.Readable) (l : PhysRegLine cfg) : Adds (l.text log) (if l.counted then 1 else 0) := by
  obtain ⟨hfault, hlane, htrace⟩ := pieces_table
  cases l with
  | fault cycle tid reg arch ty mask size =>
    obtain ⟨slot, hslot, hfits⟩ := slotText_fits phrases cfg.fi_mode arch
    have hline := faultLine_fits (List.subset_cons_self _ _) hlog.cpu_name hlog.semantic_role cycle tid reg hfits ty mask size
    have hno := fun mk hmk => hfault _ (log.semantic_role ≠ "") (cfg.trigger_value_mask ≠ 0#64) slot hslot mk
      (List.mem_cons_of_mem skipMark hmk)
    rw [counted, text]
    by_cases hfree : cfg.fi_mode = .Phys ∧ arch = -2
    · rw [decide_eq_true hfree] at hslot hno ⊢
      obtain rfl := List.mem_singleton.1 hslot
      exact .of_mem (s := " (Inactive/free slot)") hline hno (by simp [faultPieces]) (by decide +kernel)
    · rw [decide_eq_false hfree] at hno ⊢
      exact .of_avoids (s := "Cycle: ") hline hno (by decide +kernel)
  | lane n mask =>
    exact .of_avoids (laneLine_fits n mask) (fun mk hmk => hlane mk (List.mem_cons_of_mem _ hmk)) (by decide +kernel)
  | miss cycle idx val =>
    exact .of_mem (s := "] F3 trigger MISS: val=0x") (missLine_fits cycle idx val)
      (fun mk hmk => (htrace mk (List.mem_cons_of_mem _ hmk)).1) (by simp [missPieces]) (by decide +kernel)
  | poll t cycle =>
    exact .of_startsWith (pollLine_fits t cycle)
      (fun mk hmk => ((htrace mk (List.mem_cons_of_mem _ hmk)).2 _).1) (by decide +kernel)
  | final t =>
    exact .of_startsWith (finalLine_fits t)
      (fun mk hmk => ((htrace mk (List.mem_cons_of_mem _ hmk)).2 _).2) (by decide +kernel)

end PhysRegLine

namespace PhysRegLog

open PhysRegLine

variable {cfg : PhysRegConfig} {log : LogParams} {s : CHAOSPhysReg cfg} {t : PhysRegLog cfg}

/-! ### The injector behind the log -/

@[simp] theorem write_injector (log : LogParams) (t : PhysRegLog cfg) (line : String) :
    (write log t line).injector = t.injector := by
  unfold write
  split <;> rfl

@[simp] theorem probe_injector (t : PhysRegLog cfg) (free : FreeList) (slot : Slot) :
    (probe t free slot).injector = t.injector := by
  unfold probe
  split <;> rfl

theorem logFault_injector (log : LogParams) (t : PhysRegLog cfg) (free : FreeList) (now tid : Nat) (slot : Slot)
    (mask : BitVec 64) :
    (logFault log t free now tid slot mask).injector = CHAOSPhysReg.processFault t.injector tid := by
  unfold logFault
  simp

theorem processFault_injector (log : LogParams) (free : FreeList) (now : Nat) (t : PhysRegLog cfg) (tid : Nat) :
    (processFault log free now t tid).injector = CHAOSPhysReg.processFault t.injector tid := by
  unfold processFault
  dsimp only
  split
  · rfl
  · split
    · split
      · simp
      · rw [logFault_injector, probe_injector]
    · rw [logFault_injector, write_injector, probe_injector]

theorem attackThread_injector (log : LogParams) (free : FreeList) (now : Nat) (t : PhysRegLog cfg) (tid : Nat) :
    (attackThread log free now t tid).injector = CHAOSPhysReg.attackThread t.injector tid := by
  rw [attackThread, CHAOSPhysReg.attackThread, apply_ite injector, processFault_injector]

theorem attackCheck_injector (log : LogParams) (free : FreeList) (t : PhysRegLog cfg) (now : Nat) :
    (attackCheck log free t now).injector = CHAOSPhysReg.attackCheck t.injector now := by
  rw [CHAOSPhysReg.attackCheck, attackThreads,
    List.foldl_hom injector fun t tid => (attackThread_injector log free now t tid).symm]
  rfl

/-- The log does not change what the injector does. -/
theorem run_injector (log : LogParams) (t : PhysRegLog cfg) (es : List (CHAOSPhysReg.Event × FreeList)) :
    (run log t (es.map fun e => .event e.1 e.2)).injector = CHAOSPhysReg.run t.injector (es.map Prod.fst) := by
  rw [run, CHAOSPhysReg.run, List.foldl_map, List.foldl_map]
  refine (List.foldl_hom injector fun t e => ?_).symm
  obtain ⟨e, free⟩ := e
  cases e with
  | attack =>
    dsimp only [step, CHAOSPhysReg.step]
    cases t.injector.attackEvent with
    | none => rfl
    | some p =>
      dsimp only
      rw [apply_ite injector, attackCheck_injector]
  | _ => rfl

/-! ### The two counts -/

def vectorFaults (s : CHAOSPhysReg cfg) : Nat := s.injections.countP fun f => decide (f.slot.1 = .VecRegClass)

/-- The lines are known, and those that the runner counts make up, with the faults in free registers, the counter of the
injector and the faults in vector registers. -/
def Records (log : LogParams) (t : PhysRegLog cfg) : Prop :=
  ∃ ls : List (PhysRegLine cfg), t.lines = ls.map (text log) ∧
    ls.countP counted + t.freeFaults = t.injector.numFaultsInjected + vectorFaults t.injector

theorem Records.append (h : Records log t) {t' : PhysRegLog cfg} (ls : List (PhysRegLine cfg))
    (hlines : t'.lines = t.lines ++ ls.map (text log))
    (hcount : ls.countP counted + t'.freeFaults + (t.injector.numFaultsInjected + vectorFaults t.injector) =
      t.freeFaults + (t'.injector.numFaultsInjected + vectorFaults t'.injector)) : Records log t' := by
  obtain ⟨ls', hls', hcount'⟩ := h
  refine ⟨ls' ++ ls, by rw [hlines, hls', List.map_append], ?_⟩
  rw [List.countP_append]
  omega

def SameFaults (s s' : CHAOSPhysReg cfg) : Prop :=
  s'.numFaultsInjected = s.numFaultsInjected ∧ s'.injections = s.injections

theorem Records.of_sameFaults (h : Records log t) (hsame : SameFaults t.injector s) :
    Records log { t with injector := s } := by
  refine h.append [] (by simp) ?_
  simp [vectorFaults, hsame.1, hsame.2]

/-- What the log has of an attack on a thread: one line for each fault, a second one for its lane. -/
def weight (s : CHAOSPhysReg cfg) (tid : Nat) : Nat :=
  match (chooseTarget s tid).1 with
  | none => 0
  | some (.scalar cls, idx) => if triggerMiss cfg (s.regFile.reg cls idx) then 0 else 1
  | some (.VecRegClass, _) => 2

theorem finish_faults (s : CHAOSPhysReg cfg) (key : Nat × Nat) (ty : FaultType) (mask : BitVec 64)
    (r : PhysRegFile cfg.vecRegBytes) (f : Injected) :
    let s' := finish { countFault s key ty mask with regFile := r } f
    s'.numFaultsInjected = s.numFaultsInjected + 1 ∧
    vectorFaults s' = vectorFaults s + if f.slot.1 = .VecRegClass then 1 else 0 := by
  have hsame : SameFaults s (countFault s key ty mask) := by cases ty <;> exact ⟨rfl, rfl⟩
  refine ⟨congrArg (· + 1) hsame.1, ?_⟩
  simp [vectorFaults, finish, hsame.2, List.countP_append, List.countP_singleton]

theorem processFault_faults (s : CHAOSPhysReg cfg) (tid : Nat) :
    (CHAOSPhysReg.processFault s tid).numFaultsInjected + vectorFaults (CHAOSPhysReg.processFault s tid) =
      s.numFaultsInjected + vectorFaults s + weight s tid := by
  unfold CHAOSPhysReg.processFault weight
  dsimp only
  cases (chooseTarget s tid).1 with
  | none => rfl
  | some slot =>
    obtain ⟨cls | _, idx⟩ := slot
    · dsimp only [injectScalar]
      by_cases hmiss : triggerMiss cfg (s.regFile.reg cls idx)
      · rw [if_pos (show triggerMiss cfg (PhysRegFile.getReg _ cls idx).1 from hmiss), if_pos hmiss]
        rfl
      · rw [if_neg (show ¬triggerMiss cfg (PhysRegFile.getReg _ cls idx).1 from hmiss), if_neg hmiss]
        obtain ⟨hnum, hvec⟩ := finish_faults { s with rng := (drawMask cfg (chooseTarget s tid).2).2 } (tid, idx)
          (chosenType cfg) (drawMask cfg (chooseTarget s tid).2).1 _ _
        rw [hnum, hvec]
        simp [vectorFaults]
        omega
    · dsimp only [injectVector]
      obtain ⟨hnum, hvec⟩ := finish_faults
        { s with rng := (chooseLane cfg (drawMask cfg (chooseTarget s tid).2).2).2 } (tid, idx) (chosenType cfg)
        (drawMask cfg (chooseTarget s tid).2).1 _ _
      rw [hnum, hvec]
      simp [vectorFaults]
      omega

theorem write_lines (hlog : log.Readable) (t : PhysRegLog cfg) (line : String) :
    (write log t line).lines = t.lines ++ [line] ∧ (write log t line).freeFaults = t.freeFaults := by
  simp [write, hlog.write_log]

theorem probe_lines (t : PhysRegLog cfg) (free : FreeList) (slot : Slot) :
    (probe t free slot).lines = t.lines ∧ (probe t free slot).freeFaults = t.freeFaults := by
  unfold probe
  split <;> exact ⟨rfl, rfl⟩

theorem chosenArch_eq_iff (hmode : cfg.fi_mode = .Phys) (s : CHAOSPhysReg cfg) (free : FreeList) (tid : Nat)
    (slot : Slot) : chosenArch s free tid slot = -2 ↔ free.isFree slot = true := by
  unfold chosenArch
  rw [if_pos hmode]
  cases free.isFree slot with
  | true => simp
  | false =>
    simp only [Bool.false_eq_true, ↓reduceIte, iff_false]
    split
    · split <;> omega
    · omega

theorem logFault_lines (hlog : log.Readable) (t : PhysRegLog cfg) (free : FreeList) (now tid : Nat) (slot : Slot)
    (mask : BitVec 64) :
    ∃ l : PhysRegLine cfg, (logFault log t free now tid slot mask).lines = t.lines ++ [l.text log] ∧
      [l].countP counted + (logFault log t free now tid slot mask).freeFaults = t.freeFaults + 1 := by
  have hfree : (cfg.fi_mode = .Phys ∧ chosenArch t.injector free tid slot = -2) ↔
      (cfg.fi_mode = .Phys ∧ free.isFree slot = true) :=
    and_congr_right fun hmode => chosenArch_eq_iff hmode t.injector free tid slot
  refine ⟨.fault (cfg.curCycle now) tid slot (chosenArch t.injector free tid slot) (chosenType cfg) mask
    t.free_list_size_at_inject, (write_lines hlog _ _).1, ?_⟩
  rw [logFault, (write_lines hlog _ _).2, List.countP_singleton, counted]
  by_cases hf : cfg.fi_mode = .Phys ∧ free.isFree slot = true
  · simp [hf, hfree.2 hf]
  · rw [decide_eq_false fun h => hf (hfree.1 h), if_neg hf]
    exact Nat.add_comm 1 _

theorem Records.processFault (hlog : log.Readable) (free : FreeList) (now : Nat) (h : Records log t) (tid : Nat) :
    Records log (processFault log free now t tid) := by
  have hinj := processFault_injector log free now t tid
  have hfaults := processFault_faults t.injector tid
  rw [← hinj, weight] at hfaults
  unfold PhysRegLog.processFault at hfaults ⊢
  dsimp only at hfaults ⊢
  cases htarget : (chooseTarget t.injector tid).1 with
  | none =>
    simp only [htarget] at hfaults
    exact h.append [] (by simp) (by simp; omega)
  | some slot =>
    obtain ⟨hlines, hfree⟩ := probe_lines t free slot
    obtain ⟨cls | _, idx⟩ := slot
    · simp only [htarget, probe_injector] at hfaults ⊢
      by_cases hmiss : triggerMiss cfg (t.injector.regFile.reg cls idx)
      · simp only [if_pos hmiss] at hfaults ⊢
        refine h.append [.miss (cfg.curCycle now) idx (t.injector.regFile.reg cls idx)] ?_ ?_
        · rw [(write_lines hlog _ _).1, hlines]
          rfl
        · rw [hfaults, (write_lines hlog _ _).2, List.countP_singleton]
          simp [counted, hfree]
      · simp only [if_neg hmiss] at hfaults ⊢
        obtain ⟨l, hl, hcount⟩ := logFault_lines hlog (probe t free (.scalar cls, idx)) free now tid (.scalar cls, idx)
          (drawMask cfg (chooseTarget t.injector tid).2).1
        refine h.append [l] (by rw [hl, hlines, List.map_singleton]) ?_
        rw [hfree] at hcount
        omega
    · simp only [htarget] at hfaults ⊢
      obtain ⟨l, hl, hcount⟩ := logFault_lines hlog (write log (probe t free (.VecRegClass, idx)) (laneLine cfg
        (chooseLane cfg (drawMask cfg (chooseTarget t.injector tid).2).2).1 (drawMask cfg (chooseTarget t.injector tid).2).1))
        free now tid (.VecRegClass, idx) (drawMask cfg (chooseTarget t.injector tid).2).1
      rw [(write_lines hlog _ _).1, hlines] at hl
      rw [(write_lines hlog _ _).2, hfree] at hcount
      refine h.append [.lane _ _, l] (by rw [hl, List.append_assoc]; rfl) ?_
      rw [List.countP_cons, counted, if_pos rfl]
      omega

theorem reschedule_sameFaults (s : CHAOSPhysReg cfg) (now : Nat) : SameFaults s (reschedule s now) := by
  unfold reschedule
  dsimp only
  repeat' split
  all_goals exact ⟨rfl, rfl⟩

theorem step_sameFaults (s : CHAOSPhysReg cfg) {e : CHAOSPhysReg.Event} (he : e ≠ .attack) :
    SameFaults s (CHAOSPhysReg.step s e) := by
  have hcheck : ∀ (s : CHAOSPhysReg cfg) (now : Nat), SameFaults s (checkPermanent s now) := by
    intro s now
    refine List.foldlRecOn (motive := SameFaults s) _ (checkEntry now) ⟨rfl, rfl⟩ fun t ht e _ => ?_
    unfold checkEntry
    split <;> exact ht
  cases e with
  | attack => exact absurd rfl he
  | check =>
    dsimp only [CHAOSPhysReg.step]
    split
    · exact ⟨rfl, rfl⟩
    · split
      · exact ⟨rfl, rfl⟩
      · exact hcheck _ _
  | op op => exact ⟨rfl, rfl⟩
  | rename front commit => exact ⟨rfl, rfl⟩
  | setHalted tid halted => exact ⟨rfl, rfl⟩

theorem Records.write (hlog : log.Readable) (h : Records log t) (l : PhysRegLine cfg) (hl : l.counted = false) :
    Records log (write log t (l.text log)) := by
  refine h.append [l] (write_lines hlog t _).1 ?_
  rw [write_injector, (write_lines hlog t _).2]
  simp [hl]

theorem Records.readTraceCheck (hlog : log.Readable) (h : Records log t) (now : Nat) :
    Records log (readTraceCheck log t now) := by
  unfold PhysRegLog.readTraceCheck
  obtain ⟨t', ht', hrecords⟩ : ∃ t' : PhysRegLog cfg, t' =
      (if t.injector.regFile.trace_overwritten && !t.overwrite_recorded then
        { t with overwritten_at_cycle := cfg.curCycle now, overwrite_recorded := true }
      else t) ∧ Records log t' := by
    refine ⟨_, rfl, ?_⟩
    split <;> exact h
  dsimp only
  rw [← ht']
  have hpoll := hrecords.write hlog (.poll t' (cfg.curCycle now)) rfl
  split
  · exact hpoll
  · exact (hpoll.write hlog (.final _) rfl).of_sameFaults ⟨rfl, rfl⟩

theorem Records.step (hlog : log.Readable) (h : Records log t) (e : LogEvent) : Records log (step log t e) := by
  cases e with
  | poll now => exact h.readTraceCheck hlog now
  | event e free =>
    cases e with
    | attack =>
      dsimp only [PhysRegLog.step]
      split
      · exact h
      · rename_i p _
        have hnone : Records log { t with injector := { t.injector with attackEvent := none } } :=
          h.of_sameFaults ⟨rfl, rfl⟩
        split
        · exact hnone
        · have hthreads : Records log ((List.range cfg.numThreads).foldl (attackThread log free p.tick)
              { t with injector := { t.injector with attackEvent := none } }) := by
            refine List.foldlRecOn (motive := Records log) _ _ hnone fun t ht tid _ => ?_
            unfold attackThread
            split
            · exact ht.processFault hlog free p.tick tid
            · exact ht
          exact hthreads.of_sameFaults (reschedule_sameFaults _ _)
    | _ => exact h.of_sameFaults (step_sameFaults _ (by simp))

def init (cfg : PhysRegConfig) (reg : ScalarClass → Nat → BitVec 64) (vecReg : Nat → Nat → BitVec 8)
    (draw : Nat → Nat) : PhysRegLog cfg := { injector := CHAOSPhysReg.init cfg reg vecReg draw }

theorem run_records (hlog : log.Readable) (reg : ScalarClass → Nat → BitVec 64) (vecReg : Nat → Nat → BitVec 8)
    (draw : Nat → Nat) (es : List LogEvent) : Records log (run log (init cfg reg vecReg draw) es) :=
  List.foldlRecOn (motive := Records log) es (step log) ⟨[], rfl, rfl⟩ fun _ h e _ => h.step hlog e

theorem lines_counts (hlog : log.Readable) (ls : List (PhysRegLine cfg)) :
    Counts (ls.map (text log)) (ls.countP counted) := by
  induction ls using List.reverseRecOn with
  | nil => exact Counts.nil
  | append_singleton ls l ih =>
    rw [List.map_append, List.countP_append, List.map_singleton, List.countP_singleton]
    have hcounts := ih.concat (text_adds hlog l)
    cases hl : l.counted with
    | true => simpa [hl] using hcounts
    | false => simpa [hl] using hcounts

theorem count_run (hlog : log.Readable) (reg : ScalarClass → Nat → BitVec 64) (vecReg : Nat → Nat → BitVec 8)
    (draw : Nat → Nat) (es : List LogEvent) :
    countLog "fault_injections.log" (logText (run log (init cfg reg vecReg draw) es).lines) +
        (run log (init cfg reg vecReg draw) es).freeFaults =
      (run log (init cfg reg vecReg draw) es).injector.numFaultsInjected +
        vectorFaults (run log (init cfg reg vecReg draw) es).injector := by
  obtain ⟨ls, hls, hcount⟩ := @run_records cfg log hlog reg vecReg draw es
  rw [hls, (lines_counts hlog ls).countLog]
  exact_mod_cast hcount

end PhysRegLog

end GemFI.Reg
