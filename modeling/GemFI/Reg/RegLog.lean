import GemFI.Reg.CHAOSReg
import GemFI.Reg.PhysRegLog

/-!
# The log of CHAOSReg

The injector with the lines it writes to `fault_injections.log`: one for each fault, one for a directed register, and one
for the zero register, which is not attacked.  Here the runner counts what the injector counts (`RegLog.count_run`).

The exceptions that are reported in the log are left out, as they are in the injector.
-/

namespace GemFI.Reg

open Mem (Rng FaultType)
open Text Tools CHAOSReg

structure RegLog (cfg : RegConfig) where
  injector : CHAOSReg cfg
  lines : List String := []

def ScalarClass.className : ScalarClass → String
  | .IntRegClass => "integer"
  | .FloatRegClass => "floating_point"

namespace RegLog

variable {cfg : RegConfig}

/-! ### The lines -/

def line (cpu_name : String) (cycle tid : Nat) (fields : List String) : String :=
  ",".intercalate
    (["Cycle: " ++ toString cycle, " CPU: " ++ cpu_name, " Thread: " ++ toString tid] ++ fields)

def directedFields (cls : ScalarClass) (idx : Nat) : List String :=
  [" DIRECTED reg: " ++ cls.className ++ "[" ++ toString idx ++ "]"]

def zeroFields (cls : ScalarClass) (idx : Nat) : List String :=
  [" Register: " ++ cls.className ++ "[" ++ toString idx ++ "] (XZR: architecturally discarded write -> Inactive)"]

def faultFields (cls : ScalarClass) (idx : Nat) (ty : FaultType) (mask : BitVec 64) : List String :=
  [" Register: " ++ cls.className ++ "[" ++ toString idx ++ "]", " FaultType: " ++ faultTypeToString ty,
    " Mask: 0x" ++ hex mask.toNat, " Width: 64"]

/-! ### The handlers -/

def write (log : LogParams) (t : RegLog cfg) (line : String) : RegLog cfg :=
  if log.write_log then { t with lines := t.lines ++ [line] } else t

def Directed (cfg : RegConfig) (tid : Nat) (cls : ScalarClass) : Prop :=
  0 ≤ cfg.target_reg_idx ∧ cfg.target_reg_idx < cfg.numRegs tid cls

instance (tid : Nat) (cls : ScalarClass) : Decidable (Directed cfg tid cls) := inferInstanceAs (Decidable (_ ∧ _))

def processFault (log : LogParams) (now : Nat) (t : RegLog cfg) (tid : Nat) : RegLog cfg :=
  let s := t.injector
  let t := { t with injector := CHAOSReg.processFault s tid }
  if !cfg.hasContext tid || !cfg.hasIsa tid then t
  else
    let cls := chooseClass cfg tid s.rng
    match cls.1 with
    | none => t
    | some c =>
      let reg := chooseReg cfg tid c cls.2
      let text := line log.cpu_name (cfg.curCycle now) tid
      let t := if Directed cfg tid c then write log t (text (directedFields c reg.1)) else t
      let mask := drawMask s reg.2
      -- this line is written in any case
      if c = .IntRegClass ∧ reg.1 = 31 then { t with lines := t.lines ++ [text (zeroFields c reg.1)] }
      else
        let ty := cfg.fault_type_enum.choose cfg.random_fault_distribution mask.2
        write log t (text (faultFields c reg.1 ty.1 mask.1))

def attackThread (log : LogParams) (now : Nat) (t : RegLog cfg) (tid : Nat) : RegLog cfg :=
  if attacked t.injector tid then processFault log now t tid else t

def attackCheck (log : LogParams) (t : RegLog cfg) (now : Nat) : RegLog cfg :=
  let t := (List.range cfg.numThreads).foldl (attackThread log now) t
  { t with injector := reschedule t.injector now }

def step (log : LogParams) (t : RegLog cfg) : CHAOSReg.Event → RegLog cfg
  | .attack =>
    match t.injector.attackEvent with
    | none => t
    | some p =>
      let t := { t with injector := { t.injector with attackEvent := none } }
      if p.squashed then t else attackCheck log t p.tick
  | e => { t with injector := CHAOSReg.step t.injector e }

def run (log : LogParams) (t : RegLog cfg) (es : List CHAOSReg.Event) : RegLog cfg := es.foldl (step log) t

def init (cfg : RegConfig) (regs : Nat × RegId → BitVec 64) (draw : Nat → Nat) : RegLog cfg :=
  { injector := CHAOSReg.init cfg regs draw }

/-! ### What the runner makes of the lines -/

variable {cpu_name : String} {log : LogParams}

def linePieces (fields : List (List Piece)) : List Piece :=
  [.lit ","].intercalate ([[.lit "Cycle: ", .number], [.lit " CPU: ", .name], [.lit " Thread: ", .number]] ++ fields)

def directedPieces : List (List Piece) := [[.lit " DIRECTED reg: ", .name, .lit "[", .number, .lit "]"]]

def zeroPieces : List (List Piece) :=
  [[.lit " Register: ", .name, .lit "[", .number, .lit "] (XZR: architecturally discarded write -> Inactive)"]]

def faultPieces : List (List Piece) :=
  [[.lit " Register: ", .name, .lit "[", .number, .lit "]"], [.lit " FaultType: ", .name], [.lit " Mask: 0x", .number],
    [.lit " Width: 64"]]

theorem pieces_table : (∀ mk ∈ phrases, mayOccur (linePieces faultPieces) mk = false) ∧
    ∀ mk ∈ countPhrases, mayOccur (linePieces directedPieces) mk = false ∧ mayOccur (linePieces zeroPieces) mk = false := by
  decide +kernel

theorem className_avoids (cls : ScalarClass) : Avoids phrases cls.className.toList := by
  cases cls <;> decide +kernel

theorem line_fits (hcpu : Avoids phrases cpu_name.toList) (cycle tid : Nat) {fields : List String}
    {pss : List (List Piece)} (h : List.Forall₂ (Fits phrases) pss (fields.map String.toList)) :
    Fits phrases (linePieces pss) (line cpu_name cycle tid fields).toList := by
  rw [line, String.toList_intercalate, List.map_append]
  refine Fits.intercalate "," (List.rel_append (.cons ?_ (.cons ?_ (.cons ?_ .nil))) h)
  all_goals
    apply Fits.of_append_nil
    rw [String.toList_append, List.append_assoc]
  · exact .lit _ (.nat _ .nil)
  · exact .lit _ (.name hcpu .nil)
  · exact .lit _ (.nat _ .nil)

theorem directedLine_adds (hcpu : Avoids phrases cpu_name.toList) (cycle tid : Nat) (cls : ScalarClass) (idx : Nat) :
    Adds (line cpu_name cycle tid (directedFields cls idx)) 0 := by
  have hfields : List.Forall₂ (Fits phrases) directedPieces ((directedFields cls idx).map String.toList) := by
    refine .cons (.of_append_nil ?_) .nil
    simp only [String.toList_append, List.append_assoc]
    exact .lit _ (.name (className_avoids cls) (.lit _ (.nat _ (.lit _ .nil))))
  exact .of_mem (s := " DIRECTED reg: ") (line_fits hcpu cycle tid hfields) (fun mk hmk => (pieces_table.2 mk hmk).1)
    (by simp [linePieces, directedPieces]) (by decide +kernel)

theorem zeroLine_adds (hcpu : Avoids phrases cpu_name.toList) (cycle tid : Nat) (cls : ScalarClass) (idx : Nat) :
    Adds (line cpu_name cycle tid (zeroFields cls idx)) 0 := by
  have hfields : List.Forall₂ (Fits phrases) zeroPieces ((zeroFields cls idx).map String.toList) := by
    refine .cons (.of_append_nil ?_) .nil
    simp only [String.toList_append, List.append_assoc]
    exact .lit _ (.name (className_avoids cls) (.lit _ (.nat _ (.lit _ .nil))))
  exact .of_mem (s := "] (XZR: architecturally discarded write -> Inactive)") (line_fits hcpu cycle tid hfields)
    (fun mk hmk => (pieces_table.2 mk hmk).2) (by simp [linePieces, zeroPieces]) (by decide +kernel)

theorem faultLine_adds (hcpu : Avoids phrases cpu_name.toList) (cycle tid : Nat) (cls : ScalarClass) (idx : Nat)
    (ty : FaultType) (mask : BitVec 64) : Adds (line cpu_name cycle tid (faultFields cls idx ty mask)) 1 := by
  have hfields : List.Forall₂ (Fits phrases) faultPieces ((faultFields cls idx ty mask).map String.toList) := by
    refine .cons (.of_append_nil ?_) (.cons (.of_append_nil ?_) (.cons (.of_append_nil ?_)
      (.cons (.of_append_nil (.lit _ .nil)) .nil)))
    all_goals simp only [String.toList_append, List.append_assoc]
    · exact .lit _ (.name (className_avoids cls) (.lit _ (.nat _ (.lit _ .nil))))
    · exact .lit _ (.name (fun mk hmk => PhysRegLine.names_avoid.2.2 ty mk (List.mem_cons_of_mem _ hmk)) .nil)
    · exact .lit _ (.hex _ .nil)
  exact .of_avoids (s := "Cycle: ") (line_fits hcpu cycle tid hfields) pieces_table.1 (by decide +kernel)

/-! ### The injector behind the log -/

theorem processFault_injector (log : LogParams) (now : Nat) (t : RegLog cfg) (tid : Nat) :
    (processFault log now t tid).injector = CHAOSReg.processFault t.injector tid := by
  have hwrite : ∀ (t : RegLog cfg) (line : String), (write log t line).injector = t.injector := by
    intro t line
    unfold write
    split <;> rfl
  unfold processFault
  dsimp only
  split
  · rfl
  · split
    · rfl
    · have hdirected : ∀ (t : RegLog cfg) (line : String) (c : ScalarClass),
          (if Directed cfg tid c then write log t line else t).injector = t.injector := by
        intro t line c
        split
        · exact hwrite t line
        · rfl
      split
      · exact hdirected _ _ _
      · rw [hwrite, hdirected]

theorem attackThread_injector (log : LogParams) (now : Nat) (t : RegLog cfg) (tid : Nat) :
    (attackThread log now t tid).injector = CHAOSReg.attackThread t.injector tid := by
  rw [attackThread, CHAOSReg.attackThread, apply_ite injector, processFault_injector]

theorem attackCheck_injector (log : LogParams) (t : RegLog cfg) (now : Nat) :
    (attackCheck log t now).injector = CHAOSReg.attackCheck t.injector now := by
  rw [CHAOSReg.attackCheck, attackThreads, List.foldl_hom injector fun t tid => (attackThread_injector log now t tid).symm]
  rfl

theorem run_injector (log : LogParams) (t : RegLog cfg) (es : List CHAOSReg.Event) :
    (run log t es).injector = es.foldl CHAOSReg.step t.injector := by
  refine (List.foldl_hom injector fun t e => ?_).symm
  cases e with
  | attack =>
    dsimp only [step, CHAOSReg.step]
    cases t.injector.attackEvent with
    | none => rfl
    | some p =>
      dsimp only
      rw [apply_ite injector, attackCheck_injector]
  | _ => rfl

/-! ### The two counts -/

def Balanced (t : RegLog cfg) : Prop := Counts t.lines t.injector.numFaultsInjected

theorem write_lines (hlog : log.Readable) (t : RegLog cfg) (line : String) :
    (write log t line).lines = t.lines ++ [line] := by
  simp [write, hlog.write_log]

theorem processFault_balanced (hlog : log.Readable) (now : Nat) {t : RegLog cfg} (h : Balanced t) (tid : Nat) :
    Balanced (processFault log now t tid) := by
  have hinj := processFault_injector log now t tid
  unfold Balanced at h ⊢
  rw [hinj]
  unfold processFault CHAOSReg.processFault
  dsimp only
  by_cases hcontext : (!cfg.hasContext tid || !cfg.hasIsa tid) = true
  · rw [if_pos hcontext, if_pos hcontext]
    exact h
  · rw [if_neg hcontext, if_neg hcontext]
    cases hcls : (chooseClass cfg tid t.injector.rng).1 with
    | none => exact h
    | some c =>
      dsimp only
      -- the line of a directed register comes first and does not count
      have hdirected : ∀ s : CHAOSReg cfg, Counts
          (if Directed cfg tid c then
            write log { t with injector := s } (line log.cpu_name (cfg.curCycle now) tid
              (directedFields c (chooseReg cfg tid c (chooseClass cfg tid t.injector.rng).2).1))
          else { t with injector := s }).lines t.injector.numFaultsInjected := by
        intro s
        split
        · rw [write_lines hlog]
          simpa using h.concat (directedLine_adds hlog.cpu_name (cfg.curCycle now) tid c _)
        · exact h
      split
      · simpa using (hdirected _).concat (zeroLine_adds hlog.cpu_name (cfg.curCycle now) tid c _)
      · rw [write_lines hlog]
        exact (hdirected _).concat (faultLine_adds hlog.cpu_name (cfg.curCycle now) tid c _ _ _)

theorem reschedule_numFaultsInjected (s : CHAOSReg cfg) (now : Nat) :
    (reschedule s now).numFaultsInjected = s.numFaultsInjected := by
  unfold reschedule
  dsimp only
  repeat' split
  all_goals rfl

theorem checkPermanent_numFaultsInjected (s : CHAOSReg cfg) (now : Nat) :
    (checkPermanent s now).numFaultsInjected = s.numFaultsInjected := by
  refine List.foldlRecOn (motive := fun t : CHAOSReg cfg => t.numFaultsInjected = s.numFaultsInjected) _ _ rfl ?_
  intro t ht e _
  unfold checkEntry
  split <;> exact ht

theorem step_balanced (hlog : log.Readable) {t : RegLog cfg} (h : Balanced t) (e : CHAOSReg.Event) :
    Balanced (step log t e) := by
  cases e with
  | attack =>
    dsimp only [step]
    split
    · exact h
    · rename_i p _
      split
      · exact h
      · have hthreads : @Balanced cfg ((List.range cfg.numThreads).foldl (attackThread log p.tick)
            { t with injector := { t.injector with attackEvent := none } }) := by
          refine List.foldlRecOn (motive := Balanced) _ _ h fun t ht tid _ => ?_
          unfold attackThread
          split
          · exact processFault_balanced hlog p.tick ht tid
          · exact ht
        unfold Balanced attackCheck
        rw [reschedule_numFaultsInjected]
        exact hthreads
  | check =>
    unfold Balanced
    dsimp only [step, CHAOSReg.step]
    split
    · exact h
    · split
      · exact h
      · rw [checkPermanent_numFaultsInjected]
        exact h
  | write key val => exact h
  | setPc tid pc => exact h
  | setHalted tid halted => exact h

theorem run_balanced (hlog : log.Readable) (regs : Nat × RegId → BitVec 64) (draw : Nat → Nat)
    (es : List CHAOSReg.Event) : Balanced (run log (init cfg regs draw) es) := by
  refine List.foldlRecOn (motive := Balanced) es (step log) ?_ fun t ht e _ => step_balanced hlog ht e
  exact Counts.nil

theorem count_run (hlog : log.Readable) (regs : Nat × RegId → BitVec 64) (draw : Nat → Nat) (es : List CHAOSReg.Event) :
    countLog "fault_injections.log" (logText (run log (init cfg regs draw) es).lines) =
      (run log (init cfg regs draw) es).injector.numFaultsInjected :=
  (run_balanced hlog regs draw es).countLog

end RegLog

def runnerCount (files : String → Option String) (lines : List String) : Int :=
  count_faults (Function.update files "fault_injections.log" (some (logText lines)))

theorem runnerCount_eq (files : String → Option String) (lines : List String) :
    runnerCount files lines = countLog "fault_injections.log" (logText lines) :=
  count_faults_of_first (Function.update_self ..)

/-- For faults in registers that are not free, the runner counts what CHAOSPhysReg counts just if none of them is in a
vector register.  It always counts what CHAOSReg counts. -/
theorem runnerCount_eq_numFaultsInjected_iff {log : LogParams} (hlog : log.Readable) (files : String → Option String)
    (cfg : PhysRegConfig) (reg : ScalarClass → Nat → BitVec 64) (vecReg : Nat → Nat → BitVec 8) (draw : Nat → Nat)
    (es : List PhysRegLog.LogEvent) (hfree : (PhysRegLog.run log (.init cfg reg vecReg draw) es).freeFaults = 0)
    (cfg' : RegConfig) (regs : Nat × RegId → BitVec 64) (draw' : Nat → Nat) (es' : List CHAOSReg.Event) :
    let t := PhysRegLog.run log (.init cfg reg vecReg draw) es
    let u := RegLog.run log (.init cfg' regs draw') es'
    (runnerCount files t.lines = t.injector.numFaultsInjected ↔ PhysRegLog.vectorFaults t.injector = 0) ∧
    runnerCount files u.lines = u.injector.numFaultsInjected := by
  intro t u
  have hcount : countLog "fault_injections.log" (logText t.lines) + t.freeFaults =
      t.injector.numFaultsInjected + PhysRegLog.vectorFaults t.injector :=
    PhysRegLog.count_run hlog reg vecReg draw es
  rw [show t.freeFaults = 0 from hfree] at hcount
  refine ⟨?_, ?_⟩
  · rw [runnerCount_eq]
    constructor
    · intro heq
      have hzero : (PhysRegLog.vectorFaults t.injector : Int) = 0 := by omega
      exact_mod_cast hzero
    · intro hzero
      have hvector : (PhysRegLog.vectorFaults t.injector : Int) = 0 := by exact_mod_cast hzero
      omega
  · rw [runnerCount_eq]
    exact RegLog.count_run hlog regs draw' es'

def oneCpu : LogParams := { cpu_name := "system.cpu", semantic_role := "", write_log := true }

theorem oneCpu_readable : oneCpu.Readable := ⟨rfl, by decide +kernel, by decide +kernel⟩

def allInUse : FreeList := { isFree := fun _ => false, numFreeRegs := fun _ => 0 }

/-- One fault in an integer register, for each of the two injectors. -/
theorem runnerCount_integer :
    let t := PhysRegLog.run oneCpu (.init fourRegs (fun _ _ => 0) (fun _ _ => 0) fun _ => 0) [.event .attack allInUse]
    let u := RegLog.run oneCpu (.init (oneThread 0) (fun _ => 0) fun _ => 0) [.attack]
    t.injector.numFaultsInjected = 1 ∧ runnerCount (fun _ => none) t.lines = t.injector.numFaultsInjected ∧
    u.injector.numFaultsInjected = 1 ∧ runnerCount (fun _ => none) u.lines = u.injector.numFaultsInjected := by
  intro t u
  have hcount := runnerCount_eq_numFaultsInjected_iff oneCpu_readable (fun _ => none) fourRegs (fun _ _ => 0)
    (fun _ _ => 0) (fun _ => 0) [.event .attack allInUse] (by decide) (oneThread 0) (fun _ => 0) (fun _ => 0) [.attack]
  exact ⟨by decide, hcount.1.2 (by decide), by decide, hcount.2⟩

/-- One fault in a vector register that is in use: the injector counts 1 and the runner 2. -/
theorem runnerCount_vector :
    let t := PhysRegLog.run oneCpu
      (.init { fourRegs with reg_target_class := .Vector } (fun _ _ => 0) (fun _ _ => 0) fun _ => 0)
      [.event .attack allInUse]
    t.freeFaults = 0 ∧ t.injector.numFaultsInjected = 1 ∧ runnerCount (fun _ => none) t.lines = 2 := by
  intro t
  have hfree : t.freeFaults = 0 := by decide
  have hnum : t.injector.numFaultsInjected = 1 := by decide
  have hvector : PhysRegLog.vectorFaults t.injector = 1 := by decide
  have hcount : countLog "fault_injections.log" (logText t.lines) + t.freeFaults =
      t.injector.numFaultsInjected + PhysRegLog.vectorFaults t.injector :=
    PhysRegLog.count_run oneCpu_readable (fun _ _ => 0) (fun _ _ => 0) (fun _ => 0) [.event .attack allInUse]
  rw [hfree, hnum, hvector] at hcount
  refine ⟨hfree, hnum, ?_⟩
  rw [runnerCount_eq]
  omega

end GemFI.Reg
