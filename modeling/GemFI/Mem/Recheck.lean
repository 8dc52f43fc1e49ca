import GemFI.Lib.Clock
import GemFI.Mem.CHAOSCache
import GemFI.Mem.CHAOSMem

/-!
# Repeated checks

Both injectors schedule a first check of their stuck-at faults.  In CHAOSMem the check schedules the next one, so as long
as there is a fault a check is due within a period, and it forces the stuck bits again.  In CHAOSCache it does not: the
first check is the only one, and after it nothing applies the faults of the resident blocks again (`rechecked_iff`).
-/

namespace GemFI.Mem

/-- A check is due, not earlier than now and within a period. -/
def CheckDue (periodicCheck : Option Nat) (now period : Nat) : Prop :=
  ∃ t, periodicCheck = some t ∧ now ≤ t ∧ t ≤ now + period

/-! ### The memory -/

namespace CHAOSMem

variable {cfg : MemConfig}

def timing (cfg : MemConfig) : Timing (CHAOSMem cfg) Event where
  step := step
  enabled s now
    | .attack => s.attackEvent = some now
    | .check => s.periodicCheck = some now
    | .write _ _ => true
  due s now := s.attackEvent = some now ∨ s.periodicCheck = some now

/-- For each recorded fault a check is due within a period, and a check applies the fault to its byte. -/
def Rechecked (x : Clocked (CHAOSMem cfg) Event) : Prop :=
  ∀ addr fault, x.state.permanent_faults.lookup addr = some fault →
    CheckDue x.state.periodicCheck x.now cfg.ticks_permament_fault_check ∧
    (step x.state .check).memory addr = fault.reapply (x.state.memory addr)

/-- No attack is before the first tick, a check is always due within a period, and checks apply all records. -/
structure OnTime (x : Clocked (CHAOSMem cfg) Event) : Prop where
  attack : ∀ t, x.state.attackEvent = some t → x.now ≤ t ∧ cfg.first_tick ≤ t
  check : ∃ t, x.state.periodicCheck = some t ∧ x.now ≤ t ∧
    t ≤ max x.now cfg.first_tick + cfg.ticks_permament_fault_check
  fault : ∀ addr fault, x.state.permanent_faults.lookup addr = some fault → cfg.first_tick ≤ x.now
  updating : Updating x.state.permanent_faults

variable {now : Nat} {s : CHAOSMem cfg}

private theorem step_attack_eq (hnow : s.attackEvent = some now) :
    step s .attack = attackMemory { s with attackEvent := none } now := by
  unfold step
  rw [hnow]

private theorem step_check_eq (hnow : s.periodicCheck = some now) :
    step s .check = checkPermanent { s with periodicCheck := none } now := by
  unfold step
  rw [hnow]

theorem step_attack_events (hnow : s.attackEvent = some now) :
    (step s .attack).attackEvent = nextAttack ({ s with attackEvent := none } : CHAOSMem cfg) now ∧
    (step s .attack).periodicCheck = s.periodicCheck := by
  rw [step_attack_eq hnow]
  exact attackMemory_events (s := { s with attackEvent := none }) rfl now

theorem step_attack_updating (hnow : s.attackEvent = some now)
    (h : Updating s.permanent_faults) : Updating (step s .attack).permanent_faults := by
  rw [step_attack_eq hnow, (attackMemory_spec _ now).2.1]
  exact h.record _ _ _

theorem step_check_events (hnow : s.periodicCheck = some now) :
    (step s .check).periodicCheck = some (now + cfg.ticks_permament_fault_check) ∧
    (step s .check).attackEvent = s.attackEvent ∧ (step s .check).permanent_faults = s.permanent_faults := by
  rw [step_check_eq hnow]
  obtain ⟨hcheck, hattack⟩ := checkPermanent_events (s := { s with periodicCheck := none }) rfl now
  exact ⟨hcheck, hattack, (checkPermanent_table _ now).1⟩

theorem step_check_memory (hnow : s.periodicCheck = some now)
    (h : Updating s.permanent_faults) {addr : Nat} {fault : PermanentFault}
    (hf : s.permanent_faults.lookup addr = some fault) :
    (step s .check).memory addr = fault.reapply (s.memory addr) := by
  rw [step_check_eq hnow, checkPermanent_memory]
  change ((s.permanent_faults.lookup addr).elim (s.memory addr) fun fault => fault.check (s.memory addr)) = _
  rw [hf]
  exact check_of_update (h addr fault hf) _

theorem onTime_step {x : Clocked (CHAOSMem cfg) Event} {e : Event} (h : OnTime x)
    (he : (timing cfg).enabled x.state x.now e = true) :
    OnTime ((timing cfg).take x e) := by
  obtain ⟨now, s, history⟩ := x
  cases e with
  | attack =>
    have hnow : s.attackEvent = some now := by simpa [timing] using he
    have hfirst := (h.attack now hnow).2
    obtain ⟨hattack, hcheck⟩ := step_attack_events hnow
    refine ⟨fun t ht => ?_, ?_, fun _ _ _ => hfirst, step_attack_updating hnow h.updating⟩
    · have heq := ((nextAttack_iff _ _ _).1 (hattack.symm.trans ht)).2
      dsimp only [Timing.take]
      omega
    · obtain ⟨t, ht, hle⟩ := h.check
      exact ⟨t, hcheck.trans ht, hle⟩
  | check =>
    have hnow : s.periodicCheck = some now := by simpa [timing] using he
    obtain ⟨hcheck, hattack, htable⟩ := step_check_events hnow
    refine ⟨fun t ht => h.attack t (hattack.symm.trans ht), ⟨_, hcheck, ?_, ?_⟩, fun addr fault hf => ?_,
      htable ▸ h.updating⟩
    · exact Nat.le_add_right _ _
    · exact Nat.add_le_add_right (Nat.le_max_left _ _) _
    · exact h.fault addr fault ((congrArg (AList.lookup addr) htable.symm).trans hf)
  | write addr data => exact ⟨h.attack, h.check, h.fault, h.updating⟩

theorem onTime_run (cfg : MemConfig) (memory : Nat → BitVec 8) (draw : Nat → Nat) (es : List (Option Event)) :
    OnTime ((timing cfg).run (init cfg memory draw) es) := by
  refine (timing cfg).invariant ?_ ?_ (fun x e h he => onTime_step h he) es
  · have hempty : (init cfg memory draw).permanent_faults = ∅ := rfl
    refine ⟨fun t ht => ?_, ⟨_, rfl, Nat.zero_le _, ?_⟩, fun addr fault hf => ?_, fun addr fault hf => ?_⟩
    · have heq := Option.some.inj ht
      exact ⟨Nat.zero_le _, by omega⟩
    · show cfg.first_tick + _ ≤ _
      dsimp only [Timing.start]
      omega
    · exact absurd hf (by simp [Timing.start, hempty])
    · exact absurd hf (by simp [Timing.start, hempty])
  · intro x h hdue
    simp only [timing, decide_eq_false_iff_not, not_or] at hdue
    refine ⟨fun t ht => ?_, ?_, fun addr fault hf => (h.fault addr fault hf).trans (Nat.le_succ _), h.updating⟩
    · exact (h.attack t ht).imp_left (Timing.later_of_not_due hdue.1 ht)
    · obtain ⟨t, ht, hge, hle⟩ := h.check
      refine ⟨t, ht, Timing.later_of_not_due hdue.2 ht hge, ?_⟩
      dsimp only
      omega

theorem rechecked_run (cfg : MemConfig) (memory : Nat → BitVec 8) (draw : Nat → Nat) (es : List (Option Event)) :
    Rechecked ((timing cfg).run (init cfg memory draw) es) := by
  have h := onTime_run cfg memory draw es
  intro addr fault hf
  obtain ⟨t, ht, hge, hle⟩ := h.check
  have hfirst := h.fault addr fault hf
  exact ⟨⟨t, ht, hge, by omega⟩, step_check_memory ht h.updating hf⟩

end CHAOSMem

/-! ### The cache -/

namespace CHAOSCache

variable {cfg : CacheConfig}

def timing (cfg : CacheConfig) : Timing (CHAOSCache cfg) (Event cfg) where
  step := step
  enabled s now
    | .attack => s.attackEvent = some now
    | .check => s.periodicCheck = some now
    | .writeback t _ => t = now
    | _ => true
  due s now := s.attackEvent = some now ∨ s.periodicCheck = some now

/-- For each recorded fault whose block is resident, a check is due within a period, and a check applies the fault to its
byte in the block found by address. -/
def Rechecked (x : Clocked (CHAOSCache cfg) (Event cfg)) : Prop :=
  ∀ key fault blk, x.state.permanent_faults.lookup key = some fault → x.state.cache.lastAt key.1 = some blk →
    CheckDue x.state.periodicCheck x.now cfg.ticks_permament_fault_check ∧
    (step x.state .check).cache.data blk key.2 = fault.reapply (x.state.cache.data blk key.2)

def CheckRan (x : Clocked (CHAOSCache cfg) (Event cfg)) : Prop := ∃ past ∈ x.history, past.event = .check

/-- No attack is before the first tick, there is one check, a period after it, and it applies all records. -/
structure OnTime (x : Clocked (CHAOSCache cfg) (Event cfg)) : Prop where
  attack : ∀ t, x.state.attackEvent = some t → x.now ≤ t ∧ cfg.first_tick ≤ t
  check : ∀ t, x.state.periodicCheck = some t → x.now ≤ t ∧ t = cfg.first_tick + cfg.ticks_permament_fault_check
  ran : CheckRan x ↔ x.state.periodicCheck = none
  fault : ∀ key fault, x.state.permanent_faults.lookup key = some fault → cfg.first_tick ≤ x.now
  updating : Updating x.state.permanent_faults

theorem step_frame (s : CHAOSCache cfg) {e : Event cfg} (hattack : e ≠ .attack) (hcheck : e ≠ .check) :
    (step s e).queue = s.queue ∧ (step s e).permanent_faults = s.permanent_faults := by
  cases e with
  | attack => exact absurd rfl hattack
  | check => exact absurd rfl hcheck
  | writeback now payload =>
    obtain ⟨rng, hrng | ⟨hfault, -, -⟩⟩ := chaosCorruptWriteback_spec s now payload
    · have hstep : step s (.writeback now payload) = { s with rng := rng } := hrng
      rw [hstep]
      exact ⟨rfl, rfl⟩
    · have hstep : step s (.writeback now payload) = counted _ := hfault
      rw [hstep]
      exact ⟨rfl, rfl⟩
  | fill blk key data =>
    by_cases hfill : s.cache.CanFill blk key
    · have hstep : step s (.fill blk key data) = _ := dif_pos hfill
      rw [hstep]
      exact ⟨rfl, rfl⟩
    · have hstep : step s (.fill blk key data) = s := dif_neg hfill
      rw [hstep]
      exact ⟨rfl, rfl⟩
  | invalidate blk => exact ⟨rfl, rfl⟩
  | setCoherence blk dirty writable readable => exact ⟨rfl, rfl⟩
  | store blk off value => exact ⟨rfl, rfl⟩

private theorem checkRan_take (x : Clocked (CHAOSCache cfg) (Event cfg)) (e : Event cfg) :
    CheckRan ((timing cfg).take x e) ↔ CheckRan x ∨ e = .check := by
  simp only [CheckRan, Timing.take, List.mem_append, List.mem_singleton]
  constructor
  · rintro ⟨past, hpast | rfl, he⟩
    · exact Or.inl ⟨past, hpast, he⟩
    · exact Or.inr he
  · rintro (⟨past, hpast, he⟩ | he)
    · exact ⟨past, Or.inl hpast, he⟩
    · exact ⟨_, Or.inr rfl, he⟩

variable {now : Nat} {s : CHAOSCache cfg}

private theorem step_attack_eq (hnow : s.attackEvent = some now) :
    step s .attack = injectFault { s with attackEvent := none } now := by
  unfold step
  rw [hnow]

private theorem step_check_eq (hnow : s.periodicCheck = some now) :
    step s .check = checkPermanent { s with periodicCheck := none } := by
  unfold step
  rw [hnow]

theorem step_attack_events (hnow : s.attackEvent = some now) :
    (step s .attack).attackEvent = ({ s with attackEvent := none } : CHAOSCache cfg).attacked.nextAttack now ∧
    (step s .attack).periodicCheck = s.periodicCheck := by
  rw [step_attack_eq hnow]
  exact injectFault_queue (s := { s with attackEvent := none }) rfl now

theorem step_attack_updating (hnow : s.attackEvent = some now)
    (h : Updating s.permanent_faults) : Updating (step s .attack).permanent_faults := by
  rw [step_attack_eq hnow, injectFault_eq, reschedule_permanent_faults]
  exact attacked_updating (s := { s with attackEvent := none }) h

theorem step_check_events (hnow : s.periodicCheck = some now) :
    (step s .check).attackEvent = s.attackEvent ∧ (step s .check).periodicCheck = none ∧
    (step s .check).permanent_faults = s.permanent_faults := by
  rw [step_check_eq hnow]
  obtain ⟨hattack, hcheck⟩ := Prod.mk.inj (checkPermanent_queue { s with periodicCheck := none })
  exact ⟨hattack, hcheck, (checkPermanent_table _).2⟩

theorem step_check_data (hnow : s.periodicCheck = some now)
    (h : Updating s.permanent_faults) {key : Nat × Nat} {fault : PermanentFault} {blk : Pos cfg.toGeometry}
    (hf : s.permanent_faults.lookup key = some fault) (hblk : s.cache.lastAt key.1 = some blk) :
    (step s .check).cache.data blk key.2 = fault.reapply (s.cache.data blk key.2) := by
  have haddr : s.cache.regenerateBlkAddr blk = key.1 := s.cache.lastAt_eq_some hblk
  have hrecord : ({ s with periodicCheck := none } : CHAOSCache cfg).recordAt blk key.2 = some fault := by
    show (if s.cache.lastAt (s.cache.regenerateBlkAddr blk) = some blk then
      s.permanent_faults.lookup (s.cache.regenerateBlkAddr blk, key.2) else none) = some fault
    rw [haddr, if_pos hblk]
    exact hf
  rw [step_check_eq hnow, checkPermanent_data, hrecord]
  exact check_of_update (h key fault hf) _

theorem onTime_step {x : Clocked (CHAOSCache cfg) (Event cfg)} {e : Event cfg} (h : OnTime x)
    (he : (timing cfg).enabled x.state x.now e = true) :
    OnTime ((timing cfg).take x e) := by
  obtain ⟨now, s, history⟩ := x
  have hran := checkRan_take ⟨now, s, history⟩ e
  by_cases hattack : e = .attack
  · subst hattack
    have hnow : s.attackEvent = some now := by simpa [timing] using he
    have hfirst := (h.attack now hnow).2
    obtain ⟨hnext, hkeep⟩ := step_attack_events hnow
    refine ⟨fun t ht => ?_, fun t ht => h.check t (hkeep.symm.trans ht), ?_, fun _ _ _ => hfirst,
      step_attack_updating hnow h.updating⟩
    · have heq := ((nextAttack_iff _ _ _).1 (hnext.symm.trans ht)).2
      dsimp only [Timing.take]
      omega
    · rw [hran, h.ran, or_iff_left (by simp)]
      exact (congrArg (· = none) hkeep.symm).to_iff
  · by_cases hcheck : e = .check
    · subst hcheck
      have hnow : s.periodicCheck = some now := by simpa [timing] using he
      obtain ⟨hnext, hnone, htable⟩ := step_check_events hnow
      refine ⟨fun t ht => h.attack t (hnext.symm.trans ht), fun t ht => ?_, ?_, fun key fault hf => ?_,
        htable ▸ h.updating⟩
      · exact absurd (hnone.symm.trans ht) (by simp)
      · rw [hran]
        exact ⟨fun _ => hnone, fun _ => Or.inr rfl⟩
      · exact h.fault key fault ((congrArg (AList.lookup key) htable.symm).trans hf)
    · obtain ⟨hqueue, htable⟩ := step_frame s hattack hcheck
      obtain ⟨hnext, hkeep⟩ := Prod.mk.inj hqueue
      refine ⟨fun t ht => h.attack t (hnext.symm.trans ht), fun t ht => h.check t (hkeep.symm.trans ht), ?_,
        fun key fault hf => h.fault key fault ((congrArg (AList.lookup key) htable.symm).trans hf), htable ▸ h.updating⟩
      rw [hran, h.ran, or_iff_left hcheck]
      exact (congrArg (· = none) hkeep.symm).to_iff

theorem init_queue (cfg : CacheConfig) (cache : Cache cfg.toGeometry) (draw : Nat → Nat) :
    (∀ t, (init cfg cache draw).attackEvent = some t → cfg.first_tick ≤ t) ∧
    (init cfg cache draw).periodicCheck = some (cfg.first_tick + cfg.ticks_permament_fault_check) ∧
    (init cfg cache draw).permanent_faults = ∅ := by
  unfold init
  by_cases hfield : cfg.target_field ≠ .victim
  · simp only [hfield, ne_eq, not_false_eq_true, ↓reduceIte]
    refine ⟨fun t ht => ?_, rfl, rfl⟩
    have heq := Option.some.inj ht
    omega
  · simp only [hfield, ↓reduceIte]
    exact ⟨fun t ht => absurd ht (by simp [scheduleCheckPermanentFault]), rfl, rfl⟩

theorem onTime_run (cfg : CacheConfig) (cache : Cache cfg.toGeometry) (draw : Nat → Nat)
    (es : List (Option (Event cfg))) : OnTime ((timing cfg).run (init cfg cache draw) es) := by
  refine (timing cfg).invariant ?_ ?_ (fun x e h he => onTime_step h he) es
  · obtain ⟨hattack, hcheck, htable⟩ := init_queue cfg cache draw
    refine ⟨fun t ht => ⟨Nat.zero_le _, hattack t ht⟩, fun t ht => ?_, ?_, fun key fault hf => ?_, fun key fault hf => ?_⟩
    · have heq := Option.some.inj (hcheck.symm.trans ht)
      exact ⟨Nat.zero_le _, heq.symm⟩
    · simp [CheckRan, Timing.start, hcheck]
    · exact absurd hf (by simp [Timing.start, htable])
    · exact absurd hf (by simp [Timing.start, htable])
  · intro x h hdue
    simp only [timing, decide_eq_false_iff_not, not_or] at hdue
    refine ⟨fun t ht => ?_, fun t ht => ?_, h.ran, fun key fault hf => (h.fault key fault hf).trans (Nat.le_succ _),
      h.updating⟩
    · exact (h.attack t ht).imp_left (Timing.later_of_not_due hdue.1 ht)
    · exact (h.check t ht).imp_left (Timing.later_of_not_due hdue.2 ht)

/-- No recorded fault is in a resident block. -/
def NoneResident (s : CHAOSCache cfg) : Prop :=
  ∀ key fault, s.permanent_faults.lookup key = some fault → s.cache.lastAt key.1 = none

theorem OnTime.rechecked_iff_noneResident {x : Clocked (CHAOSCache cfg) (Event cfg)} (h : OnTime x) :
    Rechecked x ↔ (CheckRan x → NoneResident x.state) := by
  constructor
  · intro hre hran key fault hf
    cases hblk : x.state.cache.lastAt key.1 with
    | none => rfl
    | some blk =>
      obtain ⟨⟨t, ht, -⟩, -⟩ := hre key fault blk hf hblk
      rw [h.ran.1 hran] at ht
      simp at ht
  · intro hcond key fault blk hf hblk
    cases hcheck : x.state.periodicCheck with
    | none =>
      rw [hcond (h.ran.2 hcheck) key fault hf] at hblk
      simp at hblk
    | some t =>
      have hfirst := h.fault key fault hf
      obtain ⟨hge, heq⟩ := h.check t hcheck
      exact ⟨⟨t, rfl, hge, by omega⟩, step_check_data hcheck h.updating hf hblk⟩

end CHAOSCache

/-! ### Both injectors -/

/-- All through a run of CHAOSMem, checks that force the bits of its stuck-at faults are due within a period.  In
CHAOSCache, where the faults are those of the resident blocks, this is so exactly if at no point of the run after
`checkPermanent` a block of a stuck-at fault is resident. -/
theorem rechecked_iff (mem : MemConfig) (memory : Nat → BitVec 8) (cfg : CacheConfig) (cache : Cache cfg.toGeometry)
    (draw : Nat → Nat) (ms : List (Option CHAOSMem.Event)) (es : List (Option (CHAOSCache.Event cfg))) :
    (∀ ms', ms' <+: ms → CHAOSMem.Rechecked ((CHAOSMem.timing mem).run (.init mem memory draw) ms')) ∧
    ((∀ es', es' <+: es → CHAOSCache.Rechecked ((CHAOSCache.timing cfg).run (.init cfg cache draw) es')) ↔
      ∀ es', es' <+: es → CHAOSCache.CheckRan ((CHAOSCache.timing cfg).run (.init cfg cache draw) es') →
        CHAOSCache.NoneResident ((CHAOSCache.timing cfg).run (.init cfg cache draw) es').state) :=
  ⟨fun ms' _ => CHAOSMem.rechecked_run mem memory draw ms',
    forall₂_congr fun es' _ => (CHAOSCache.onTime_run cfg cache draw es').rechecked_iff_noneResident⟩

/-- One line with stuck-at-one faults of bit 0 in byte 0, a budget of one, and a check in every tick. -/
def stuckLine : CacheConfig :=
  { oneBlock with
    fault_type_enum := .StuckAtOne, fault_mask := 1, target_byte_offset := 0, tick_to_clock_ratio := 1
    ticks_permament_fault_check := 1 }

def stuckPos : Pos stuckLine.toGeometry := (⟨0, by decide⟩, ⟨0, by decide⟩)

/-- The line is filled and attacked in tick 0, checked in tick 1, written, and stays resident until tick 5. -/
def stuckLineRun : List (Option (CHAOSCache.Event stuckLine)) :=
  [some (.fill stuckPos ⟨0, false⟩ fun _ => 0), some .attack, none, some .check, some (.store stuckPos 0 0),
    none, none, none, none]

/-- Up to the check the condition is met, with the fault recorded and its line resident: nothing has been checked. -/
theorem rechecked_before_check :
    let run := (CHAOSCache.timing stuckLine).run (.init stuckLine (.empty _) fun _ => 0)
    ((run (stuckLineRun.take 3)).state.permanent_faults.lookup (0, 0) = some ⟨.StuckAtOne, 1#8, true⟩ ∧
      (run (stuckLineRun.take 3)).state.cache.lastAt 0 = some stuckPos) ∧
    ∀ es', es' <+: stuckLineRun.take 3 → CHAOSCache.Rechecked (run es') := by
  intro run
  refine ⟨⟨by decide, by decide⟩, ?_⟩
  refine (rechecked_iff oneByte (fun _ => 0) stuckLine (.empty _) (fun _ => 0) [] (stuckLineRun.take 3)).2.2 ?_
  rintro es' hes' ⟨past, hpast, he⟩
  have hmem := hes'.subset ((CHAOSCache.timing stuckLine).event_mem_of_mem_history _ es' past hpast)
  rw [he] at hmem
  simp [stuckLineRun] at hmem

/-- The bit that the program has cleared in tick 1 is still clear four periods later. -/
theorem stuck_line_not_rechecked :
    let x := (CHAOSCache.timing stuckLine).run (.init stuckLine (.empty _) fun _ => 0) stuckLineRun
    x.now = 5 ∧ x.state.permanent_faults.lookup (0, 0) = some ⟨.StuckAtOne, 1#8, true⟩ ∧
    x.state.cache.lastAt 0 = some stuckPos ∧ x.state.cache.data stuckPos 0 = 0#8 ∧ x.state.periodicCheck = none ∧
    ¬CHAOSCache.Rechecked x := by
  intro x
  have hfault : x.state.permanent_faults.lookup (0, 0) = some ⟨.StuckAtOne, 1#8, true⟩ := by decide
  have hres : x.state.cache.lastAt 0 = some stuckPos := by decide
  have hcheck : x.state.periodicCheck = none := by decide
  refine ⟨by decide, hfault, hres, by decide, hcheck, fun h => ?_⟩
  obtain ⟨⟨t, ht, -⟩, -⟩ := h (0, 0) _ stuckPos hfault hres
  rw [hcheck] at ht
  simp at ht

end GemFI.Mem
