import GemFI.Reg.CHAOSRenameMap

/-!
# The checks of the stuck mappings

`checkPermanent` applies the stuck mappings to the rename map (`pinned_checkPermanent_iff`) and schedules the next
check by `clockEdge(curCycle() + 100000)`.  The argument of `clockEdge` is a delay, so a check in cycle `c` is
followed by one in cycle `2 * c + 100000` (`checkCycles_isChain`), and the first check is not in cycle 0.  So the
checks are 100000 cycles apart, and a mapping that a rename overwrites is pinned by a check within 100000 cycles,
exactly as long as there has been at most one check, and mappings are overwritten after it only once the cycle of the
check has passed a second time (`repinned_iff`).
-/

namespace GemFI.Reg.CHAOSRenameMap

variable {cfg : RenameMapConfig} {s : CHAOSRenameMap cfg} {x : Clocked (CHAOSRenameMap cfg) Event}

/-! ### What a check does -/

/-- A check reaches the entry of the register: it asks the ISA of thread 0. -/
def Reaches (cfg : RenameMapConfig) (arch_idx : Nat) : Prop :=
  (cfg.hasContext 0 && cfg.hasIsa 0) = true ∧ arch_idx < cfg.numArchRegs 0 cfg.target_class

def Pinned (s : CHAOSRenameMap cfg) (tid arch_idx : Nat) : Prop :=
  ∃ phys_idx, s.stuck_mappings.lookup (tid, arch_idx) = some phys_idx ∧ s.lookup tid arch_idx = some phys_idx

private theorem place_eq_some {key : Nat × Nat} {tid arch_idx : Nat}
    (h : place cfg key = some (tid, cfg.target_class, arch_idx)) :
    key = (tid, arch_idx) ∧ arch_idx < cfg.numArchRegs 0 cfg.target_class := by
  unfold place at h
  split at h
  · rename_i harch
    simp only [Option.some.injEq, Prod.mk.injEq] at h
    exact ⟨Prod.ext h.1 h.2.2, h.2.2 ▸ harch⟩
  · exact absurd h (by simp)

theorem pin_eq (s : CHAOSRenameMap cfg) (tid arch_idx : Nat) :
    pin s tid cfg.target_class arch_idx = if arch_idx < cfg.numArchRegs 0 cfg.target_class then
      (s.stuck_mappings.lookup (tid, arch_idx)).elim (s.lookup tid arch_idx) some else s.lookup tid arch_idx := by
  unfold pin
  split
  · rename_i harch
    have hplace : place cfg (tid, arch_idx) = some (tid, cfg.target_class, arch_idx) := if_pos harch
    refine Table.foldl_entries s.stuck_mappings (fun k k' hk hk' => ?_) hplace
    rw [(place_eq_some hk).1, (place_eq_some hk').1]
  · rename_i harch
    exact Table.foldl_applyEntry_of_forall_ne fun e _ he => harch (place_eq_some he).2

theorem lookup_checkPermanent (s : CHAOSRenameMap cfg) (now tid arch_idx : Nat) :
    (checkPermanent s now).lookup tid arch_idx =
      if (cfg.hasContext 0 && cfg.hasIsa 0) = true then pin s tid cfg.target_class arch_idx else s.lookup tid arch_idx := by
  unfold checkPermanent lookup
  split <;> rfl

theorem pinned_checkPermanent_iff {tid arch_idx : Nat} (now : Nat)
    (hstuck : (s.stuck_mappings.lookup (tid, arch_idx)).isSome = true) :
    Pinned (checkPermanent s now) tid arch_idx ↔ Reaches cfg arch_idx ∨ Pinned s tid arch_idx := by
  obtain ⟨phys_idx, hphys⟩ := Option.isSome_iff_exists.1 hstuck
  have htable : (checkPermanent s now).stuck_mappings = s.stuck_mappings := by
    unfold checkPermanent
    split <;> rfl
  unfold Pinned Reaches
  rw [htable, lookup_checkPermanent, pin_eq, hphys]
  by_cases hisa : (cfg.hasContext 0 && cfg.hasIsa 0) = true <;>
    by_cases harch : arch_idx < cfg.numArchRegs 0 cfg.target_class <;> simp [hisa, harch]

/-! ### The schedule -/

theorem processFault_events (s : CHAOSRenameMap cfg) (tid now : Nat) :
    (processFault s tid now).attackEvent = s.attackEvent ∧ (processFault s tid now).periodicCheck = s.periodicCheck := by
  rcases processFault_cases s tid now with ⟨rng, n, heq⟩ | ⟨rng, r, heq, -⟩
  · rw [heq]
    exact ⟨rfl, rfl⟩
  · rw [heq]
    exact (inject_frame { s with rng := rng } r now).2

theorem attackThreads_events (s : CHAOSRenameMap cfg) (now : Nat) :
    (attackThreads s now).attackEvent = s.attackEvent ∧ (attackThreads s now).periodicCheck = s.periodicCheck := by
  refine List.foldlRecOn _ (attackThread now)
    (motive := fun t : CHAOSRenameMap cfg => t.attackEvent = s.attackEvent ∧ t.periodicCheck = s.periodicCheck)
    ⟨rfl, rfl⟩ fun t ht tid _ => ?_
  unfold attackThread
  split
  · obtain ⟨hattack, hcheck⟩ := processFault_events t tid now
    exact ⟨hattack.trans ht.1, hcheck.trans ht.2⟩
  · exact ht

private theorem scheduleAttackEvent_events (hnone : s.attackEvent = none) (now delay : Nat) :
    (∀ t, (scheduleAttackEvent s now delay).attackEvent = some t → now ≤ t) ∧
    (scheduleAttackEvent s now delay).periodicCheck = s.periodicCheck := by
  unfold scheduleAttackEvent
  rw [if_pos (by simp [hnone])]
  refine ⟨fun t ht => ?_, rfl⟩
  have heq := Option.some.inj ht
  rw [← heq]
  exact Nat.le_add_right _ _

theorem attackCheck_events (hnone : s.attackEvent = none) (now : Nat) :
    (∀ t, (attackCheck s now).attackEvent = some t → now ≤ t) ∧ (attackCheck s now).periodicCheck = s.periodicCheck := by
  obtain ⟨hattack, hcheck⟩ := attackThreads_events s now
  rw [hnone] at hattack
  have hkept : ∀ t, (attackThreads s now).attackEvent = some t → now ≤ t := by
    intro t ht
    exact absurd (hattack.symm.trans ht) (by simp)
  unfold attackCheck reschedule
  dsimp only
  split
  · generalize (if (attackThreads s now).faults_injected_count = s.faults_injected_count then _ else _) = next
    split
    · obtain ⟨hlater, hsame⟩ := scheduleAttackEvent_events
        (s := { attackThreads s now with rng := (attackThreads s now).rng.next.2 }) hattack now next
      exact ⟨hlater, hsame.trans hcheck⟩
    · exact ⟨hkept, hcheck⟩
  · exact ⟨hkept, hcheck⟩

theorem step_check {now : Nat} (hnow : s.periodicCheck = some now) :
    (step s .check).periodicCheck = some (cfg.clockEdge now (cfg.curCycle now + 100000)) ∧
    (step s .check).attackEvent = s.attackEvent ∧ (step s .check).stuck_mappings = s.stuck_mappings := by
  simp only [step, hnow]
  unfold checkPermanent
  split <;> exact ⟨rfl, rfl, rfl⟩

theorem step_other (s : CHAOSRenameMap cfg) {e : Event} (hattack : e ≠ .attack) (hcheck : e ≠ .check) :
    (step s e).attackEvent = s.attackEvent ∧ (step s e).periodicCheck = s.periodicCheck ∧
    (step s e).stuck_mappings = s.stuck_mappings := by
  cases e with
  | attack => exact absurd rfl hattack
  | check => exact absurd rfl hcheck
  | poll =>
    simp only [step]
    split
    · exact ⟨rfl, rfl, rfl⟩
    · unfold readTraceCheck
      dsimp only
      split <;> exact ⟨rfl, rfl, rfl⟩
  | _ => exact ⟨rfl, rfl, rfl⟩

theorem step_periodicCheck (s : CHAOSRenameMap cfg) {e : Event} (hcheck : e ≠ .check) :
    (step s e).periodicCheck = s.periodicCheck := by
  by_cases hattack : e = .attack
  · subst hattack
    simp only [step]
    split
    · rfl
    · rename_i now _
      exact (attackCheck_events (s := { s with attackEvent := none }) rfl now).2
  · exact (step_other s hattack hcheck).2.1

def Recorded (tid arch_idx : Nat) (s : CHAOSRenameMap cfg) : Prop :=
  (s.stuck_mappings.lookup (tid, arch_idx)).isSome = true

private theorem recorded_inject {tid arch_idx : Nat} (h : Recorded tid arch_idx s) (r : Redirected) (now : Nat) :
    Recorded tid arch_idx (inject s r now) := by
  have htable : (inject s r now).stuck_mappings = s.stuck_mappings ∨
      (inject s r now).stuck_mappings = s.stuck_mappings.insert (r.arch.tid, r.arch.arch_idx) r.new_phys_idx := by
    unfold inject arm countMode
    dsimp only
    cases cfg.fi_mode <;> split <;> first | exact Or.inl rfl | exact Or.inr rfl
  unfold Recorded at h ⊢
  rcases htable with hsame | hinsert
  · rw [hsame]
    exact h
  · rw [hinsert]
    by_cases hkey : (tid, arch_idx) = (r.arch.tid, r.arch.arch_idx)
    · rw [hkey, AList.lookup_insert]
      rfl
    · rw [AList.lookup_insert_ne hkey]
      exact h

private theorem recorded_attackThreads {tid arch_idx : Nat} (h : Recorded tid arch_idx s) (now : Nat) :
    Recorded tid arch_idx (attackThreads s now) := by
  refine List.foldlRecOn _ (attackThread now) (motive := Recorded tid arch_idx) h fun t ht thread _ => ?_
  unfold attackThread
  split
  · rcases processFault_cases t thread now with ⟨rng, n, heq⟩ | ⟨rng, r, heq, -⟩
    · rw [heq]
      exact ht
    · rw [heq]
      exact recorded_inject (s := { t with rng := rng }) ht r now
  · exact ht

theorem recorded_step {tid arch_idx : Nat} (h : Recorded tid arch_idx s) (e : Event) :
    Recorded tid arch_idx (step s e) := by
  by_cases hattack : e = .attack
  · subst hattack
    simp only [step]
    split
    · exact h
    · rename_i now _
      have hthreads : Recorded tid arch_idx (attackThreads { s with attackEvent := none } now) :=
        recorded_attackThreads (s := { s with attackEvent := none }) h now
      unfold attackCheck reschedule scheduleAttackEvent
      dsimp only
      repeat' split
      all_goals exact hthreads
  · by_cases hcheck : e = .check
    · subst hcheck
      simp only [step]
      split
      · exact h
      · unfold checkPermanent
        split <;> exact h
    · unfold Recorded
      rw [(step_other s hattack hcheck).2.2]
      exact h

def checks (cfg : RenameMapConfig) : (timing cfg).SelfScheduling where
  event := .check
  handler
    | .check => true
    | _ => false
  next := periodicCheck
  again _ _ := True
  period := cfg.clockPeriod
  delay s := cfg.curCycle (s.periodicCheck.getD 0) + 100000
  handler_iff e := by cases e <;> simp
  period_pos := cfg.clockPeriod_pos
  event_runs henabled := by simpa [timing] using henabled
  other_keeps := step_periodicCheck
  event_next_iff := by
    intro s now henabled t
    have hnow : s.periodicCheck = some now := by simpa [timing] using henabled
    show (step s .check).periodicCheck = some t ↔ _
    rw [(step_check hnow).1, hnow, Option.some.injEq, true_and]
    exact eq_comm

def checkCycles (x : Clocked (CHAOSRenameMap cfg) Event) : List Nat := ((checks cfg).ticks x.history).map cfg.curCycle

theorem curCycle_clockEdge_zero (delay : Nat) : cfg.curCycle (cfg.clockEdge 0 delay) = delay := by
  rw [InjectorConfig.clockEdge, InjectorConfig.curCycle, Nat.zero_add, Nat.mul_div_cancel_left _ cfg.clockPeriod_pos]

theorem curCycle_next (now : Nat) :
    cfg.curCycle (now + cfg.clockPeriod * (cfg.curCycle now + 100000)) = 2 * cfg.curCycle now + 100000 := by
  unfold InjectorConfig.curCycle
  rw [Nat.add_mul_div_left _ _ cfg.clockPeriod_pos]
  omega

private theorem checks_delay {now : Nat} {e : Event} (he : (checks cfg).handler e = true)
    (henabled : (timing cfg).enabled s now e = true) : (checks cfg).delay s = cfg.curCycle now + 100000 := by
  have hnow : s.periodicCheck = some now := Timing.SelfScheduling.runs he henabled
  show cfg.curCycle (s.periodicCheck.getD 0) + 100000 = _
  rw [hnow]
  rfl

/-- A check in cycle `c` is followed by one in cycle `2 * c + 100000`. -/
theorem checkCycles_isChain (s : CHAOSRenameMap cfg) (es : List (Option Event)) :
    (checkCycles ((timing cfg).run s es)).IsChain fun c c' => c' = 2 * c + 100000 := by
  have hchain := ((checks cfg).ticks_isChain checks_delay s es).1
  refine (List.isChain_map cfg.curCycle).2 (hchain.imp ?_)
  rintro t u rfl
  exact curCycle_next t

/-! ### Runs -/

/-- The attacks and the faults are not before the first cycle, and a check, which is not in cycle 0, is scheduled. -/
structure OnTime (x : Clocked (CHAOSRenameMap cfg) Event) : Prop where
  attack : ∀ t, x.state.attackEvent = some t → x.now ≤ t ∧ cfg.clockPeriod * cfg.first_clock ≤ t
  check : ∃ t, x.state.periodicCheck = some t ∧ x.now ≤ t ∧ 1 ≤ cfg.curCycle t
  stuck : ∀ key phys, x.state.stuck_mappings.lookup key = some phys → cfg.clockPeriod * cfg.first_clock ≤ x.now
  ran : ∀ c ∈ checkCycles x, 1 ≤ c

private theorem checkCycles_check (x : Clocked (CHAOSRenameMap cfg) Event) :
    checkCycles ((timing cfg).take x .check) = checkCycles x ++ [cfg.curCycle x.now] := by
  have hyes : (checks cfg).handler .check = true := rfl
  unfold checkCycles
  rw [(checks cfg).ticks_take, if_pos hyes, List.map_append]
  rfl

private theorem checkCycles_other (x : Clocked (CHAOSRenameMap cfg) Event) {e : Event} (hcheck : e ≠ .check) :
    checkCycles ((timing cfg).take x e) = checkCycles x := by
  have hnot : ¬(checks cfg).handler e = true := by
    cases e <;> first | exact absurd rfl hcheck | exact Bool.false_ne_true
  unfold checkCycles
  rw [(checks cfg).ticks_take, if_neg hnot, List.append_nil]

theorem onTime_step {e : Event} (h : OnTime x) (he : (timing cfg).enabled x.state x.now e = true) :
    OnTime ((timing cfg).take x e) := by
  obtain ⟨now, s, history⟩ := x
  by_cases hcheck : e = .check
  · subst hcheck
    have hnow : s.periodicCheck = some now := by simpa [timing] using he
    obtain ⟨hnext, hattack, htable⟩ := step_check hnow
    obtain ⟨t, ht, -, hpos⟩ := h.check
    obtain rfl : now = t := Option.some.inj (hnow.symm.trans ht)
    refine ⟨fun t ht => h.attack t (hattack.symm.trans ht), ⟨_, hnext, Nat.le_add_right _ _, ?_⟩,
      fun key phys hstuck => h.stuck key phys ((congrArg (AList.lookup key) htable.symm).trans hstuck), ?_⟩
    · rw [InjectorConfig.clockEdge, curCycle_next]
      omega
    · intro c hc
      rw [checkCycles_check] at hc
      rcases List.mem_append.1 hc with hold | hnew
      · exact h.ran c hold
      · rw [List.mem_singleton.1 hnew]
        exact hpos
  · have hran : ∀ c ∈ checkCycles ((timing cfg).take ⟨now, s, history⟩ e), 1 ≤ c := by
      rw [checkCycles_other _ hcheck]
      exact h.ran
    obtain ⟨t, ht, hle, hpos⟩ := h.check
    have hnext : ∃ t, (step s e).periodicCheck = some t ∧ now ≤ t ∧ 1 ≤ cfg.curCycle t :=
      ⟨t, (step_periodicCheck s hcheck).trans ht, hle, hpos⟩
    by_cases hattack : e = .attack
    · subst hattack
      have hnow : s.attackEvent = some now := by simpa [timing] using he
      have hfirst := (h.attack now hnow).2
      refine ⟨fun t ht => ?_, hnext, fun _ _ _ => hfirst, hran⟩
      have hstep : step s .attack = attackCheck { s with attackEvent := none } now := by
        simp only [step, hnow]
      have hlater := (attackCheck_events (s := { s with attackEvent := none }) rfl now).1 t
        ((congrArg attackEvent hstep).symm.trans ht)
      exact ⟨hlater, hfirst.trans hlater⟩
    · obtain ⟨hsame, -, htable⟩ := step_other s hattack hcheck
      exact ⟨fun t ht => h.attack t (hsame.symm.trans ht), hnext,
        fun key phys hstuck => h.stuck key phys ((congrArg (AList.lookup key) htable.symm).trans hstuck), hran⟩

theorem onTime_wait (h : OnTime x) (hdue : (timing cfg).due x.state x.now = false) :
    OnTime { x with now := x.now + 1 } := by
  simp only [timing, decide_eq_false_iff_not, not_or] at hdue
  refine ⟨fun t ht => ?_, ?_, fun key phys hstuck => (h.stuck key phys hstuck).trans (Nat.le_succ _), h.ran⟩
  · exact (h.attack t ht).imp_left (Timing.later_of_not_due hdue.1 ht)
  · obtain ⟨t, ht, hle, hpos⟩ := h.check
    exact ⟨t, ht, Timing.later_of_not_due hdue.2.1 ht hle, hpos⟩

theorem startup_events (hmode : cfg.fi_mode = .F4FieldStuck) (regFile : PhysRegFile cfg.vecRegBytes)
    (front : RenameMap) (draw : Nat → Nat) :
    (startup cfg regFile front draw).attackEvent =
      some (cfg.clockEdge 0 (cfg.first_clock + cfg.inter_fault_cycles_dist (draw 0))) ∧
    (startup cfg regFile front draw).periodicCheck = some (cfg.clockEdge 0 (cfg.first_clock + 1)) ∧
    (startup cfg regFile front draw).stuck_mappings = ∅ := by
  unfold startup
  dsimp only
  rw [if_pos hmode]
  exact ⟨rfl, rfl, rfl⟩

theorem onTime_start (hmode : cfg.fi_mode = .F4FieldStuck) (regFile : PhysRegFile cfg.vecRegBytes) (front : RenameMap)
    (draw : Nat → Nat) : OnTime (Timing.start (startup cfg regFile front draw)) := by
  obtain ⟨hattack, hcheck, hempty⟩ := startup_events hmode regFile front draw
  refine ⟨fun t ht => ⟨Nat.zero_le _, ?_⟩, ⟨_, hcheck, Nat.zero_le _, ?_⟩, fun key phys hstuck => ?_, ?_⟩
  · rw [← Option.some.inj (hattack.symm.trans ht), InjectorConfig.clockEdge, Nat.zero_add]
    exact Nat.mul_le_mul_left _ (Nat.le_add_right _ _)
  · rw [curCycle_clockEdge_zero]
    omega
  · simp only [Timing.start, hempty] at hstuck
    exact absurd hstuck (by simp)
  · intro c hc
    exact absurd hc List.not_mem_nil

theorem onTime_run (hmode : cfg.fi_mode = .F4FieldStuck) (regFile : PhysRegFile cfg.vecRegBytes) (front : RenameMap)
    (draw : Nat → Nat) (es : List (Option Event)) :
    OnTime ((timing cfg).run (startup cfg regFile front draw) es) :=
  (timing cfg).invariant (onTime_start hmode regFile front draw) (fun _ h hdue => onTime_wait h hdue)
    (fun _ _ h he => onTime_step h he) es

def Spaced (x : Clocked (CHAOSRenameMap cfg) Event) : Prop := (checkCycles x).IsChain fun c c' => c' = c + 100000

/-- The step is a rename, by which the register loses its stuck mapping. -/
def Overwrites (past : Past (CHAOSRenameMap cfg) Event) (tid arch_idx : Nat) : Prop :=
  (∃ front, past.event = .rename front) ∧ Pinned past.state tid arch_idx ∧
    ¬Pinned (step past.state past.event) tid arch_idx

/-- After each overwrite the next check is within 100000 cycles, and after it the register has its stuck mapping. -/
def Repinned (x : Clocked (CHAOSRenameMap cfg) Event) : Prop :=
  ∀ before past after, x.history = before ++ past :: after → ∀ tid arch_idx, Overwrites past tid arch_idx →
    ∃ u t, (checks cfg).upcoming x after = some (u, t) ∧ cfg.curCycle t ≤ cfg.curCycle past.now + 100000 ∧
      Pinned (step u .check) tid arch_idx

/-- Each overwrite after a check in cycle `c` is from cycle `2 * c` on, and of a register that the checks reach (or that
has its stuck mapping again before the check). -/
def LateOverwrites (x : Clocked (CHAOSRenameMap cfg) Event) : Prop :=
  ∀ before past after, x.history = before ++ past :: after → ∀ tid arch_idx, Overwrites past tid arch_idx →
    (∀ t ∈ (checks cfg).ticks before, 2 * cfg.curCycle t ≤ cfg.curCycle past.now) ∧
    (Reaches cfg arch_idx ∨ ∃ u ∈ ((checks cfg).upcoming x after).map Prod.fst, Pinned u tid arch_idx)

theorem spaced_iff (hchain : (checkCycles x).IsChain fun c c' => c' = 2 * c + 100000)
    (hran : ∀ c ∈ checkCycles x, 1 ≤ c) : Spaced x ↔ (checkCycles x).length ≤ 1 := by
  unfold Spaced
  generalize checkCycles x = cycles at hchain hran ⊢
  rcases cycles with _ | ⟨c, _ | ⟨c', rest⟩⟩
  · simp
  · simp
  · rw [List.isChain_cons_cons] at hchain ⊢
    have hpos := hran c List.mem_cons_self
    constructor
    · rintro ⟨heq, -⟩
      omega
    · intro hlength
      simp at hlength

theorem Overwrites.recorded {past : Past (CHAOSRenameMap cfg) Event} {tid arch_idx : Nat}
    (h : Overwrites past tid arch_idx) : Recorded tid arch_idx past.state := by
  obtain ⟨-, ⟨phys_idx, hphys, -⟩, -⟩ := h
  exact Option.isSome_iff_exists.2 ⟨phys_idx, hphys⟩

theorem first_check_within (h : OnTime x) {tid arch_idx : Nat} (hstuck : Recorded tid arch_idx x.state) :
    cfg.curCycle (cfg.clockEdge 0 (cfg.first_clock + 1)) ≤ cfg.curCycle x.now + 100000 := by
  obtain ⟨phys_idx, hphys⟩ := Option.isSome_iff_exists.1 hstuck
  have hticks : cfg.first_clock * cfg.clockPeriod ≤ x.now := by
    rw [Nat.mul_comm]
    exact h.stuck _ _ hphys
  have hcycle : cfg.first_clock ≤ cfg.curCycle x.now := (Nat.le_div_iff_mul_le cfg.clockPeriod_pos).2 hticks
  rw [curCycle_clockEdge_zero]
  omega

section Overwrite

variable (hmode : cfg.fi_mode = .F4FieldStuck) (regFile : PhysRegFile cfg.vecRegBytes) (front : RenameMap)
  (draw : Nat → Nat) (es : List (Option Event))

include hmode in
theorem next_within_iff {tid arch_idx t : Nat}
    (hx : (timing cfg).run (startup cfg regFile front draw) es = x) (hone : (checkCycles x).length ≤ 1)
    (hstuck : Recorded tid arch_idx x.state) (ht : x.state.periodicCheck = some t) :
    cfg.curCycle t ≤ cfg.curCycle x.now + 100000 ↔
      ∀ u ∈ (checks cfg).ticks x.history, 2 * cfg.curCycle u ≤ cfg.curCycle x.now := by
  have htime := onTime_run hmode regFile front draw es
  have hnext := ((checks cfg).ticks_isChain checks_delay (startup cfg regFile front draw) es).2
  rw [hx] at htime hnext
  obtain ⟨hfirst, hlast⟩ := hnext t ht
  unfold checkCycles at hone
  rcases hticks : (checks cfg).ticks x.history with _ | ⟨u, rest⟩
  · have hstart : (startup cfg regFile front draw).periodicCheck = some t := hfirst hticks
    rw [(startup_events hmode regFile front draw).2.1] at hstart
    have hwithin := first_check_within htime hstuck
    rw [Option.some.inj hstart] at hwithin
    exact iff_of_true hwithin fun u hu => absurd hu List.not_mem_nil
  · have hrest : rest = [] := by
      rw [hticks, List.length_map, List.length_cons] at hone
      exact List.length_eq_zero_iff.1 (by omega)
    subst hrest
    have hcycle : cfg.curCycle t = 2 * cfg.curCycle u + 100000 := by
      rw [hlast u (by rw [hticks]; rfl)]
      exact curCycle_next u
    rw [hcycle]
    simp only [List.mem_singleton, forall_eq]
    omega

include hmode in
theorem overwrite_repinned_iff (hone : (checkCycles ((timing cfg).run (startup cfg regFile front draw) es)).length ≤ 1)
    {before after : List (Past (CHAOSRenameMap cfg) Event)} {past : Past (CHAOSRenameMap cfg) Event}
    (hhistory : ((timing cfg).run (startup cfg regFile front draw) es).history = before ++ past :: after)
    {tid arch_idx : Nat} (hover : Overwrites past tid arch_idx) :
    (∃ u t, (checks cfg).upcoming ((timing cfg).run (startup cfg regFile front draw) es) after = some (u, t) ∧
      cfg.curCycle t ≤ cfg.curCycle past.now + 100000 ∧ Pinned (step u .check) tid arch_idx) ↔
    (∀ t ∈ (checks cfg).ticks before, 2 * cfg.curCycle t ≤ cfg.curCycle past.now) ∧
      (Reaches cfg arch_idx ∨ ∃ u ∈ ((checks cfg).upcoming ((timing cfg).run (startup cfg regFile front draw) es)
        after).map Prod.fst, Pinned u tid arch_idx) := by
  obtain ⟨es', hes'⟩ := (timing cfg).run_of_history _ es hhistory
  have htime := onTime_run hmode regFile front draw es'
  rw [hes'] at htime
  obtain ⟨t, ht, -⟩ := htime.check
  have honeBefore : (checkCycles (⟨past.now, past.state, before⟩ : Clocked (CHAOSRenameMap cfg) Event)).length ≤ 1 := by
    refine le_trans ?_ hone
    unfold checkCycles Timing.SelfScheduling.ticks
    rw [hhistory, List.filter_append]
    simp
  have hwithin := next_within_iff hmode regFile front draw es' hes' honeBefore hover.recorded ht
  -- the rename leaves the schedule and the table alone
  obtain ⟨frontAfter, hevent⟩ := hover.1
  have hnext : (checks cfg).next ((timing cfg).step past.state past.event) = some t := by
    rw [hevent]
    exact ht
  obtain ⟨u, hupcoming, hu, hstuck⟩ := (checks cfg).upcoming_eq (P := Recorded tid arch_idx)
    (fun hs _ => recorded_step hs _) _ es hhistory hnext (recorded_step hover.recorded _)
  have hcheck : step u .check = checkPermanent { u with periodicCheck := none } t := by
    have hevent : u.periodicCheck = some t := hu
    simp only [step, hevent]
  have hpinned : Pinned (step u .check) tid arch_idx ↔ Reaches cfg arch_idx ∨ Pinned u tid arch_idx := by
    rw [hcheck]
    exact pinned_checkPermanent_iff (s := { u with periodicCheck := none }) t hstuck
  rw [hupcoming, ← hwithin]
  simp [hpinned]

/-- The checks are 100000 cycles apart, and each mapping that a rename overwrites is pinned by a check within 100000
cycles, exactly if there has been at most one check, and each overwrite after it, if it was in cycle `c`, is from cycle
`2 * c` on. -/
theorem repinned_iff (hmode : cfg.fi_mode = .F4FieldStuck) :
    Spaced ((timing cfg).run (startup cfg regFile front draw) es) ∧
      Repinned ((timing cfg).run (startup cfg regFile front draw) es) ↔
    (checkCycles ((timing cfg).run (startup cfg regFile front draw) es)).length ≤ 1 ∧
      LateOverwrites ((timing cfg).run (startup cfg regFile front draw) es) := by
  have htime := onTime_run hmode regFile front draw es
  rw [spaced_iff (checkCycles_isChain (startup cfg regFile front draw) es) htime.ran]
  refine and_congr_right fun hone => ?_
  exact forall₄_congr fun before past after hhistory => forall₃_congr fun tid arch_idx hover =>
    overwrite_repinned_iff hmode regFile front draw es hone hhistory hover

end Overwrite

/-- The register 0 is redirected in cycle 0, there is a check in cycle 1, and in cycle 2 the register is renamed. -/
theorem repinned_early :
    let x := (timing (twoArchRegs .F4FieldStuck .Integer)).run (twoMapped _)
      [some .attack, none, some .check, none, some (.rename fun _ _ _ => none)]
    (∃ before past after, x.history = before ++ past :: after ∧ Overwrites past 0 0) ∧ checkCycles x = [1] ∧ Spaced x ∧
      Repinned x := by
  intro x
  let y := (timing (twoArchRegs .F4FieldStuck .Integer)).run (twoMapped _) [some .attack, none, some .check, none]
  have hhistory : x.history = y.history ++ ⟨y.state, 2, .rename fun _ _ _ => none⟩ :: [] := rfl
  have hevents : y.history.map (·.event) = [.attack, .check] := rfl
  have hentries : y.state.stuck_mappings.entries = [⟨(0, 0), 1⟩] := by decide
  have hcycles : checkCycles x = [1] := by decide
  have hticks : (checks _).ticks x.history = [1] := by decide
  have hlost : ¬Pinned x.state 0 0 := by
    rintro ⟨phys_idx, -, hlookup⟩
    have hnone : x.state.lookup 0 0 = none := by decide
    exact absurd (hnone.symm.trans hlookup) (by simp)
  refine ⟨⟨_, _, _, hhistory, ⟨_, rfl⟩, ⟨1, by decide, by decide⟩, hlost⟩, hcycles,
    (repinned_iff _ _ _ _ rfl).2 ⟨?_, fun before past after hsplit tid arch_idx hover => ?_⟩⟩
  · show (checkCycles x).length ≤ 1
    rw [hcycles]
    decide
  · obtain ⟨⟨front, hevent⟩, ⟨phys_idx, hphys, -⟩, -⟩ := hover
    have hmem : past ∈ y.history ++ [⟨y.state, 2, .rename fun _ _ _ => none⟩] := by
      rw [← hhistory, show x.history = before ++ past :: after from hsplit]
      exact List.mem_append_right _ List.mem_cons_self
    rcases List.mem_append.1 hmem with hold | hlast
    · have hname := List.mem_map_of_mem (f := (·.event)) hold
      rw [hevents, hevent] at hname
      simp at hname
    · obtain rfl := List.mem_singleton.1 hlast
      have hentry := AList.mem_lookup_iff.1 hphys
      dsimp only at hentry
      rw [hentries] at hentry
      obtain ⟨⟨rfl, rfl⟩, -⟩ : (tid = 0 ∧ arch_idx = 0) ∧ phys_idx = 1 := by simpa using hentry
      refine ⟨fun t ht => ?_, Or.inl ⟨by decide, by decide⟩⟩
      have hin : t ∈ (checks _).ticks x.history := by
        rw [show x.history = before ++ _ :: after from hsplit]
        unfold Timing.SelfScheduling.ticks at ht ⊢
        rw [List.filter_append, List.map_append]
        exact List.mem_append_left _ ht
      rw [hticks] at hin
      rw [List.mem_singleton.1 hin]
      decide

private def farAttack : RenameMapConfig :=
  { twoArchRegs .F4FieldStuck .Integer with inter_fault_cycles_dist := fun _ => 200000 }

private theorem second_check :
    checkCycles ((timing farAttack).run (twoMapped _)
      ([none, some .check] ++ List.replicate 100001 none ++ [some .check])) = [1, 100002] := by
  obtain ⟨x, hx⟩ : ∃ x, x = (timing farAttack).run (twoMapped _) [none, some .check] := ⟨_, rfl⟩
  have hevents : x.state.attackEvent = some 200000 ∧ x.state.periodicCheck = some 100002 ∧
      x.state.readTraceEvent = none ∧ x.now = 1 ∧ checkCycles x = [1] := by
    rw [hx]
    decide
  obtain ⟨hattack, hcheck, hpoll, hnow, hcycles⟩ := hevents
  have hwait := (timing farAttack).foldl_advance_replicate x 100001 (by
    intro t ht
    simp only [timing, hattack, hcheck, hpoll, decide_eq_false_iff_not]
    rintro (h | h | h)
    · have := Option.some.inj h
      omega
    · have := Option.some.inj h
      omega
    · exact absurd h (by simp))
  have henabled : (timing farAttack).enabled x.state (x.now + 100001) .check = true := by
    rw [hnow]
    exact decide_eq_true hcheck
  unfold Timing.run
  rw [List.foldl_append, List.foldl_append]
  have hrun : List.foldl (timing farAttack).advance (Timing.start (twoMapped farAttack)) [none, some .check] = x := hx.symm
  rw [hrun, hwait, List.foldl_cons, List.foldl_nil]
  dsimp only [Timing.advance]
  rw [if_pos henabled, checkCycles_check]
  show checkCycles x ++ [farAttack.curCycle (x.now + 100001)] = _
  rw [hcycles, hnow]
  rfl

/-- The second check is 100001 cycles after the first one.  A mapping that is overwritten right after the first check
waits as long. -/
theorem checks_not_spaced :
    let x := (timing farAttack).run (twoMapped _) ([none, some .check] ++ List.replicate 100001 none ++ [some .check])
    let y := (timing (twoArchRegs .F4FieldStuck .Integer)).run (twoMapped _)
      [some .attack, none, some .check, some (.rename fun _ _ _ => none), none]
    (checkCycles x = [1, 100002] ∧ ¬Spaced x) ∧
    (y.now = 2 ∧ ¬Pinned y.state 0 0 ∧ y.state.periodicCheck = some 100002 ∧ ¬Repinned y) := by
  intro x y
  have hcycles : checkCycles x = [1, 100002] := second_check
  have hcheck : y.state.periodicCheck = some 100002 := by decide
  have hlost : ¬Pinned y.state 0 0 := by
    rintro ⟨phys_idx, -, hlookup⟩
    have hnone : y.state.lookup 0 0 = none := by decide
    exact absurd (hnone.symm.trans hlookup) (by simp)
  refine ⟨⟨hcycles, fun hspaced => ?_⟩, by decide, hlost, hcheck, fun hpinned => ?_⟩
  · unfold Spaced at hspaced
    rw [hcycles, List.isChain_cons_cons] at hspaced
    have := hspaced.1
    omega
  · have hhistory : y.history = [⟨_, 0, .attack⟩, ⟨_, 1, .check⟩] ++ ⟨_, 1, .rename fun _ _ _ => none⟩ :: [] := rfl
    obtain ⟨u, t, hupcoming, hwithin, -⟩ := hpinned _ _ _ hhistory 0 0
      ⟨⟨_, rfl⟩, ⟨1, by decide, by decide⟩, hlost⟩
    have hpending : (checks _).upcoming y [] = some (y.state, 100002) := by
      unfold Timing.SelfScheduling.upcoming
      exact congrArg (Option.map fun t => (y.state, t)) hcheck
    obtain ⟨-, rfl⟩ := Prod.mk.inj (Option.some.inj (hpending.symm.trans hupcoming))
    exact absurd hwithin (by decide)

end GemFI.Reg.CHAOSRenameMap
