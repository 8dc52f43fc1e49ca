import GemFI.Reg.CHAOSReg

/-!
# The checks of CHAOSReg

The first check is scheduled a period after the first clock, and a check schedules the next one when it applies an
entry.  So a check that finds no fault ends the chain of checks, and an attack that reaches the budget squashes it.
While a thread is active, a check of the recorded stuck-at faults is due within a period exactly if neither has
happened (`rearmed_iff`).
-/

namespace GemFI.Reg

namespace CHAOSReg

variable {cfg : RegConfig}

def Recorded (s : CHAOSReg cfg) : Prop := ∃ key fault, s.permanent_faults.lookup key = some fault

def checkPeriod (cfg : RegConfig) : Nat := cfg.clockPeriod * cfg.cycles_permament_fault_check

def firstTick (cfg : RegConfig) : Nat := cfg.clockPeriod * cfg.first_clock

/-- `checkPermanent` will run, not earlier than now and within a period. -/
def CheckDue (x : Clocked (CHAOSReg cfg) Event) : Prop :=
  ∃ t, Pending.RunsAt x.state.periodicCheck t ∧ x.now ≤ t ∧ t ≤ x.now + checkPeriod cfg

def Rechecked (x : Clocked (CHAOSReg cfg) Event) : Prop := Recorded x.state → CheckDue x

def StaysActive (x : Clocked (CHAOSReg cfg) Event) : Prop :=
  ∀ past ∈ x.history, Recorded past.state → cfg.anyActive past.state.halted = true

def CheckedEmpty (x : Clocked (CHAOSReg cfg) Event) : Prop :=
  ∃ past ∈ x.history, past.event = .check ∧ ¬Recorded past.state

theorem checkedEmpty_take (x : Clocked (CHAOSReg cfg) Event) (e : Event) :
    CheckedEmpty ((timing cfg).take x e) ↔ CheckedEmpty x ∨ (e = .check ∧ ¬Recorded x.state) := by
  simp only [CheckedEmpty, Timing.take, List.mem_append, List.mem_singleton]
  constructor
  · rintro ⟨past, hpast | rfl, hempty⟩
    · exact Or.inl ⟨past, hpast, hempty⟩
    · exact Or.inr hempty
  · rintro (⟨past, hpast, hempty⟩ | hempty)
    · exact ⟨past, Or.inl hpast, hempty⟩
    · exact ⟨_, Or.inr rfl, hempty⟩

theorem any_applies_iff {s : CHAOSReg cfg}
    (hentries : ∀ key fault, s.permanent_faults.lookup key = some fault →
      fault.update = true ∧ cfg.hasContext key.1 = true) :
    s.permanent_faults.entries.any (applies cfg) = true ↔ Recorded s := by
  rw [List.any_eq_true]
  constructor
  · rintro ⟨e, he, -⟩
    exact ⟨e.1, e.2, AList.mem_lookup_iff.2 he⟩
  · rintro ⟨key, fault, hf⟩
    obtain ⟨hupdate, hcontext⟩ := hentries key fault hf
    exact ⟨⟨key, fault⟩, AList.mem_lookup_iff.1 hf, by simp [applies, hupdate, hcontext]⟩

/-! ### The handlers -/

structure AttackStep (now : Nat) (s t : CHAOSReg cfg) : Prop where
  entries : ∀ key fault, t.permanent_faults.lookup key = some fault →
    s.permanent_faults.lookup key = some fault ∨
      (cfg.anyActive s.halted = true ∧ fault.update = true ∧ cfg.hasContext key.1 = true)
  grows : Recorded s → Recorded t
  spent : Spent s → Spent t
  next : ∀ p, t.attackEvent = some p →
    p.squashed = false ∧ now ≤ p.tick ∧ cfg.anyActive s.halted = true ∧ ¬Spent t
  check : t.periodicCheck =
    if cfg.anyActive s.halted = true ∧ ¬Spent t then s.periodicCheck else Pending.squash s.periodicCheck

theorem attackCheck_step {s : CHAOSReg cfg} (hevent : s.attackEvent = none) (now : Nat) :
    AttackStep now s (attackCheck s now) := by
  obtain ⟨htable, hcount, -, hnext, hcheck⟩ := attackCheck_spec hevent now
  have hfaulted := attackThreads_faulted s
  have hspent : Spent (attackCheck s now) ↔ Spent (attackThreads s) := by
    unfold Spent
    rw [hcount]
  refine ⟨fun key fault hf => ?_, ?_, fun hs => ?_, fun p hp => ?_, hcheck.trans (by simp only [hspent])⟩
  · rw [htable] at hf
    rcases hfaulted.table key fault hf with hold | ⟨hpos, hnew⟩
    · exact Or.inl hold
    · exact Or.inr ⟨anyActive_of_targets hpos, hnew⟩
  · rintro ⟨key, fault, hf⟩
    have hsome := hfaulted.grows key (by rw [hf]; rfl)
    rw [← htable] at hsome
    obtain ⟨fault', hf'⟩ := Option.isSome_iff_exists.1 hsome
    exact ⟨key, fault', hf'⟩
  · exact hspent.2 ⟨hs.1, Nat.le_trans hs.2 hfaulted.count_ge⟩
  · rw [hnext] at hp
    split at hp
    · rename_i hre
      obtain rfl := Option.some.inj hp
      exact ⟨rfl, Nat.le_add_right _ _, hre.1, fun hs => hre.2.1 (hspent.1 hs)⟩
    · simp at hp

theorem step_attack {s : CHAOSReg cfg} {p : Pending} (hp : s.attackEvent = some p) (hsquashed : p.squashed = false) :
    AttackStep p.tick s (step s .attack) := by
  obtain ⟨s', hs'⟩ : ∃ s' : CHAOSReg cfg, s' = { s with attackEvent := none } := ⟨_, rfl⟩
  have h := attackCheck_step (s := s') (by rw [hs']) p.tick
  have hstep : step s .attack = attackCheck s' p.tick := by
    dsimp only [step]
    rw [hp]
    dsimp only
    rw [hsquashed, hs']
    rfl
  rw [← hstep] at h
  rw [hs'] at h
  exact ⟨h.entries, h.grows, h.spent, h.next, h.check⟩

theorem step_check {s : CHAOSReg cfg} {p : Pending} (hp : s.periodicCheck = some p)
    (hentries : ∀ key fault, s.permanent_faults.lookup key = some fault →
      fault.update = true ∧ cfg.hasContext key.1 = true) :
    (step s .check).permanent_faults = s.permanent_faults ∧
    (step s .check).faults_injected_count = s.faults_injected_count ∧
    (step s .check).attackEvent = s.attackEvent ∧
    (Recorded s → p.squashed = false → Pending.RunsAt (step s .check).periodicCheck (p.tick + checkPeriod cfg)) ∧
    (¬Recorded s ∨ p.squashed = true → (step s .check).periodicCheck = none) := by
  obtain ⟨s', hs'⟩ : ∃ s' : CHAOSReg cfg, s' = { s with periodicCheck := none } := ⟨_, rfl⟩
  have hstep : step s .check = if p.squashed then s' else checkPermanent s' p.tick := by
    dsimp only [step]
    rw [hp, hs']
  cases hsquashed : p.squashed with
  | true =>
    have heq : step s .check = s' := by rw [hstep, if_pos hsquashed]
    rw [heq, hs']
    exact ⟨rfl, rfl, rfl, fun _ hnot => absurd hnot (by decide), fun _ => rfl⟩
  | false =>
    have heq : step s .check = checkPermanent s' p.tick := by
      rw [hstep, if_neg (by rw [hsquashed]; decide)]
    obtain ⟨htable, hcount, -, hattack, hcheck⟩ := checkPermanent_spec (s := s') (by rw [hs']) p.tick
    rw [← heq] at htable hcount hattack hcheck
    rw [hs'] at htable hcount hattack hcheck
    have hany := any_applies_iff hentries
    refine ⟨htable, hcount, hattack, fun hrec _ => ?_, fun hnot => ?_⟩
    · rw [hcheck, if_pos (hany.2 hrec)]
      rfl
    · rcases hnot with hnot | hnot
      · rw [hcheck, if_neg fun h => hnot (hany.1 h)]
      · exact absurd hnot (by decide)

/-! ### The chain of checks -/

/-- The state of the queue in a run: before the first fault the first check is to come, or it has come in vain; then the
checks go on unless one came in vain or the budget is used up. -/
structure Chain (x : Clocked (CHAOSReg cfg) Event) : Prop where
  attack : ∀ p, x.state.attackEvent = some p → p.squashed = false ∧ x.now ≤ p.tick ∧ firstTick cfg ≤ p.tick
  entries : ∀ key fault, x.state.permanent_faults.lookup key = some fault →
    fault.update = true ∧ cfg.hasContext key.1 = true
  late : Recorded x.state → firstTick cfg ≤ x.now
  armed : Recorded x.state → ¬CheckedEmpty x → ¬Spent x.state → CheckDue x
  lost : Recorded x.state → CheckedEmpty x ∨ Spent x.state → ∀ t, ¬Pending.RunsAt x.state.periodicCheck t
  vain : ¬Recorded x.state → x.state.attackEvent.isSome → CheckedEmpty x → x.state.periodicCheck = none
  first : ¬Recorded x.state → x.state.attackEvent.isSome → ¬CheckedEmpty x →
    Pending.RunsAt x.state.periodicCheck (firstTick cfg + checkPeriod cfg) ∧ x.now ≤ firstTick cfg + checkPeriod cfg

variable {x : Clocked (CHAOSReg cfg) Event}

theorem chain_tick (h : Chain x) (hdue : (timing cfg).due x.state x.now = false) :
    Chain { x with now := x.now + 1 } := by
  obtain ⟨hattack, hcheck⟩ := Bool.or_eq_false_iff.1 hdue
  have hlater : ∀ {event : Option Pending} {p : Pending}, Pending.isAt event x.now = false → event = some p →
      p.tick ≠ x.now := by
    intro event p hnot hp heq
    rw [(Pending.isAt_iff event x.now).2 ⟨p, hp, heq⟩] at hnot
    exact absurd hnot (by decide)
  refine ⟨fun p hp => ?_, h.entries, fun hrec => Nat.le_succ_of_le (h.late hrec), fun hrec hempty hspent => ?_,
    h.lost, h.vain, fun hrec hsome hempty => ?_⟩
  · obtain ⟨hsquashed, hge, hfirst⟩ := h.attack p hp
    have hne := hlater hattack hp
    exact ⟨hsquashed, by dsimp only; omega, hfirst⟩
  · obtain ⟨t, hruns, hge, hle⟩ := h.armed hrec hempty hspent
    have hne := hlater hcheck hruns
    dsimp only at hne
    exact ⟨t, hruns, by dsimp only; omega, by dsimp only; omega⟩
  · obtain ⟨hruns, hge⟩ := h.first hrec hsome hempty
    have hne := hlater hcheck hruns
    dsimp only at hne
    exact ⟨hruns, by dsimp only; omega⟩

theorem chain_attack (h : Chain x) (hactive : Recorded x.state → cfg.anyActive x.state.halted = true)
    (he : (timing cfg).enabled x.state x.now .attack = true) : Chain ((timing cfg).take x .attack) := by
  have hempty := checkedEmpty_take x .attack
  simp only [reduceCtorEq, false_and, or_false] at hempty
  obtain ⟨now, s, history⟩ := x
  obtain ⟨p, hp, htick⟩ := (Pending.isAt_iff s.attackEvent now).1 he
  obtain ⟨hsquashed, -, hfirst⟩ := h.attack p hp
  have hsome : s.attackEvent.isSome = true := by rw [hp]; rfl
  have hstep := step_attack hp hsquashed
  rw [htick] at hstep hfirst
  -- an attack that records the first fault has found an active thread
  have hany : Recorded (step s .attack) → cfg.anyActive s.halted = true := by
    rintro ⟨key, fault, hf⟩
    rcases hstep.entries key fault hf with hold | ⟨hany, -⟩
    · exact hactive ⟨key, fault, hold⟩
    · exact hany
  have hkept : ∀ t, Pending.RunsAt (step s .attack).periodicCheck t → Pending.RunsAt s.periodicCheck t := by
    intro t ht
    rw [hstep.check] at ht
    split at ht
    · exact ht
    · exact absurd ht (Pending.not_runsAt_squash _ _)
  refine ⟨fun q hq => ?_, fun key fault hf => ?_, fun _ => hfirst, fun hrec hnever hspent => ?_,
    fun hrec hlost t ht => ?_, fun hrec hq hin => ?_, fun hrec hq hnever => ?_⟩
  · obtain ⟨hsq, hge, -⟩ := hstep.next q hq
    exact ⟨hsq, hge, Nat.le_trans hfirst hge⟩
  · rcases hstep.entries key fault hf with hold | ⟨-, hnew⟩
    · exact h.entries key fault hold
    · exact hnew
  · rw [hempty] at hnever
    have hcheck : (step s .attack).periodicCheck = s.periodicCheck := by rw [hstep.check, if_pos ⟨hany hrec, hspent⟩]
    by_cases hold : Recorded s
    · obtain ⟨t, hruns, hle⟩ := h.armed hold hnever fun hs => hspent (hstep.spent hs)
      exact ⟨t, hcheck.trans hruns, hle⟩
    · obtain ⟨hruns, hge⟩ := h.first hold hsome hnever
      exact ⟨_, hcheck.trans hruns, hge, Nat.add_le_add_right hfirst _⟩
  · rw [hempty] at hlost
    rcases hlost with hin | hspent
    · by_cases hold : Recorded s
      · exact h.lost hold (Or.inl hin) t (hkept t ht)
      · have hnone := h.vain hold hsome hin
        have hruns := hkept t ht
        dsimp only at hnone
        rw [hnone] at hruns
        exact absurd hruns (by simp [Pending.RunsAt])
    · have hcheck : (step s .attack).periodicCheck = Pending.squash s.periodicCheck := by
        rw [hstep.check, if_neg fun hboth => hboth.2 hspent]
      exact absurd (hcheck.symm.trans ht) (Pending.not_runsAt_squash _ _)
  · obtain ⟨q, hq⟩ := Option.isSome_iff_exists.1 hq
    obtain ⟨-, -, hact, hspent⟩ := hstep.next q hq
    have hnone := h.vain (fun hold => hrec (hstep.grows hold)) hsome (hempty.1 hin)
    exact (hstep.check.trans (if_pos ⟨hact, hspent⟩)).trans hnone
  · obtain ⟨q, hq⟩ := Option.isSome_iff_exists.1 hq
    obtain ⟨-, -, hact, hspent⟩ := hstep.next q hq
    obtain ⟨hruns, hge⟩ := h.first (fun hold => hrec (hstep.grows hold)) hsome fun hin => hnever (hempty.2 hin)
    exact ⟨(hstep.check.trans (if_pos ⟨hact, hspent⟩)).trans hruns, hge⟩

theorem chain_check (h : Chain x) (he : (timing cfg).enabled x.state x.now .check = true) :
    Chain ((timing cfg).take x .check) := by
  have hempty := checkedEmpty_take x .check
  simp only [true_and] at hempty
  obtain ⟨now, s, history⟩ := x
  obtain ⟨p, hp, htick⟩ := (Pending.isAt_iff s.periodicCheck now).1 he
  obtain ⟨htable, hcount, hattack, hnext, hnone⟩ := step_check hp h.entries
  rw [htick] at hnext
  have hrecorded : Recorded (step s .check) ↔ Recorded s := by
    unfold Recorded
    rw [htable]
  have hspent : Spent (step s .check) ↔ Spent s := by
    unfold Spent
    rw [hcount]
  refine ⟨fun q hq => h.attack q (hattack.symm.trans hq), fun key fault hf => ?_, fun hrec => h.late (hrecorded.1 hrec),
    fun hrec hnever hsp => ?_, fun hrec hlost t ht => ?_, fun hrec _ _ => ?_, fun hrec _ hnever => ?_⟩
  · exact h.entries key fault ((congrArg (AList.lookup key) htable.symm).trans hf)
  · rw [hempty, not_or] at hnever
    obtain ⟨t, hruns, -⟩ := h.armed (hrecorded.1 hrec) hnever.1 fun hs => hsp (hspent.2 hs)
    have hsquashed : p.squashed = false := by
      rw [Option.some.inj (hp.symm.trans hruns)]
    exact ⟨_, hnext (hrecorded.1 hrec) hsquashed, Nat.le_add_right _ _, Nat.le_refl _⟩
  · have hold := hrecorded.1 hrec
    rw [hempty, or_iff_left (not_not.2 hold)] at hlost
    cases hsquashed : p.squashed with
    | true =>
      have hgone := (hnone (Or.inr hsquashed)).symm.trans ht
      simp at hgone
    | false =>
      have hruns : Pending.RunsAt s.periodicCheck p.tick := by
        rw [Pending.RunsAt, hp]
        cases p
        rw [← hsquashed]
      exact h.lost hold (hlost.imp_right hspent.1) _ hruns
  · exact hnone (Or.inl fun hold => hrec (hrecorded.2 hold))
  · exact absurd (hempty.2 (Or.inr fun hold => hrec (hrecorded.2 hold))) hnever

theorem chain_program {e : Event} (h : Chain x) (hattack : e ≠ .attack) (hcheck : e ≠ .check) :
    Chain ((timing cfg).take x e) := by
  have hempty : CheckedEmpty ((timing cfg).take x e) = CheckedEmpty x := by
    rw [checkedEmpty_take]
    simp only [hcheck, false_and, or_false]
  obtain ⟨y, hy⟩ : ∃ y, y = (timing cfg).take x e := ⟨_, rfl⟩
  have hframe : y.now = x.now ∧ y.state.permanent_faults = x.state.permanent_faults ∧
      y.state.faults_injected_count = x.state.faults_injected_count ∧
      y.state.attackEvent = x.state.attackEvent ∧ y.state.periodicCheck = x.state.periodicCheck := by
    rw [hy]
    cases e with
    | attack => exact absurd rfl hattack
    | check => exact absurd rfl hcheck
    | write key val => exact ⟨rfl, rfl, rfl, rfl, rfl⟩
    | setPc tid pc => exact ⟨rfl, rfl, rfl, rfl, rfl⟩
    | setHalted tid halted => exact ⟨rfl, rfl, rfl, rfl, rfl⟩
  rw [← hy] at hempty ⊢
  obtain ⟨hnow, htable, hcount, hnext, hkeep⟩ := hframe
  have hrec : Recorded y.state = Recorded x.state := by unfold Recorded; rw [htable]
  have hspent : Spent y.state = Spent x.state := by unfold Spent; rw [hcount]
  have hdue : CheckDue y = CheckDue x := by unfold CheckDue; rw [hnow, hkeep]
  constructor
  · rw [hnext, hnow]
    exact h.attack
  · rw [htable]
    exact h.entries
  · rw [hrec, hnow]
    exact h.late
  · rw [hrec, hempty, hspent, hdue]
    exact h.armed
  · rw [hrec, hempty, hspent, hkeep]
    exact h.lost
  · rw [hrec, hempty, hnext, hkeep]
    exact h.vain
  · rw [hrec, hempty, hnext, hkeep, hnow]
    exact h.first

theorem chain_init (cfg : RegConfig) (regs : Nat × RegId → BitVec 64) (draw : Nat → Nat) :
    Chain (Timing.start (init cfg regs draw) : Clocked (CHAOSReg cfg) Event) := by
  have hnone : ¬Recorded (init cfg regs draw) := by
    rintro ⟨key, fault, hf⟩
    exact absurd hf (by simp [init, scheduleAttackEvent, scheduleCheckPermanentFault])
  have hnever : ¬CheckedEmpty (Timing.start (init cfg regs draw) : Clocked (CHAOSReg cfg) Event) := by
    rintro ⟨past, hpast, -⟩
    exact absurd hpast List.not_mem_nil
  have hcheck : (init cfg regs draw).periodicCheck = some { tick := firstTick cfg + checkPeriod cfg } := by
    show some _ = _
    rw [InjectorConfig.clockEdge, Nat.zero_add, Nat.mul_add]
    rfl
  refine ⟨fun p hp => ?_, fun key fault hf => absurd ⟨key, fault, hf⟩ hnone, fun hrec => absurd hrec hnone,
    fun hrec => absurd hrec hnone, fun hrec => absurd hrec hnone, fun _ _ hin => absurd hin hnever,
    fun _ _ _ => ⟨hcheck, Nat.zero_le _⟩⟩
  obtain rfl := Option.some.inj hp
  refine ⟨rfl, Nat.zero_le _, ?_⟩
  show firstTick cfg ≤ 0 + cfg.clockPeriod * _
  rw [Nat.zero_add]
  exact Nat.mul_le_mul_left _ (Nat.le_add_right _ _)

theorem chain_run (cfg : RegConfig) (regs : Nat × RegId → BitVec 64) (draw : Nat → Nat) (es : List (Option Event)) :
    StaysActive ((timing cfg).run (init cfg regs draw) es) → Chain ((timing cfg).run (init cfg regs draw) es) := by
  refine (timing cfg).invariant (I := fun x => StaysActive x → Chain x) (fun _ => chain_init cfg regs draw)
    (fun x h hdue hactive => chain_tick (h hactive) hdue) (fun x e h he hactive => ?_) es
  have hold : StaysActive x := fun past hpast => hactive past (List.mem_append_left _ hpast)
  have hnow : Recorded x.state → cfg.anyActive x.state.halted = true :=
    hactive ⟨x.state, x.now, e⟩ (List.mem_append_right _ (List.mem_singleton.2 rfl))
  by_cases hattack : e = .attack
  · subst hattack
    exact chain_attack (h hold) hnow he
  · by_cases hcheck : e = .check
    · subst hcheck
      exact chain_check (h hold) he
    · exact chain_program (h hold) hattack hcheck

/-- In every run in which some thread is active since the first stuck-at fault: a check of the recorded faults is due
within a period exactly if no check came before the first fault and the budget is not used up; and every check that runs
applies all recorded faults. -/
theorem rearmed_iff (cfg : RegConfig) (regs : Nat × RegId → BitVec 64) (draw : Nat → Nat) (es : List (Option Event))
    (hactive : StaysActive ((timing cfg).run (init cfg regs draw) es)) :
    (Rechecked ((timing cfg).run (init cfg regs draw) es) ↔
      (Recorded ((timing cfg).run (init cfg regs draw) es).state →
        ¬CheckedEmpty ((timing cfg).run (init cfg regs draw) es) ∧
        ¬Spent ((timing cfg).run (init cfg regs draw) es).state)) ∧
    ∀ t, Pending.RunsAt ((timing cfg).run (init cfg regs draw) es).state.periodicCheck t → ∀ key fault,
      ((timing cfg).run (init cfg regs draw) es).state.permanent_faults.lookup key = some fault →
      (step ((timing cfg).run (init cfg regs draw) es).state .check).regs key =
        fault.reapply (((timing cfg).run (init cfg regs draw) es).state.regs key) := by
  have h := chain_run cfg regs draw es hactive
  obtain ⟨x, hx⟩ : ∃ x, x = (timing cfg).run (init cfg regs draw) es := ⟨_, rfl⟩
  rw [← hx] at h ⊢
  refine ⟨⟨fun hre hrec => ?_, fun hcond hrec => ?_⟩, fun t ht key fault hf => ?_⟩
  · obtain ⟨t, hruns, -⟩ := hre hrec
    by_contra hnot
    rw [not_and_or, not_not, not_not] at hnot
    exact h.lost hrec hnot t hruns
  · exact h.armed hrec (hcond hrec).1 (hcond hrec).2
  · obtain ⟨hupdate, hcontext⟩ := h.entries key fault hf
    dsimp only [step]
    rw [ht]
    exact checkPermanent_regs _ _ hf hupdate hcontext

end CHAOSReg

/-! ### Samples -/

/-- With no limit the checks go on: the fault of tick 0 is checked in tick 1, and the next check is due in tick 2. -/
theorem rearmed_unlimited :
    let x := (CHAOSReg.timing (oneThread 0)).run (.init (oneThread 0) (fun _ => 0) fun n => 10 * n)
      [some .attack, none, some .check]
    CHAOSReg.StaysActive x ∧ CHAOSReg.Recorded x.state ∧ CHAOSReg.Rechecked x ∧
    x.state.periodicCheck = some ⟨2, false⟩ := by
  intro x
  have hactive : CHAOSReg.StaysActive x := by
    have hall : ∀ past ∈ x.history, (oneThread 0).anyActive past.state.halted = true := by decide
    exact fun past hpast _ => hall past hpast
  have hrec : CHAOSReg.Recorded x.state := ⟨(0, .IntRegClass, 2), ⟨.StuckAtOne, 1, true⟩, by decide⟩
  refine ⟨hactive, hrec, (CHAOSReg.rearmed_iff _ _ _ _ hactive).1.2 fun _ => ⟨?_, by decide⟩, by decide⟩
  rintro ⟨past, hpast, hevent, hempty⟩
  rcases List.mem_cons.1 hpast with rfl | hpast
  · cases hevent
  · rw [List.mem_singleton.1 hpast] at hempty
    exact hempty ⟨(0, .IntRegClass, 2), ⟨.StuckAtOne, 1, true⟩, by decide⟩

/-- A budget of one: the attack of tick 0 squashes the check, and the bit that the program clears stays clear.  A first
attack in tick 3: the check of tick 1 has found nothing, and there is no other.  The thread is active all the time. -/
theorem checks_lost :
    let x := (CHAOSReg.timing (oneThread 1)).run (.init (oneThread 1) (fun _ => 0) fun n => 10 * n)
      [some .attack, some (.write (0, .IntRegClass, 2) 0), none, some .check, none, none, none]
    let y := (CHAOSReg.timing (oneThread 2)).run (.init (oneThread 2) (fun _ => 0) fun n => 3 + 10 * n)
      [none, some .check, none, none, some .attack, some (.write (0, .IntRegClass, 2) 0), none, none, none, none]
    (x.now = 4 ∧ CHAOSReg.StaysActive x ∧
      x.state.permanent_faults.lookup (0, .IntRegClass, 2) = some ⟨.StuckAtOne, 1, true⟩ ∧
      x.state.regs (0, .IntRegClass, 2) = 0 ∧ x.state.periodicCheck = none ∧ ¬CHAOSReg.Rechecked x) ∧
    (y.now = 7 ∧ CHAOSReg.StaysActive y ∧
      y.state.permanent_faults.lookup (0, .IntRegClass, 2) = some ⟨.StuckAtOne, 1, true⟩ ∧
      y.state.regs (0, .IntRegClass, 2) = 0 ∧ y.state.periodicCheck = none ∧ ¬CHAOSReg.Rechecked y) := by
  intro x y
  have hx : x.state.permanent_faults.lookup (0, .IntRegClass, 2) = some ⟨.StuckAtOne, 1, true⟩ := by decide
  have hy : y.state.permanent_faults.lookup (0, .IntRegClass, 2) = some ⟨.StuckAtOne, 1, true⟩ := by decide
  have hxcheck : x.state.periodicCheck = none := by decide
  have hycheck : y.state.periodicCheck = none := by decide
  have hxall : ∀ past ∈ x.history, (oneThread 1).anyActive past.state.halted = true := by decide
  have hyall : ∀ past ∈ y.history, (oneThread 2).anyActive past.state.halted = true := by decide
  refine ⟨⟨by decide, fun past hpast _ => hxall past hpast, hx, by decide, hxcheck, fun h => ?_⟩,
    by decide, fun past hpast _ => hyall past hpast, hy, by decide, hycheck, fun h => ?_⟩
  · obtain ⟨t, ht, -⟩ := h ⟨_, _, hx⟩
    rw [hxcheck] at ht
    simp [Pending.RunsAt] at ht
  · obtain ⟨t, ht, -⟩ := h ⟨_, _, hy⟩
    rw [hycheck] at ht
    simp [Pending.RunsAt] at ht

end GemFI.Reg
