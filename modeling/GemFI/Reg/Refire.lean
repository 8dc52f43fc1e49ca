import GemFI.Mem.Recheck
import GemFI.Reg.CHAOSFreeList
import GemFI.Reg.CHAOSReg

/-!
# Attacks in one tick

Every attack handler draws the delay of the next attack.  CHAOSMem and CHAOSCache raise a draw of 0 to 1 and multiply
it with the ratio of ticks and cycles, with 32 bits; the other three schedule the draw as it is, and on a clock edge a
delay of 0 is the current tick.  So the handlers schedule later ticks only, and then run at most once in a tick,
exactly if no delay is 0 (`refire_iff`).
-/

namespace GemFI

/-! ### The memory injectors -/

namespace Mem.CHAOSMem

variable {cfg : MemConfig}

def handling (s : CHAOSMem cfg) : CHAOSMem cfg := { s with attackEvent := none }

theorem step_attackEvent (s : CHAOSMem cfg) {e : Event} (he : e ≠ .attack) :
    (step s e).attackEvent = s.attackEvent := by
  cases e with
  | attack => exact absurd rfl he
  | check =>
    dsimp only [step]
    split
    · rfl
    · rename_i now _
      exact (checkPermanent_events (s := { s with periodicCheck := none }) rfl now).2
  | write addr data => rfl

def attacks (cfg : MemConfig) : (timing cfg).SelfScheduling where
  event := .attack
  handler
    | .attack => true
    | _ => false
  next := attackEvent
  again s now := (nextAttack (handling s) now).isSome
  period := 1
  delay s := delay (handling s)
  handler_iff e := by cases e <;> simp
  period_pos := Nat.one_pos
  event_runs henabled := by simpa [timing] using henabled
  other_keeps := step_attackEvent
  event_next_iff := by
    intro s now henabled t
    have hnow : s.attackEvent = some now := by simpa [timing] using henabled
    show (step s .attack).attackEvent = some t ↔ _
    rw [(step_attack_events hnow).1, nextAttack_iff, Nat.one_mul]
    rfl

end Mem.CHAOSMem

namespace Mem.CHAOSCache

variable {cfg : CacheConfig}

def handling (s : CHAOSCache cfg) : CHAOSCache cfg := { s with attackEvent := none }

theorem step_attackEvent (s : CHAOSCache cfg) {e : Event cfg} (he : e ≠ .attack) :
    (step s e).attackEvent = s.attackEvent := by
  by_cases hcheck : e = .check
  · subst hcheck
    dsimp only [step]
    split
    · rfl
    · exact (Prod.mk.inj (checkPermanent_queue { s with periodicCheck := none })).1
  · exact (Prod.mk.inj (step_frame s he hcheck).1).1

def attacks (cfg : CacheConfig) : (timing cfg).SelfScheduling where
  event := .attack
  handler
    | .attack => true
    | _ => false
  next := attackEvent
  again s now := ((handling s).attacked.nextAttack now).isSome
  period := 1
  delay s := (handling s).attacked.delay
  handler_iff e := by cases e <;> simp
  period_pos := Nat.one_pos
  event_runs henabled := by simpa [timing] using henabled
  other_keeps := step_attackEvent
  event_next_iff := by
    intro s now henabled t
    have hnow : s.attackEvent = some now := by simpa [timing] using henabled
    show (step s .attack).attackEvent = some t ↔ _
    rw [(step_attack_events hnow).1, nextAttack_iff, Nat.one_mul]
    rfl

end Mem.CHAOSCache

/-! ### The register injectors -/

namespace Reg

namespace CHAOSReg

def attacks (cfg : RegConfig) : (timing cfg).SelfScheduling where
  event := .attack
  handler
    | .attack => true
    | _ => false
  next s := s.attackEvent.map (·.tick)
  again s now := Pending.RunsAt s.attackEvent now ∧ Reschedules (handling s) now
  period := cfg.clockPeriod
  delay s := nextDelay (handling s)
  handler_iff e := by cases e <;> simp
  period_pos := cfg.clockPeriod_pos
  event_runs henabled := by exact Pending.map_tick_of_isAt henabled
  other_keeps s _ he := congrArg (Option.map (·.tick)) (step_frame s he).2
  event_next_iff := by
    intro s now henabled t
    obtain ⟨p, hp, rfl⟩ := (Pending.isAt_iff s.attackEvent now).1 henabled
    show (step s .attack).attackEvent.map (·.tick) = some t ↔ _
    rw [(step_attack_spec hp).2.1, hp]
    exact Pending.map_tick_ite p _ _ t

end CHAOSReg

namespace CHAOSPhysReg

def attacks (cfg : PhysRegConfig) : (timing cfg).SelfScheduling where
  event := .attack
  handler
    | .attack => true
    | _ => false
  next s := s.attackEvent.map (·.tick)
  again s now := Pending.RunsAt s.attackEvent now ∧ Reschedules (handling s) now
  period := cfg.clockPeriod
  delay s := nextDelay (handling s)
  handler_iff e := by cases e <;> simp
  period_pos := cfg.clockPeriod_pos
  event_runs henabled := by exact Pending.map_tick_of_isAt henabled
  other_keeps s _ he := congrArg (Option.map (·.tick)) (step_frame s he).2
  event_next_iff := by
    intro s now henabled t
    obtain ⟨p, hp, rfl⟩ := (Pending.isAt_iff s.attackEvent now).1 henabled
    show (step s .attack).attackEvent.map (·.tick) = some t ↔ _
    rw [(step_attack_spec hp).2.1, hp]
    exact Pending.map_tick_ite p _ _ t

end CHAOSPhysReg

namespace CHAOSFreeList

def attacks (cfg : FreeListConfig) : (timing cfg).SelfScheduling where
  event := .attack
  handler
    | .attack => true
    | _ => false
  next := attackEvent
  again s now := Reschedules (handling s) now
  period := cfg.clockPeriod
  delay s := nextDelay (handling s)
  handler_iff e := by cases e <;> simp
  period_pos := cfg.clockPeriod_pos
  event_runs henabled := by simpa [timing] using henabled
  other_keeps := by
    intro s e he
    cases e with
    | attack => exact absurd rfl he
    | _ => rfl
  event_next_iff := by
    intro s now henabled t
    have hnow : s.attackEvent = some now := by simpa [timing] using henabled
    show (step s .attack).attackEvent = some t ↔ _
    rw [step_attack_event hnow]
    split
    · rename_i hre
      simp only [hre, true_and, Option.some.injEq, InjectorConfig.clockEdge]
      exact eq_comm
    · rename_i hre
      simp only [hre, false_and, reduceCtorEq]

end CHAOSFreeList

end Reg

/-! ### All injectors -/

open Mem Reg in
/-- In every run of each injector, its attack handler schedules later ticks only and runs at most once in a tick, exactly
if no attack that schedules the next one has a delay of 0. -/
theorem refire_iff (mem : MemConfig) (memory : Nat → BitVec 8) (cache : CacheConfig) (blocks : Cache cache.toGeometry)
    (reg : RegConfig) (regs : Nat × RegId → BitVec 64) (phys : PhysRegConfig) (scalar : ScalarClass → Nat → BitVec 64)
    (vecReg : Nat → Nat → BitVec 8) (freeList : FreeListConfig) (freeRegs : RegClassType → List Nat) (map : RenameMap)
    (draw : Nat → Nat) (ms : List (Option CHAOSMem.Event)) (cs : List (Option (CHAOSCache.Event cache)))
    (rs : List (Option CHAOSReg.Event)) (ps : List (Option CHAOSPhysReg.Event))
    (fs : List (Option CHAOSFreeList.Event)) :
    ((CHAOSMem.attacks mem).OncePerTick ((CHAOSMem.timing mem).run (.init mem memory draw) ms) ↔
      ∀ past ∈ ((CHAOSMem.timing mem).run (.init mem memory draw) ms).history, (CHAOSMem.attacks mem).Delayed past) ∧
    ((CHAOSCache.attacks cache).OncePerTick ((CHAOSCache.timing cache).run (.init cache blocks draw) cs) ↔
      ∀ past ∈ ((CHAOSCache.timing cache).run (.init cache blocks draw) cs).history, (CHAOSCache.attacks cache).Delayed past) ∧
    ((CHAOSReg.attacks reg).OncePerTick ((CHAOSReg.timing reg).run (.init reg regs draw) rs) ↔
      ∀ past ∈ ((CHAOSReg.timing reg).run (.init reg regs draw) rs).history, (CHAOSReg.attacks reg).Delayed past) ∧
    ((CHAOSPhysReg.attacks phys).OncePerTick ((CHAOSPhysReg.timing phys).run (.init phys scalar vecReg draw) ps) ↔
      ∀ past ∈ ((CHAOSPhysReg.timing phys).run (.init phys scalar vecReg draw) ps).history,
        (CHAOSPhysReg.attacks phys).Delayed past) ∧
    ((CHAOSFreeList.attacks freeList).OncePerTick
        ((CHAOSFreeList.timing freeList).run (.startup freeList freeRegs map draw) fs) ↔
      ∀ past ∈ ((CHAOSFreeList.timing freeList).run (.startup freeList freeRegs map draw) fs).history,
        (CHAOSFreeList.attacks freeList).Delayed past) :=
  ⟨(CHAOSMem.attacks mem).oncePerTick_iff _ _, (CHAOSCache.attacks cache).oncePerTick_iff _ _,
    (CHAOSReg.attacks reg).oncePerTick_iff _ _, (CHAOSPhysReg.attacks phys).oncePerTick_iff _ _,
    (CHAOSFreeList.attacks freeList).oncePerTick_iff _ _⟩

open Mem Reg in
/-- With draws of 0 the handlers of CHAOSReg, CHAOSPhysReg and CHAOSFreeList run twice in tick 0.  With a ratio of 1000
and draws of 2^29 the product is 0, and so do those of CHAOSMem and CHAOSCache. -/
theorem attack_refires :
    let far : MemConfig := { oneByte with inter_fault_tick_dist := fun _ => 0x20000000 }
    let line : CacheConfig := { oneBlock with inter_fault_cycles_dist := fun _ => 0x20000000, max_faults := 0 }
    let unlimited : PhysRegConfig := { fourRegs with max_faults := 0 }
    let x := (CHAOSReg.timing (oneThread 0)).run (.init (oneThread 0) (fun _ => 0) fun _ => 0)
      [some .attack, some .attack]
    let y := (CHAOSPhysReg.timing unlimited).run (.init unlimited (fun _ _ => 0) (fun _ _ => 0) fun _ => 0)
      [some .attack, some .attack]
    let z := (CHAOSFreeList.timing oneInUse).run (.startup oneInUse (fun _ => [1]) (fun _ _ _ => some 0) fun _ => 0)
      [some .attack, some .attack]
    let v := (CHAOSMem.timing far).run (.init far (fun _ => 0) fun _ => 0) [some .attack, some .attack]
    let w := (CHAOSCache.timing line).run (.init line (.empty _) fun _ => 0) [some .attack, some .attack]
    ((CHAOSReg.attacks _).ticks x.history = [0, 0] ∧ ¬(CHAOSReg.attacks _).OncePerTick x) ∧
    ((CHAOSPhysReg.attacks _).ticks y.history = [0, 0] ∧ ¬(CHAOSPhysReg.attacks _).OncePerTick y) ∧
    ((CHAOSFreeList.attacks _).ticks z.history = [0, 0] ∧ ¬(CHAOSFreeList.attacks _).OncePerTick z) ∧
    ((CHAOSMem.attacks _).ticks v.history = [0, 0] ∧ ¬(CHAOSMem.attacks _).OncePerTick v) ∧
    ((CHAOSCache.attacks _).ticks w.history = [0, 0] ∧ ¬(CHAOSCache.attacks _).OncePerTick w) := by
  intro far line unlimited x y z v w
  have hx : (CHAOSReg.attacks _).ticks x.history = [0, 0] := by decide
  have hy : (CHAOSPhysReg.attacks _).ticks y.history = [0, 0] := by decide
  have hz : (CHAOSFreeList.attacks _).ticks z.history = [0, 0] := by decide
  have hv : (CHAOSMem.attacks _).ticks v.history = [0, 0] := by decide
  have hw : (CHAOSCache.attacks _).ticks w.history = [0, 0] := by decide
  have htwice : ¬[0, 0].Pairwise (· < ·) := by decide
  exact ⟨⟨hx, fun h => htwice (hx ▸ h.2)⟩, ⟨hy, fun h => htwice (hy ▸ h.2)⟩, ⟨hz, fun h => htwice (hz ▸ h.2)⟩,
    ⟨hv, fun h => htwice (hv ▸ h.2)⟩, hw, fun h => htwice (hw ▸ h.2)⟩

end GemFI
