import GemFI.Lib.Run
import GemFI.Reg.CHAOSPhysReg
import GemFI.Reg.CHAOSReg

/-!
# The budget of the register injectors

Both injectors compare the count with the budget after the loop over the threads only, and each thread may get a fault.
So the budget holds in a run if and only if no attack on several threads injects more faults than are left
(`budget_kept_iff`).
-/

namespace GemFI.Reg

/-! ### Counted attacks -/

section Counted

variable {σ ε : Type}

/-- An injector that counts: an attack that is not squashed adds its hits, and schedules the next one only if the budget is
not used up. -/
structure Counted (step : σ → ε → σ) (attack : ε) (event : σ → Option Pending) (count hits : σ → Nat) (m : Nat) :
    Prop where
  idle : ∀ s, event s = none → step s attack = s
  attack_count : ∀ s p, event s = some p → count (step s attack) = count s + (if p.squashed then 0 else hits s)
  next : ∀ s p q, event s = some p → event (step s attack) = some q → count (step s attack) < m
  other : ∀ s e, e ≠ attack → count (step s e) = count s ∧ event (step s e) = event s

variable {step : σ → ε → σ} {attack : ε} {event : σ → Option Pending} {count hits : σ → Nat} {m : Nat}

theorem Counted.run_iff (h : Counted step attack event count hits m) {s : σ} (hm : count s < m) (es : List ε) :
    Along step (fun s e => count (step s e) ≤ m) s es ↔
      Along step (fun s e => e = attack → ∀ p, event s = some p → p.squashed = false →
        hits s ≤ 1 ∨ count s + hits s ≤ m) s es := by
  -- an attack in the queue has a fault left
  refine Along.congr_of_invariant (I := fun s => count s ≤ m ∧ ∀ p, event s = some p → count s < m) (fun s e hs => ?_)
    ⟨Nat.le_of_lt hm, fun _ _ => hm⟩ es
  by_cases he : e = attack
  · subst he
    cases hp : event s with
    | none =>
      rw [h.idle s hp]
      exact ⟨⟨fun _ _ p hp' => (by cases hp'), fun _ => hs.1⟩, fun _ => hs⟩
    | some p =>
      have hcount := h.attack_count s p hp
      have hlt := hs.2 p hp
      have hiff : count (step s e) ≤ m ↔ (p.squashed = false → hits s ≤ 1 ∨ count s + hits s ≤ m) := by
        rw [hcount]
        cases p.squashed with
        | true => simpa using Nat.le_of_lt hlt
        | false =>
          simp only [Bool.false_eq_true, if_false, forall_const]
          omega
      refine ⟨hiff.trans ⟨fun hle _ q hq => Option.some.inj hq ▸ hle, fun hle => hle rfl p rfl⟩, fun hle => ?_⟩
      exact ⟨hiff.2 (hle rfl p rfl), fun q hq => h.next s p q hp hq⟩
  · obtain ⟨hcount, hevent⟩ := h.other s e he
    rw [hcount, hevent]
    exact ⟨⟨fun _ heq => absurd heq he, fun _ => hs.1⟩, fun _ => hs⟩

end Counted

/-! ### The two injectors -/

theorem CHAOSReg.counted_hits {cfg : RegConfig} (hm : 0 < cfg.max_faults) :
    Counted (step : CHAOSReg cfg → Event → CHAOSReg cfg) .attack attackEvent faults_injected_count
      (fun s => hits (handling s)) cfg.max_faults where
  idle := by
    intro s hs
    dsimp only [step]
    rw [hs]
  attack_count := fun s p hp => (step_attack_spec hp).1
  next := by
    intro s p q hp hq
    have hspent := (step_attack_spec hp).2.2 q hq
    unfold Spent at hspent
    omega
  other := fun s e he => step_frame s he

theorem CHAOSPhysReg.counted_hits {cfg : PhysRegConfig} (hm : 0 < cfg.max_faults) :
    Counted (step : CHAOSPhysReg cfg → Event → CHAOSPhysReg cfg) .attack attackEvent faults_injected_count
      (fun s => hits (handling s)) cfg.max_faults where
  idle := by
    intro s hs
    dsimp only [step]
    rw [hs]
  attack_count := fun s p hp => (step_attack_spec hp).1
  next := by
    intro s p q hp hq
    have hspent := (step_attack_spec hp).2.2 q hq
    unfold Spent at hspent
    omega
  other := fun s e he => step_frame s he

/-- In a run of CHAOSReg or of CHAOSPhysReg the count is within the budget after every step if and only if every attack
that is in the queue and not squashed finds registers to hit in at most one thread, or in no more than faults are left. -/
theorem budget_kept_iff (reg : RegConfig) (hreg : 0 < reg.max_faults) (regs : Nat × RegId → BitVec 64)
    (phys : PhysRegConfig) (hphys : 0 < phys.max_faults) (scalar : ScalarClass → Nat → BitVec 64)
    (vecReg : Nat → Nat → BitVec 8) (draw : Nat → Nat) (rs : List CHAOSReg.Event) (ps : List CHAOSPhysReg.Event) :
    (Along CHAOSReg.step (fun s e => (s.step e).faults_injected_count ≤ reg.max_faults) (.init reg regs draw) rs ↔
      Along CHAOSReg.step (fun s e => e = .attack → ∀ p, s.attackEvent = some p → p.squashed = false →
        s.handling.hits ≤ 1 ∨ s.faults_injected_count + s.handling.hits ≤ reg.max_faults) (.init reg regs draw) rs) ∧
    (Along CHAOSPhysReg.step (fun s e => (s.step e).faults_injected_count ≤ phys.max_faults)
        (.init phys scalar vecReg draw) ps ↔
      Along CHAOSPhysReg.step (fun s e => e = .attack → ∀ p, s.attackEvent = some p → p.squashed = false →
        s.handling.hits ≤ 1 ∨ s.faults_injected_count + s.handling.hits ≤ phys.max_faults)
        (.init phys scalar vecReg draw) ps) :=
  ⟨(CHAOSReg.counted_hits hreg).run_iff hreg rs, (CHAOSPhysReg.counted_hits hphys).run_iff hphys ps⟩

/-- With one thread every attack is within the budget of one: the first attack uses it up, and there is no other. -/
theorem budget_kept_one_thread :
    let s : CHAOSReg (oneThread 1) := .init _ (fun _ => 0) fun _ => 0
    let t : CHAOSPhysReg { fourRegs with max_faults := 1 } := .init _ (fun _ _ => 0) (fun _ _ => 0) fun _ => 0
    Along CHAOSReg.step (fun s e => (s.step e).faults_injected_count ≤ 1) s [.attack, .attack] ∧
    Along CHAOSPhysReg.step (fun s e => (s.step e).faults_injected_count ≤ 1) t [.attack, .attack] := by
  intro s t
  obtain ⟨hreg, hphys⟩ := budget_kept_iff (oneThread 1) (by decide) (fun _ => 0) { fourRegs with max_faults := 1 }
    (by decide) (fun _ _ => 0) (fun _ _ => 0) (fun _ => 0) [.attack, .attack] [.attack, .attack]
  refine ⟨hreg.2 ⟨fun _ p _ _ => ?_, fun _ p hp _ => ?_, trivial⟩, hphys.2 ⟨fun _ p _ _ => ?_, fun _ p hp _ => ?_, trivial⟩⟩
  · decide
  · cases hp
  · decide
  · cases hp

/-- A budget of one and two active threads: the first attack injects two faults. -/
theorem budget_exceeded :
    let s : CHAOSReg { oneThread 1 with numThreads := 2 } := CHAOSReg.step (.init _ (fun _ => 0) fun _ => 0) .attack
    let t : CHAOSPhysReg { fourRegs with numThreads := 2, max_faults := 1 } :=
      CHAOSPhysReg.step (.init _ (fun _ _ => 0) (fun _ _ => 0) fun _ => 0) .attack
    (s.faults_injected_count = 2 ∧ ¬s.faults_injected_count ≤ 1) ∧
    (t.faults_injected_count = 2 ∧ ¬t.faults_injected_count ≤ 1) := by
  decide

end GemFI.Reg
