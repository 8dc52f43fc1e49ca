import GemFI.IQ.Wake
import GemFI.Lib.Run

/-!
# Deferred wake-ups

In `wake_phase` mode a skipped dependent is put back on its chain and also recorded as pending; the next call of
`wakeDependents` removes the entries of the pending wake-ups from the chains and marks them.  The machine below has
the calls of the issue queue that touch the chains: dispatch, the two phases of a squash, and `wakeDependents`.

If the hook defers only the last dependent of a chain, and no instruction with a pending wake-up is squashed out of
the queue, a chain with a pending wake-up holds its entry alone, and every deferred wake-up is delivered once
(`deferred_marked_once`).

A register is a flat index.  The destinations of a call are the registers that `wakeDependents` does not skip (those
with a fixed mapping or with pinned writes to come); renaming makes them distinct.
-/

namespace GemFI.IQ

open Drain

/-- An entry of a dependency chain.  The source keeps only the instruction; `op` tells apart the entries that were made
for different operands. -/
structure DepEntry where
  inst : Nat
  op : Nat
  deriving DecidableEq, Repr

/-- `panicked`: an assertion or a panic has stopped the simulator; `hung`: a loop has not ended in the given rounds. -/
inductive Status where
  | running | panicked | hung
  deriving DecidableEq, Repr

structure Delivery where
  entry : DepEntry
  reg : Nat
  /-- `dependGraph.remove` finds the instruction on the chain. -/
  present : Bool
  /-- The instruction is squashed, and its source is not marked. -/
  squashed : Bool
  deriving DecidableEq, Repr

structure Call where
  delivered : List Delivery
  woken : List (DepEntry × Nat)
  deferred : List (DepEntry × Nat)
  deriving DecidableEq, Repr

def Call.marks (c : Call) : List (DepEntry × Nat) :=
  (c.delivered.filter (!·.squashed)).map (fun v => (v.entry, v.reg)) ++ c.woken

structure InstructionQueue where
  dependGraph : Nat → List DepEntry
  regScoreboard : Nat → Bool
  isSquashed : Nat → Bool
  chaosIQ : CHAOSIQ DepEntry
  made : Nat
  calls : List Call
  status : Status

def fresh (q : Injector) : InstructionQueue where
  dependGraph _ := []
  regScoreboard _ := false
  isSquashed _ := false
  chaosIQ := { toInjector := q }
  made := 0
  calls := []
  status := .running

namespace InstructionQueue

/-- `addToDependents` for one source; a register that became ready before needs no entry. -/
def addToDependents (s : InstructionQueue) (inst r : Nat) : InstructionQueue :=
  if s.regScoreboard r then s
  else
    { s with
      dependGraph := Function.update s.dependGraph r (DependencyGraph.insert (s.dependGraph r) ⟨inst, s.made⟩)
      made := s.made + 1 }

def addToProducers (s : InstructionQueue) (r : Nat) : InstructionQueue :=
  if s.dependGraph r ≠ [] then { s with status := .panicked }
  else { s with regScoreboard := Function.update s.regScoreboard r false }

def setSquashed (s : InstructionQueue) (inst : Nat) : InstructionQueue :=
  { s with isSquashed := Function.update s.isSquashed inst true }

/-- `doSquash` for one source that is not ready. -/
def doSquash (s : InstructionQueue) (inst r : Nat) : InstructionQueue :=
  match DependencyGraph.remove (fun d : DepEntry => d.inst == inst) (s.dependGraph r) with
  | some chain => { s with dependGraph := Function.update s.dependGraph r chain }
  | none => { s with status := .panicked }

/-- The delivery of the pending wake-ups: the chains after it, or `none` if the assertion of `remove` fails. -/
def deliver (squashed : Nat → Bool) :
    (Nat → List DepEntry) → List (DepEntry × Nat) → List Delivery × Option (Nat → List DepEntry)
  | g, [] => ([], some g)
  | g, (d, r) :: ps =>
    let v : Delivery := ⟨d, r, (g r).any (·.inst == d.inst), squashed d.inst⟩
    match DependencyGraph.remove (fun e : DepEntry => e.inst == d.inst) (g r) with
    | some chain =>
      let (vs, g') := deliver squashed (Function.update g r chain) ps
      (v :: vs, g')
    | none => ([v], none)

structure Regs where
  graph : Nat → List DepEntry
  scoreboard : Nat → Bool
  chaosIQ : CHAOSIQ DepEntry
  woken : List (DepEntry × Nat) := []
  deferred : List (DepEntry × Nat) := []

/-- The loops over the destinations, one after the other.  The assertion that a chain without a requeued dependent is
empty cannot fail. -/
def wakeRegs (now fuel : Nat) : Regs → List Nat → Option Regs
  | x, [] => some x
  | x, r :: rs =>
    match wakeLoop now r fuel (enter x.chaosIQ (x.graph r)) with
    | none => none
    | some l =>
      wakeRegs now fuel
        { graph := Function.update x.graph r l.chain
          scoreboard := Function.update x.scoreboard r true
          chaosIQ := l.chaosIQ
          woken := x.woken ++ l.marked.map (·, r)
          deferred := x.deferred ++ (l.examined.filter (·.2 == .Defer)).map fun p => (p.1, r) } rs

def wakeDependents (fuel : Nat) (s : InstructionQueue) (now : Nat) (dests : List Nat) : InstructionQueue :=
  let (pending, q) := s.chaosIQ.takePendingWakeups
  match deliver s.isSquashed s.dependGraph pending with
  | (vs, none) => { s with chaosIQ := q, calls := s.calls ++ [⟨vs, [], []⟩], status := .panicked }
  | (vs, some g) =>
    match wakeRegs now fuel { graph := g, scoreboard := s.regScoreboard, chaosIQ := q } dests with
    | none => { s with chaosIQ := q, calls := s.calls ++ [⟨vs, [], []⟩], status := .hung }
    | some x =>
      { s with
        dependGraph := x.graph
        regScoreboard := x.scoreboard
        chaosIQ := x.chaosIQ
        calls := s.calls ++ [⟨vs, x.woken, x.deferred⟩] }

end InstructionQueue

inductive Event where
  | addToDependents (inst r : Nat)
  | addToProducers (r : Nat)
  | setSquashed (inst : Nat)
  | doSquash (inst r : Nat)
  | wakeDependents (now : Nat) (dests : List Nat) (h : dests.Nodup)

def step (fuel : Nat) (s : InstructionQueue) (e : Event) : InstructionQueue :=
  if s.status ≠ .running then s
  else
    match e with
    | .addToDependents inst r => s.addToDependents inst r
    | .addToProducers r => s.addToProducers r
    | .setSquashed inst => s.setSquashed inst
    | .doSquash inst r => s.doSquash inst r
    | .wakeDependents now dests _ => s.wakeDependents fuel now dests

/-! ### One chain -/

private theorem wakeLoop_last {q : CHAOSIQ DepEntry} (hmode : q.fi_mode = .WakePhase) {now r fuel : Nat}
    {chain : List DepEntry} (hlast : ∀ i < chain.length - 1, q.answers now i = .None) (hfuel : chain.length ≤ fuel) :
    ∃ l, wakeLoop now r fuel (enter q chain) = some l ∧ l.marked ++ l.chain = chain ∧ l.chain.length ≤ 1 ∧
      l.chaosIQ.toInjector = q.after now chain.length ∧
      l.chaosIQ.pending_wakeups = q.pending_wakeups ++ l.chain.map (·, r) ∧
      (l.examined.filter (·.2 == .Defer)).map Prod.fst = l.chain := by
  rcases List.eq_nil_or_concat' chain with rfl | ⟨init, x, rfl⟩
  · exact ⟨enter q [], by cases fuel <;> rfl, rfl, by simp [enter, DependencyGraph.pop], rfl,
      by simp [enter, DependencyGraph.pop], rfl⟩
  · have hkeep : ∀ i < init.length, keeps now q.toInjector i = false := fun i hi =>
      decide_eq_false (not_not.2 (hlast i (by simpa using hi)))
    obtain ⟨l, hl, hw⟩ := enter_of_drains r (drains_of_last (x := x) hkeep)
      (show _ ≤ fuel by simpa using hfuel)
    have hskip : (enter q (init ++ [x])).chaosIQ.skip = .Defer := by simp [enter, Injector.skip, hmode]
    obtain ⟨-, h2, h3, h4, -, -, h7, h8⟩ := hw
    rw [hskip] at h4 h7
    refine ⟨l, hl, ?_⟩
    rw [h2, h3, h4, h7, h8]
    cases keeps now q.toInjector init.length <;>
      simp [enter, List.filter_map, List.filter_append, Function.comp_def]

/-! ### The destinations of a call -/

def LastOnly (now : Nat) : Injector → List Nat → Prop
  | _, [] => True
  | q, n :: ns => (∀ i < n - 1, q.answers now i = .None) ∧ LastOnly now (q.after now n) ns

open InstructionQueue

/-- What the loops over `dests` make of `x`: a part of each chain is marked, and what is left is deferred. -/
private structure Woke (x y : Regs) (dests : List Nat) : Prop where
  mode : y.chaosIQ.fi_mode = .WakePhase
  chains : ∀ r ∈ dests, y.graph r <:+ x.graph r ∧ (y.graph r).length ≤ 1 ∧ y.scoreboard r = true
  others : ∀ r, r ∉ dests → y.graph r = x.graph r ∧ y.scoreboard r = x.scoreboard r
  woken : ∀ p ∈ y.woken, p ∈ x.woken ∨ ∃ m, m ++ y.graph p.2 = x.graph p.2 ∧ p.1 ∈ m
  deferred : y.deferred = x.deferred ++ dests.flatMap fun r => (y.graph r).map (·, r)
  pending : y.chaosIQ.pending_wakeups = x.chaosIQ.pending_wakeups ++ dests.flatMap fun r => (y.graph r).map (·, r)

private theorem mode_after (now : Nat) (q : Injector) (n : Nat) : (q.after now n).fi_mode = q.fi_mode := by
  induction n generalizing q with
  | zero => rfl
  | succ n ih => rw [Injector.after_succ, ih, (Injector.hook_mode now q).2]

private theorem Woke.suffix {x y : Regs} {dests : List Nat} (h : Woke x y dests) (r : Nat) :
    y.graph r <:+ x.graph r := by
  by_cases hr : r ∈ dests
  · exact (h.chains r hr).1
  · exact ⟨[], (h.others r hr).1⟩

private theorem Woke.cons {x x' y : Regs} {r : Nat} {rs : List Nat} (h : Woke x x' [r]) (h' : Woke x' y rs)
    (hr : r ∉ rs) : Woke x y (r :: rs) := by
  have hkeep : ∀ r' ≠ r, x'.graph r' = x.graph r' ∧ x'.scoreboard r' = x.scoreboard r' := fun r' hne =>
    h.others r' (by simpa using hne)
  obtain ⟨hyr, hyb⟩ := h'.others r hr
  refine ⟨h'.mode, ?_, ?_, ?_, ?_, ?_⟩
  · intro r' hr'
    rcases List.mem_cons.1 hr' with rfl | hr'
    · rw [hyr, hyb]
      exact h.chains r' (List.mem_singleton_self r')
    · have hne : r' ≠ r := fun heq => hr (heq ▸ hr')
      rw [← (hkeep r' hne).1]
      exact h'.chains r' hr'
  · intro r' hr'
    obtain ⟨hne, hr'⟩ : r' ≠ r ∧ r' ∉ rs := by simpa using hr'
    rw [← (hkeep r' hne).1, ← (hkeep r' hne).2]
    exact h'.others r' hr'
  · intro p hp
    -- what a chain loses in two steps it loses altogether
    rcases h'.woken p hp with hp | ⟨m, hm, hp⟩
    · rcases h.woken p hp with hp | ⟨m, hm, hp⟩
      · exact .inl hp
      · obtain ⟨m', hm'⟩ := h'.suffix p.2
        exact .inr ⟨m ++ m', by rw [List.append_assoc, hm', hm], List.mem_append_left _ hp⟩
    · obtain ⟨m', hm'⟩ := h.suffix p.2
      exact .inr ⟨m' ++ m, by rw [List.append_assoc, hm, hm'], List.mem_append_right _ hp⟩
  · rw [h'.deferred, h.deferred, List.flatMap_singleton, List.flatMap_cons, hyr, List.append_assoc]
  · rw [h'.pending, h.pending, List.flatMap_singleton, List.flatMap_cons, hyr, List.append_assoc]

private theorem wakeRegs_spec (now fuel : Nat) {x : Regs} {dests : List Nat} (hmode : x.chaosIQ.fi_mode = .WakePhase)
    (hnodup : dests.Nodup) (hlast : LastOnly now x.chaosIQ.toInjector (dests.map fun r => (x.graph r).length))
    (hfuel : ∀ r ∈ dests, (x.graph r).length ≤ fuel) :
    ∃ y, wakeRegs now fuel x dests = some y ∧ Woke x y dests := by
  induction dests generalizing x with
  | nil => exact ⟨x, rfl, hmode, by simp, fun _ _ => ⟨rfl, rfl⟩, fun p hp => .inl hp, by simp, by simp⟩
  | cons r rs ih =>
    obtain ⟨hr, hrs⟩ := List.nodup_cons.1 hnodup
    obtain ⟨l, hl, hmarked, hone, hinj, hpend, hdefer⟩ :=
      wakeLoop_last (r := r) hmode hlast.1 (hfuel r List.mem_cons_self)
    -- the state for the next register
    obtain ⟨x', hx'⟩ : ∃ x' : Regs, x' =
        { graph := Function.update x.graph r l.chain, scoreboard := Function.update x.scoreboard r true,
          chaosIQ := l.chaosIQ, woken := x.woken ++ l.marked.map (·, r),
          deferred := x.deferred ++ (l.examined.filter (·.2 == .Defer)).map fun p => (p.1, r) } := ⟨_, rfl⟩
    have hself : x'.graph r = l.chain := by rw [hx']; exact Function.update_self ..
    have hfirst : Woke x x' [r] := by
      refine ⟨?_, ?_, ?_, ?_, ?_, ?_⟩
      · rw [hx']
        exact (congrArg Injector.fi_mode hinj).trans ((mode_after now _ _).trans hmode)
      · intro r' hr'
        obtain rfl := List.mem_singleton.1 hr'
        rw [hself]
        exact ⟨⟨l.marked, hmarked⟩, hone, by rw [hx']; exact Function.update_self ..⟩
      · intro r' hr'
        have hne : r' ≠ r := by simpa using hr'
        rw [hx']
        exact ⟨Function.update_of_ne hne _ _, Function.update_of_ne hne _ _⟩
      · intro p hp
        rw [hx'] at hp
        rcases List.mem_append.1 hp with hp | hp
        · exact .inl hp
        · obtain ⟨d, hd, rfl⟩ := List.mem_map.1 hp
          exact .inr ⟨l.marked, by rw [hself, hmarked], hd⟩
      · rw [List.flatMap_singleton, hself, hx', ← hdefer, List.map_map]
        rfl
      · rw [List.flatMap_singleton, hself, hx']
        exact hpend
    have hgraph : ∀ r' ∈ rs, x'.graph r' = x.graph r' := fun r' hr' =>
      (hfirst.others r' (by simpa using fun heq : r' = r => hr (heq ▸ hr'))).1
    have hlens : (rs.map fun r => (x'.graph r).length) = rs.map fun r => (x.graph r).length :=
      List.map_congr_left fun r' hr' => by rw [hgraph r' hr']
    obtain ⟨y, hy, hw⟩ := ih (x := x') hfirst.mode hrs (by rw [hlens, hx']; exact hinj ▸ hlast.2)
      (fun r' hr' => by rw [hgraph r' hr']; exact hfuel r' (List.mem_cons_of_mem _ hr'))
    refine ⟨y, ?_, hfirst.cons hw hr⟩
    rw [wakeRegs, hl]
    dsimp only
    rw [← hx', hy]

/-! ### The pending wake-ups -/

private theorem deliver_spec (squashed : Nat → Bool) {g : Nat → List DepEntry} {ps : List (DepEntry × Nat)}
    (hp : ∀ p ∈ ps, g p.2 = [p.1]) (hnodup : (ps.map Prod.snd).Nodup) :
    deliver squashed g ps = (ps.map fun p => ⟨p.1, p.2, true, squashed p.1.inst⟩,
      some fun r => if r ∈ ps.map Prod.snd then [] else g r) := by
  induction ps generalizing g with
  | nil => simp [deliver]
  | cons p ps ih =>
    obtain ⟨d, r⟩ := p
    simp only [List.map_cons, List.nodup_cons] at hnodup
    have hr : g r = [d] := hp (d, r) List.mem_cons_self
    have hrest : ∀ p ∈ ps, Function.update g r [] p.2 = [p.1] := by
      intro p hp'
      rw [Function.update_of_ne, hp p (List.mem_cons_of_mem _ hp')]
      intro heq
      exact hnodup.1 (heq ▸ List.mem_map_of_mem hp')
    have hremove : DependencyGraph.remove (fun e : DepEntry => e.inst == d.inst) (g r) = some [] := by
      simp [DependencyGraph.remove, hr]
    rw [deliver, hremove]
    simp only [ih hrest hnodup.2, hr, List.map_cons, List.any_cons, List.any_nil, beq_self_eq_true, Bool.or_false,
      Prod.mk.injEq, Option.some.injEq, true_and]
    funext r'
    by_cases hr' : r' = r
    · simp [hr']
    · simp only [Function.update_of_ne hr', List.mem_cons, hr', false_or]

/-! ### The invariant -/

private def Gone (s : InstructionQueue) (d : DepEntry) : Prop := d.op < s.made ∧ ∀ r, d ∉ s.dependGraph r

private theorem Gone.mono {s s' : InstructionQueue} {d : DepEntry} (h : Gone s d) (hmade : s.made ≤ s'.made)
    (hchain : ∀ r, ∀ e ∈ s'.dependGraph r, e ∈ s.dependGraph r ∨ s.made ≤ e.op) : Gone s' d := by
  refine ⟨Nat.lt_of_lt_of_le h.1 hmade, fun r hr => ?_⟩
  rcases hchain r d hr with hr | hr
  · exact h.2 r hr
  · exact absurd h.1 (Nat.not_lt.2 hr)

def marksOf (calls : List Call) : List (DepEntry × Nat) := calls.flatMap Call.marks

private structure ChainInv (s : InstructionQueue) : Prop where
  pending : ∀ p ∈ s.chaosIQ.pending_wakeups, s.dependGraph p.2 = [p.1] ∧ s.regScoreboard p.2 = true
  length : ∀ r, (s.dependGraph r).length ≤ s.made
  made : ∀ r, ∀ d ∈ s.dependGraph r, d.op < s.made
  nodup : ∀ r, (s.dependGraph r).Nodup
  own : ∀ r r' d, d ∈ s.dependGraph r → d ∈ s.dependGraph r' → r = r'

private structure CallInv (s : InstructionQueue) : Prop where
  alive : s.status ≠ .hung
  mode : s.chaosIQ.fi_mode = .WakePhase
  distinct : (s.chaosIQ.pending_wakeups.map Prod.snd).Nodup
  marked : ∀ p ∈ marksOf s.calls, Gone s p.1
  last : s.chaosIQ.pending_wakeups = (s.calls.getLast?.map Call.deferred).getD []
  settled : ∀ i c c', s.calls[i]? = some c → s.calls[i + 1]? = some c' → ∀ p ∈ c.deferred, Gone s p.1 ∧
    ∃ v ∈ c'.delivered, (v.entry, v.reg) = p ∧ (marksOf s.calls).count p = if v.squashed then 0 else 1
  present : ∀ c ∈ s.calls, ∀ v ∈ c.delivered, v.present = true
  apart : ∀ c ∈ s.calls, ∀ p ∈ c.deferred, p ∉ c.marks

private theorem CallInv.frame {s s' : InstructionQueue} (h : CallInv s) (halive : s'.status ≠ .hung)
    (hcalls : s'.calls = s.calls) (hq : s'.chaosIQ = s.chaosIQ) (hmade : s.made ≤ s'.made)
    (hchain : ∀ r, ∀ e ∈ s'.dependGraph r, e ∈ s.dependGraph r ∨ s.made ≤ e.op) : CallInv s' := by
  refine ⟨halive, by rw [hq]; exact h.mode, by rw [hq]; exact h.distinct, ?_, by rw [hq, hcalls]; exact h.last, ?_,
    by rw [hcalls]; exact h.present, by rw [hcalls]; exact h.apart⟩
  · rw [hcalls]
    exact fun p hp => (h.marked p hp).mono hmade hchain
  · rw [hcalls]
    intro i c c' hc hc' p hp
    obtain ⟨hgone, hv⟩ := h.settled i c c' hc hc' p hp
    exact ⟨hgone.mono hmade hchain, hv⟩

private def Inv (s : InstructionQueue) : Prop := ChainInv s ∧ CallInv s

private theorem inv_fresh {q : Injector} (hmode : q.fi_mode = .WakePhase) : Inv (fresh q) := by
  refine ⟨⟨?_, ?_, ?_, ?_, ?_⟩, ⟨?_, hmode, ?_, ?_, rfl, ?_, ?_, ?_⟩⟩ <;> simp [fresh, marksOf]

variable {s : InstructionQueue}

private theorem inv_addToDependents (h : Inv s) (hrun : s.status = .running) (inst r : Nat) :
    Inv (s.addToDependents inst r) := by
  unfold addToDependents
  split
  · exact h
  rename_i hboard
  have hchain : ∀ r', ∀ e ∈ Function.update s.dependGraph r (DependencyGraph.insert (s.dependGraph r) ⟨inst, s.made⟩) r',
      e ∈ s.dependGraph r' ∨ (r' = r ∧ e = ⟨inst, s.made⟩) := by
    intro r' e he
    by_cases hr : r' = r
    · subst hr
      rw [Function.update_self, DependencyGraph.insert, List.mem_cons] at he
      exact he.symm.imp_right fun he => ⟨rfl, he⟩
    · rw [Function.update_of_ne hr] at he
      exact .inl he
  refine ⟨⟨?_, ?_, ?_, ?_, ?_⟩, h.2.frame (by simp [hrun]) rfl rfl (Nat.le_succ _) ?_⟩
  · intro p hp
    obtain ⟨hone, hready⟩ := h.1.pending p hp
    -- the chain of a pending wake-up belongs to a register that is ready
    have hne : p.2 ≠ r := fun heq => hboard (heq ▸ hready)
    exact ⟨by rw [← hone]; exact Function.update_of_ne hne _ _, hready⟩
  · intro r'
    have := h.1.length r'
    by_cases hr : r' = r
    · subst hr
      simp only [Function.update_self, DependencyGraph.insert, List.length_cons]
      omega
    · simp only [Function.update_of_ne hr]
      omega
  · intro r' d hd
    rcases hchain r' d hd with hd | ⟨-, rfl⟩
    · exact Nat.lt_succ_of_lt (h.1.made r' d hd)
    · exact Nat.lt_succ_self _
  · intro r'
    by_cases hr : r' = r
    · subst hr
      simp only [Function.update_self, DependencyGraph.insert, List.nodup_cons]
      exact ⟨fun hmem => absurd (h.1.made r' _ hmem) (Nat.lt_irrefl _), h.1.nodup r'⟩
    · simp only [Function.update_of_ne hr]
      exact h.1.nodup r'
  · intro r₁ r₂ d h₁ h₂
    rcases hchain r₁ d h₁ with k₁ | ⟨e₁, k₁⟩
    · rcases hchain r₂ d h₂ with k₂ | ⟨-, k₂⟩
      · exact h.1.own r₁ r₂ d k₁ k₂
      · exact absurd (h.1.made r₁ d k₁) (by rw [k₂]; exact Nat.lt_irrefl _)
    · rcases hchain r₂ d h₂ with k₂ | ⟨e₂, -⟩
      · exact absurd (h.1.made r₂ d k₂) (by rw [k₁]; exact Nat.lt_irrefl _)
      · rw [e₁, e₂]
  · intro r' e he
    rcases hchain r' e he with he | ⟨-, rfl⟩
    · exact .inl he
    · exact .inr (Nat.le_refl _)

private theorem inv_addToProducers (h : Inv s) (hrun : s.status = .running) (r : Nat) : Inv (s.addToProducers r) := by
  unfold addToProducers
  split
  · exact ⟨⟨h.1.pending, h.1.length, h.1.made, h.1.nodup, h.1.own⟩,
      h.2.frame (by simp) rfl rfl (Nat.le_refl _) fun _ _ he => .inl he⟩
  · rename_i hempty
    refine ⟨⟨?_, h.1.length, h.1.made, h.1.nodup, h.1.own⟩,
      h.2.frame (by simp [hrun]) rfl rfl (Nat.le_refl _) fun _ _ he => .inl he⟩
    intro p hp
    obtain ⟨hone, hready⟩ := h.1.pending p hp
    have hne : p.2 ≠ r := fun heq => hempty (by rw [← heq, hone]; exact List.cons_ne_nil _ _)
    exact ⟨hone, by rw [← hready]; exact Function.update_of_ne hne _ _⟩

private theorem inv_setSquashed (h : Inv s) (hrun : s.status = .running) (inst : Nat) : Inv (s.setSquashed inst) :=
  ⟨⟨h.1.pending, h.1.length, h.1.made, h.1.nodup, h.1.own⟩,
    h.2.frame (by simp [setSquashed, hrun]) rfl rfl (Nat.le_refl _) fun _ _ he => .inl he⟩

private theorem ChainInv.shrink {s s' : InstructionQueue} (h : ChainInv s) (hmade : s'.made = s.made)
    (hsub : ∀ r, (s'.dependGraph r).Sublist (s.dependGraph r))
    (hpend : ∀ p ∈ s'.chaosIQ.pending_wakeups, s'.dependGraph p.2 = [p.1] ∧ s'.regScoreboard p.2 = true) :
    ChainInv s' := by
  refine ⟨hpend, fun r => ?_, fun r d hd => ?_, fun r => (h.nodup r).sublist (hsub r), fun r r' d hd hd' => ?_⟩
  · rw [hmade]
    exact Nat.le_trans (hsub r).length_le (h.length r)
  · rw [hmade]
    exact h.made r d ((hsub r).mem hd)
  · exact h.own r r' d ((hsub r).mem hd) ((hsub r').mem hd')

private theorem inv_doSquash (h : Inv s) (hrun : s.status = .running) {inst : Nat} (r : Nat)
    (hno : ∀ p ∈ s.chaosIQ.pending_wakeups, (p.1.inst, p.2) ≠ (inst, r)) : Inv (s.doSquash inst r) := by
  unfold doSquash
  split
  · rename_i chain hremove
    have hsub : chain.Sublist (s.dependGraph r) := by
      unfold DependencyGraph.remove at hremove
      split at hremove
      · cases hremove
        exact List.nil_sublist _
      · split at hremove
        · cases hremove
          exact List.eraseP_sublist
        · cases hremove
    have hsub' : ∀ r', (Function.update s.dependGraph r chain r').Sublist (s.dependGraph r') := by
      intro r'
      by_cases hr : r' = r
      · subst hr
        rwa [Function.update_self]
      · rw [Function.update_of_ne hr]
    refine ⟨h.1.shrink rfl hsub' ?_,
      h.2.frame (by simp [hrun]) rfl rfl (Nat.le_refl _) fun r' e he => .inl ((hsub' r').mem he)⟩
    intro p hp
    obtain ⟨hone, hready⟩ := h.1.pending p hp
    have hne : p.2 ≠ r := by
      rintro rfl
      have hinst : p.1.inst ≠ inst := fun heq => hno p hp (by rw [heq])
      simp [DependencyGraph.remove, hone, hinst] at hremove
    exact ⟨by rw [← hone]; exact Function.update_of_ne hne _ _, hready⟩
  · exact ⟨⟨h.1.pending, h.1.length, h.1.made, h.1.nodup, h.1.own⟩,
      h.2.frame (by simp) rfl rfl (Nat.le_refl _) fun _ _ he => .inl he⟩

/-! ### A call keeps the invariant -/

def InstructionQueue.waiting (s : InstructionQueue) (r : Nat) : Nat :=
  if r ∈ s.chaosIQ.pending_wakeups.map Prod.snd then 0 else (s.dependGraph r).length

private theorem nodup_regs {dests : List Nat} (hnodup : dests.Nodup) {g : Nat → List DepEntry}
    (hg : ∀ r ∈ dests, (g r).length ≤ 1) :
    ((dests.flatMap fun r => (g r).map (·, r)).map Prod.snd).Nodup := by
  refine hnodup.sublist ?_
  clear hnodup
  induction dests with
  | nil => simp
  | cons r rs ih =>
    rw [List.forall_mem_cons] at hg
    have := ih hg.2
    rw [List.flatMap_cons, List.map_append, List.map_map]
    rcases hr : g r with _ | ⟨d, _ | ⟨e, l⟩⟩
    · exact this.cons r
    · exact this.cons_cons r
    · rw [hr] at hg
      simp at hg

private structure Midway (s : InstructionQueue) (y : Regs) (dests : List Nat) : Prop where
  mode : y.chaosIQ.fi_mode = .WakePhase
  sub : ∀ r, (y.graph r).Sublist (s.dependGraph r)
  delivered : ∀ p ∈ s.chaosIQ.pending_wakeups, y.graph p.2 = []
  woken : ∀ p ∈ y.woken, p.1 ∈ s.dependGraph p.2 ∧ p ∉ s.chaosIQ.pending_wakeups ∧ p.1 ∉ y.graph p.2
  deferred : y.deferred = dests.flatMap fun r => (y.graph r).map (·, r)
  pending : y.chaosIQ.pending_wakeups = y.deferred
  one : ∀ r ∈ dests, (y.graph r).length ≤ 1 ∧ y.scoreboard r = true

private def deliveries (s : InstructionQueue) : List Delivery :=
  s.chaosIQ.pending_wakeups.map fun p => ⟨p.1, p.2, true, s.isSquashed p.1.inst⟩

private theorem wakeDependents_spec (h : Inv s) {fuel now : Nat} {dests : List Nat} (hnodup : dests.Nodup)
    (hlast : LastOnly now s.chaosIQ.toInjector (dests.map s.waiting)) (hfuel : s.made ≤ fuel) :
    ∃ y, s.wakeDependents fuel now dests =
      { s with
        dependGraph := y.graph, regScoreboard := y.scoreboard, chaosIQ := y.chaosIQ
        calls := s.calls ++ [⟨deliveries s, y.woken, y.deferred⟩] } ∧ Midway s y dests := by
  have hdeliver := deliver_spec s.isSquashed (fun p hp => (h.1.pending p hp).1) h.2.distinct
  obtain ⟨g, hg⟩ : ∃ g : Nat → List DepEntry, g = fun r =>
      if r ∈ s.chaosIQ.pending_wakeups.map Prod.snd then [] else s.dependGraph r := ⟨_, rfl⟩
  have hgsub : ∀ r, (g r).Sublist (s.dependGraph r) := by
    intro r
    rw [hg]
    dsimp only
    split
    · exact List.nil_sublist _
    · exact List.Sublist.refl _
  have hwaiting : (dests.map fun r => (g r).length) = dests.map s.waiting := by
    refine List.map_congr_left fun r _ => ?_
    rw [hg, waiting]
    dsimp only
    split <;> rfl
  rw [← hg] at hdeliver
  obtain ⟨y, hy, hw⟩ := wakeRegs_spec now fuel
    (x := { graph := g, scoreboard := s.regScoreboard, chaosIQ := s.chaosIQ.takePendingWakeups.2 })
    h.2.mode hnodup (by rw [hwaiting]; exact hlast)
    fun r _ => Nat.le_trans (hgsub r).length_le (Nat.le_trans (h.1.length r) hfuel)
  have hsub : ∀ r, (y.graph r).Sublist (g r) := by
    intro r
    by_cases hr : r ∈ dests
    · exact (hw.chains r hr).1.sublist
    · rw [(hw.others r hr).1]
  refine ⟨y, ?_, hw.mode, fun r => (hsub r).trans (hgsub r), ?_, ?_, ?_, ?_,
    fun r hr => ⟨(hw.chains r hr).2.1, (hw.chains r hr).2.2⟩⟩
  · rw [wakeDependents, CHAOSIQ.takePendingWakeups]
    dsimp only
    rw [hdeliver]
    dsimp only
    rw [CHAOSIQ.takePendingWakeups] at hy
    rw [hy]
    rfl
  · intro p hp
    have hnil : g p.2 = [] := by
      rw [hg]
      exact if_pos (List.mem_map_of_mem hp)
    have := hsub p.2
    rw [hnil] at this
    exact List.sublist_nil.1 this
  · intro p hp
    rcases hw.woken p hp with hp | ⟨m, hm, hp⟩
    · cases hp
    change m ++ y.graph p.2 = g p.2 at hm
    have hmem : p.1 ∈ g p.2 := by
      rw [← hm]
      exact List.mem_append_left _ hp
    have hreg : p.2 ∉ s.chaosIQ.pending_wakeups.map Prod.snd := by
      intro hreg
      rw [hg] at hmem
      simp [hreg] at hmem
    refine ⟨(hgsub p.2).mem hmem, fun hpend => hreg (List.mem_map_of_mem hpend), fun hy => ?_⟩
    have hnd := (h.1.nodup p.2).sublist (hgsub p.2)
    rw [← hm] at hnd
    exact (List.nodup_append.1 hnd).2.2 _ hp _ hy rfl
  · rw [hw.deferred]
    rfl
  · rw [hw.deferred, hw.pending]
    rfl

private theorem marks_call (s : InstructionQueue) (woken deferred : List (DepEntry × Nat)) :
    Call.marks ⟨deliveries s, woken, deferred⟩ =
      s.chaosIQ.pending_wakeups.filter (fun p => !s.isSquashed p.1.inst) ++ woken := by
  simp [Call.marks, deliveries, List.filter_map, Function.comp_def]

section Call

variable {s s' : InstructionQueue} {y : Regs} {dests : List Nat} {p : DepEntry × Nat}

private theorem marks_gone (h : Inv s) (hm : Midway s y dests)
    (hp : p ∈ Call.marks ⟨deliveries s, y.woken, y.deferred⟩) : p.1 ∈ s.dependGraph p.2 ∧ ∀ r, p.1 ∉ y.graph r := by
  have hon : p.1 ∈ s.dependGraph p.2 ∧ p.1 ∉ y.graph p.2 := by
    rw [marks_call, List.mem_append, List.mem_filter] at hp
    rcases hp with ⟨hp, -⟩ | hp
    · rw [(h.1.pending p hp).1, hm.delivered p hp]
      simp
    · obtain ⟨h1, -, h2⟩ := hm.woken p hp
      exact ⟨h1, h2⟩
  refine ⟨hon.1, fun r hr => ?_⟩
  obtain rfl := h.1.own p.2 r p.1 hon.1 ((hm.sub r).mem hr)
  exact hon.2 hr

private theorem count_marks (h : Inv s) (hm : Midway s y dests) (hp : p ∈ s.chaosIQ.pending_wakeups) :
    (Call.marks ⟨deliveries s, y.woken, y.deferred⟩).count p = if s.isSquashed p.1.inst then 0 else 1 := by
  have hwoken : y.woken.count p = 0 := List.count_eq_zero.2 fun hw => (hm.woken p hw).2.1 hp
  have hone : s.chaosIQ.pending_wakeups.count p = 1 :=
    List.count_eq_one_of_mem (List.Nodup.of_map Prod.snd h.2.distinct) hp
  rw [marks_call, List.count_append, hwoken, Nat.add_zero]
  cases hsq : s.isSquashed p.1.inst with
  | true => exact List.count_eq_zero.2 fun hmem => by simp [hsq] at hmem
  | false => rw [List.count_filter (by simp [hsq]), hone]; rfl

private theorem marksOf_append (calls : List Call) (c : Call) : marksOf (calls ++ [c]) = marksOf calls ++ c.marks := by
  simp [marksOf]

private theorem neighbours {calls : List Call} {new c c' : Call} {i : Nat} (hc : (calls ++ [new])[i]? = some c)
    (hc' : (calls ++ [new])[i + 1]? = some c') :
    (calls[i]? = some c ∧ calls[i + 1]? = some c') ∨ (calls.getLast? = some c ∧ c' = new) := by
  have hlen : i + 1 < calls.length + 1 := by simpa using (List.getElem?_eq_some_iff.1 hc').1
  rw [List.getElem?_append_left (by omega)] at hc
  by_cases hi : i + 1 < calls.length
  · rw [List.getElem?_append_left hi] at hc'
    exact .inl ⟨hc, hc'⟩
  · have hi' : i + 1 = calls.length := by omega
    rw [hi', List.getElem?_concat_length, Option.some.injEq] at hc'
    refine .inr ⟨?_, hc'.symm⟩
    rw [List.getLast?_eq_getElem?, ← hc]
    congr 1
    omega

private theorem Midway.alone (hm : Midway s y dests) (hp : p ∈ y.deferred) : p.2 ∈ dests ∧ y.graph p.2 = [p.1] := by
  rw [hm.deferred] at hp
  obtain ⟨r, hr, hp⟩ := List.mem_flatMap.1 hp
  obtain ⟨d, hd, rfl⟩ := List.mem_map.1 hp
  have hone := (hm.one r hr).1
  rcases hl : y.graph r with _ | ⟨e, _ | ⟨e', l⟩⟩
  · rw [hl] at hd
    cases hd
  · rw [hl, List.mem_singleton] at hd
    exact ⟨hr, by rw [hd]⟩
  · rw [hl] at hone
    simp at hone

private theorem pending_settles (h : Inv s) (hm : Midway s y dests) (hp : p ∈ s.chaosIQ.pending_wakeups) :
    p.1.op < s.made ∧ (∀ r, p.1 ∉ y.graph r) ∧ (marksOf s.calls).count p = 0 := by
  have hon : p.1 ∈ s.dependGraph p.2 := by
    rw [(h.1.pending p hp).1]
    exact List.mem_singleton_self _
  refine ⟨h.1.made p.2 p.1 hon, fun r hr => ?_, ?_⟩
  · obtain rfl := h.1.own p.2 r p.1 hon ((hm.sub r).mem hr)
    rw [hm.delivered p hp] at hr
    cases hr
  · exact List.count_eq_zero.2 fun hmark => (h.2.marked p hmark).2 p.2 hon

private theorem inv_call (h : Inv s) (hrun : s.status = .running) (hnodup : dests.Nodup) (hm : Midway s y dests)
    (hs' : s' = { s with
      dependGraph := y.graph, regScoreboard := y.scoreboard, chaosIQ := y.chaosIQ
      calls := s.calls ++ [⟨deliveries s, y.woken, y.deferred⟩] }) : Inv s' := by
  have hgraph : s'.dependGraph = y.graph := by rw [hs']
  have hmade : s'.made = s.made := by rw [hs']
  have hcalls : s'.calls = s.calls ++ [⟨deliveries s, y.woken, y.deferred⟩] := by rw [hs']
  have hpending : s'.chaosIQ.pending_wakeups = y.deferred := by rw [hs']; exact hm.pending
  have hmono : ∀ {d}, Gone s d → Gone s' d := fun hd =>
    hd.mono (Nat.le_of_eq hmade.symm) fun r e he => .inl ((hm.sub r).mem (hgraph ▸ he))
  have hgone : ∀ p ∈ Call.marks ⟨deliveries s, y.woken, y.deferred⟩, Gone s' p.1 := fun p hp =>
    ⟨hmade ▸ h.1.made p.2 p.1 (marks_gone h hm hp).1, hgraph ▸ (marks_gone h hm hp).2⟩
  refine ⟨h.1.shrink hmade (fun r => hgraph ▸ hm.sub r) ?_, ⟨?_, ?_, ?_, ?_, ?_, ?_, ?_, ?_⟩⟩
  · intro p hp
    rw [hpending] at hp
    obtain ⟨hr, hone⟩ := hm.alone hp
    rw [hs']
    exact ⟨hone, (hm.one p.2 hr).2⟩
  · rw [hs']
    simp [hrun]
  · rw [hs']
    exact hm.mode
  · rw [hpending, hm.deferred]
    exact nodup_regs hnodup fun r hr => (hm.one r hr).1
  · intro p hp
    rw [hcalls, marksOf_append, List.mem_append] at hp
    rcases hp with hp | hp
    · exact hmono (h.2.marked p hp)
    · exact hgone p hp
  · rw [hpending, hcalls, List.getLast?_concat]
    rfl
  · intro i c c' hc hc' p hp
    rw [hcalls] at hc hc' ⊢
    rw [marksOf_append, List.count_append]
    rcases neighbours hc hc' with ⟨hc, hc'⟩ | ⟨hc, rfl⟩
    · -- settled before: the entry is on no chain, and the call does not mark it
      obtain ⟨hgone', v, hv, hvp, hcount⟩ := h.2.settled i c c' hc hc' p hp
      have hzero : (Call.marks ⟨deliveries s, y.woken, y.deferred⟩).count p = 0 :=
        List.count_eq_zero.2 fun hmark => hgone'.2 _ (marks_gone h hm hmark).1
      exact ⟨hmono hgone', v, hv, hvp, by rw [hcount, hzero, Nat.add_zero]⟩
    · -- pending until now
      have hpend : p ∈ s.chaosIQ.pending_wakeups := by
        rw [h.2.last, hc]
        exact hp
      obtain ⟨hmade', hchains, hzero⟩ := pending_settles h hm hpend
      refine ⟨⟨hmade ▸ hmade', hgraph ▸ hchains⟩, ⟨p.1, p.2, true, s.isSquashed p.1.inst⟩,
        List.mem_map_of_mem (f := fun p : DepEntry × Nat => (⟨p.1, p.2, true, s.isSquashed p.1.inst⟩ : Delivery)) hpend,
        rfl, by rw [hzero, count_marks h hm hpend, Nat.zero_add]⟩
  · intro c hc v hv
    rw [hcalls, List.mem_append, List.mem_singleton] at hc
    rcases hc with hc | rfl
    · exact h.2.present c hc v hv
    · obtain ⟨p, -, rfl⟩ := List.mem_map.1 hv
      rfl
  · intro c hc p hp hmark
    rw [hcalls, List.mem_append, List.mem_singleton] at hc
    rcases hc with hc | rfl
    · exact h.2.apart c hc p hp hmark
    · have hone := (hm.alone hp).2
      exact (marks_gone h hm hmark).2 p.2 (by rw [hone]; exact List.mem_singleton_self _)

end Call

/-! ### Runs -/

/-- The hook defers only the last dependent that a call finds on a chain, and no squash removes an instruction from the
chain of a register for which its wake-up is pending. -/
def PhaseFits (s : InstructionQueue) : Event → Prop
  | .wakeDependents now dests _ => LastOnly now s.chaosIQ.toInjector (dests.map s.waiting)
  | .doSquash inst r => ∀ p ∈ s.chaosIQ.pending_wakeups, (p.1.inst, p.2) ≠ (inst, r)
  | _ => True

instance LastOnly.decidable (now : Nat) : ∀ (q : Injector) (ns : List Nat), Decidable (LastOnly now q ns)
  | _, [] => .isTrue trivial
  | q, n :: ns => @instDecidableAnd _ _ inferInstance (LastOnly.decidable now (q.after now n) ns)

instance (s : InstructionQueue) (e : Event) : Decidable (PhaseFits s e) := by
  rcases e
  case wakeDependents now dests _ =>
    exact inferInstanceAs (Decidable (LastOnly now s.chaosIQ.toInjector (dests.map s.waiting)))
  case doSquash inst r => exact inferInstanceAs (Decidable (∀ p ∈ s.chaosIQ.pending_wakeups, (p.1.inst, p.2) ≠ (inst, r)))
  all_goals exact .isTrue trivial

private theorem inv_step (h : Inv s) {fuel : Nat} (hfuel : s.made ≤ fuel) {e : Event} (hfit : PhaseFits s e) :
    Inv (step fuel s e) ∧ (step fuel s e).made ≤ s.made + 1 := by
  unfold step
  split
  · exact ⟨h, Nat.le_succ _⟩
  rename_i hrun
  have hrun : s.status = .running := not_not.1 hrun
  cases e with
  | addToDependents inst r =>
    refine ⟨inv_addToDependents h hrun inst r, ?_⟩
    show (s.addToDependents inst r).made ≤ s.made + 1
    unfold addToDependents
    split
    · exact Nat.le_succ _
    · exact Nat.le_refl _
  | addToProducers r =>
    refine ⟨inv_addToProducers h hrun r, ?_⟩
    show (s.addToProducers r).made ≤ s.made + 1
    unfold addToProducers
    split <;> exact Nat.le_succ _
  | setSquashed inst => exact ⟨inv_setSquashed h hrun inst, Nat.le_succ _⟩
  | doSquash inst r =>
    refine ⟨inv_doSquash h hrun r hfit, ?_⟩
    show (s.doSquash inst r).made ≤ s.made + 1
    unfold doSquash
    split <;> exact Nat.le_succ _
  | wakeDependents now dests hnodup =>
    obtain ⟨y, hy, hm⟩ := wakeDependents_spec h hnodup hfit hfuel
    exact ⟨inv_call h hrun hnodup hm hy, by dsimp only; rw [hy]; exact Nat.le_succ _⟩

private theorem inv_run (h : Inv s) {fuel : Nat} {es : List Event} (hfuel : s.made + es.length ≤ fuel)
    (hfit : Along (step fuel) PhaseFits s es) : Inv (es.foldl (step fuel) s) := by
  induction es generalizing s with
  | nil => exact h
  | cons e es ih =>
    rw [List.length_cons] at hfuel
    obtain ⟨h', hmade⟩ := inv_step h (show s.made ≤ fuel by omega) hfit.1
    exact ih h' (by omega) hfit.2

/-- Every deferred wake-up of a history of calls is marked once: not in the call that defers it, and in the next one
unless its instruction is squashed by then; and its entry is found on the chain. -/
structure MarkedOnce (calls : List Call) : Prop where
  apart : ∀ c ∈ calls, ∀ p ∈ c.deferred, p ∉ c.marks
  next : ∀ i c c', calls[i]? = some c → calls[i + 1]? = some c' → ∀ p ∈ c.deferred,
    ∃ v ∈ c'.delivered, (v.entry, v.reg) = p ∧ (marksOf calls).count p = if v.squashed then 0 else 1
  waiting : ∀ c, calls.getLast? = some c → ∀ p ∈ c.deferred, p ∉ marksOf calls
  present : ∀ c ∈ calls, ∀ v ∈ c.delivered, v.present = true

/-- In `wake_phase` mode, along a run in which the hook defers only last dependents and no squash removes an instruction
from the chain on which its wake-up is pending, every call ends and every deferred wake-up is marked once. -/
theorem deferred_marked_once (q : Injector) (hmode : q.fi_mode = .WakePhase) (fuel : Nat) (es : List Event)
    (hfuel : es.length ≤ fuel) (hfit : Along (step fuel) PhaseFits (fresh q) es) :
    (es.foldl (step fuel) (fresh q)).status ≠ .hung ∧ MarkedOnce (es.foldl (step fuel) (fresh q)).calls := by
  have h := inv_run (inv_fresh hmode) (by simpa [fresh] using hfuel) hfit
  refine ⟨h.2.alive, h.2.apart, fun i c c' hc hc' p hp => (h.2.settled i c c' hc hc' p hp).2, ?_, h.2.present⟩
  intro c hc p hp hmark
  have hpend : p ∈ (es.foldl (step fuel) (fresh q)).chaosIQ.pending_wakeups := by
    rw [h.2.last, hc]
    exact hp
  refine (h.2.marked p hmark).2 p.2 ?_
  rw [(h.1.pending p hpend).1]
  exact List.mem_singleton_self _

def twoWaiting : List Event :=
  [.addToProducers 0, .addToDependents 1 0, .addToDependents 2 0, .wakeDependents 0 [0] (by decide),
    .wakeDependents 1 [] (by decide)]

def deferSecond : Injector :=
  { fi_mode := .WakePhase, probability := 1 / 2, first_clock := 0, last_clock := 0, max_faults := 0,
    rng := fun i => if i = 1 then 0 else 1 }

theorem deferred_marked_once_two :
    Along (step 5) PhaseFits (fresh deferSecond) twoWaiting ∧
    (twoWaiting.foldl (step 5) (fresh deferSecond)).calls =
      [⟨[], [(⟨2, 1⟩, 0)], [(⟨1, 0⟩, 0)]⟩, ⟨[⟨⟨1, 0⟩, 0, true, false⟩], [], []⟩] ∧
    MarkedOnce (twoWaiting.foldl (step 5) (fresh deferSecond)).calls :=
  ⟨by decide +kernel, by decide +kernel,
    (deferred_marked_once deferSecond rfl 5 twoWaiting (by decide) (by decide +kernel)).2⟩

def deferOnce : Injector :=
  { fi_mode := .WakePhase, probability := 1, first_clock := 0, last_clock := 0, max_faults := 1, rng := fun _ => 0 }

/-- The deferred dependent is woken in the same call when it comes up again; the next call marks it a second time, and
its entry is not there. -/
theorem deferred_woken_twice :
    (twoWaiting.foldl (step 5) (fresh deferOnce)).calls =
      [⟨[], [(⟨1, 0⟩, 0), (⟨2, 1⟩, 0)], [(⟨2, 1⟩, 0)]⟩, ⟨[⟨⟨2, 1⟩, 0, false, false⟩], [], []⟩] ∧
    (marksOf (twoWaiting.foldl (step 5) (fresh deferOnce)).calls).count (⟨2, 1⟩, 0) = 2 := by
  decide +kernel

end GemFI.IQ
