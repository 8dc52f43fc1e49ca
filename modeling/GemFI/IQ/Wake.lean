import GemFI.IQ.CHAOSIQ
import GemFI.Lib.Drain
import Mathlib.Data.List.Nodup

/-!
# The waking loop

`wakeDependents` walks the dependency chain of a destination register: it pops a dependent, asks the injector, and
marks the dependent's source ready or puts the dependent back, on top of what is left after the next one has been
popped.  So the loop is a drain with put-backs of the library (`wakeLoop_iff`): a skipped dependent comes up again in
the same call unless it was the last one.

Chains are lists with the newest dependent first.  The head nodes' instruction pointers and the ready lists that
`addIfReady` fills are left out.
-/

namespace GemFI.IQ

open Drain

variable {α : Type}

/-! ### Dependency chains -/

namespace DependencyGraph

def insert (chain : List α) (new_inst : α) : List α := new_inst :: chain

def pop : List α → Option α × List α
  | [] => (none, [])
  | inst :: chain => (some inst, chain)

/-- The entry of the instruction is removed; an empty chain is left alone, and on a chain without the instruction the
assertion fails. -/
def remove (same : α → Bool) (chain : List α) : Option (List α) :=
  if chain = [] then some [] else if chain.any same then some (chain.eraseP same) else none

end DependencyGraph

/-! ### The loop -/

structure WakeLoop (α : Type) where
  dep_inst : Option α
  chain : List α
  chaosIQ : CHAOSIQ α
  requeued : Bool := false
  dependents : Nat := 0
  /-- The dependents the hook was asked about, with its answers. -/
  examined : List (α × HookAction) := []
  /-- The dependents on which `markSrcRegReady` and `addIfReady` were called. -/
  marked : List α := []

/-- The body of the loop.  Without an injector every dependent is woken, as if the hook answered `None`. -/
def wakeBody (now reg : Nat) (s : WakeLoop α) (dep : α) : WakeLoop α :=
  let (act, injector) := Injector.hookWakeDependents now s.chaosIQ.toInjector
  let chaosIQ := { s.chaosIQ with toInjector := injector }
  let (next, chain) := DependencyGraph.pop s.chain
  if act ≠ .None then
    { dep_inst := next
      chain := DependencyGraph.insert chain dep
      chaosIQ := if act = .Defer then chaosIQ.recordDeferred dep reg else chaosIQ
      requeued := true
      dependents := s.dependents + 1
      examined := s.examined ++ [(dep, act)]
      marked := s.marked }
  else
    { dep_inst := next
      chain := chain
      chaosIQ := chaosIQ
      requeued := s.requeued
      dependents := s.dependents + 1
      examined := s.examined ++ [(dep, act)]
      marked := s.marked ++ [dep] }

/-- `while (dep_inst)`: `none` if `fuel` rounds are not enough. -/
def wakeLoop (now reg : Nat) : Nat → WakeLoop α → Option (WakeLoop α)
  | 0, s => if s.dep_inst.isNone then some s else none
  | fuel + 1, s =>
    match s.dep_inst with
    | none => some s
    | some dep => wakeLoop now reg fuel (wakeBody now reg s dep)

def enter (q : CHAOSIQ α) (chain : List α) : WakeLoop α :=
  { dep_inst := (DependencyGraph.pop chain).1, chain := (DependencyGraph.pop chain).2, chaosIQ := q }

/-! ### The loop is a drain -/

def keeps (now : Nat) (q : Injector) (i : Nat) : Bool := decide (q.answers now i ≠ .None)

structure Wakes (now reg : Nat) (s s' : WakeLoop α) (t : List (α × Bool)) (rest : List α) : Prop where
  dep_inst : s'.dep_inst = none
  chain : s'.chain = rest
  injector : s'.chaosIQ.toInjector = s.chaosIQ.after now t.length
  pending : s'.chaosIQ.pending_wakeups = s.chaosIQ.pending_wakeups ++
    if s.chaosIQ.skip = .Defer then (t.filter (·.2)).map fun p => (p.1, reg) else []
  requeued : s'.requeued = (s.requeued || t.any (·.2))
  dependents : s'.dependents = s.dependents + t.length
  examined : s'.examined = s.examined ++ t.map fun p => (p.1, if p.2 then s.chaosIQ.skip else .None)
  marked : s'.marked = s.marked ++ (t.filter (!·.2)).map Prod.fst

section Steps

variable {now reg : Nat} {s s' : WakeLoop α} {x : α} {t : List (α × Bool)} {rest : List α}

private theorem keeps_later (q : Injector) :
    keeps now (Injector.hookWakeDependents now q).2 = later (keeps now q) := rfl

private theorem wakeBody_pass (h : keeps now s.chaosIQ.toInjector 0 = false) :
    wakeBody now reg s x =
      { dep_inst := s.chain.head?, chain := s.chain.tail,
        chaosIQ := { s.chaosIQ with toInjector := (Injector.hookWakeDependents now s.chaosIQ.toInjector).2 },
        requeued := s.requeued, dependents := s.dependents + 1,
        examined := s.examined ++ [(x, .None)], marked := s.marked ++ [x] } := by
  have hact : (Injector.hookWakeDependents now s.chaosIQ.toInjector).1 = .None := not_not.1 (of_decide_eq_false h)
  rcases hc : s.chain with _ | ⟨y, l⟩ <;> simp [wakeBody, hact, DependencyGraph.pop, hc]

private theorem wakeBody_skip (h : keeps now s.chaosIQ.toInjector 0 = true) :
    wakeBody now reg s x =
      { dep_inst := s.chain.head?, chain := x :: s.chain.tail,
        chaosIQ :=
          { toInjector := (Injector.hookWakeDependents now s.chaosIQ.toInjector).2
            pending_wakeups := s.chaosIQ.pending_wakeups ++ if s.chaosIQ.skip = .Defer then [(x, reg)] else [] },
        requeued := true, dependents := s.dependents + 1,
        examined := s.examined ++ [(x, s.chaosIQ.skip)], marked := s.marked } := by
  have hne : (Injector.hookWakeDependents now s.chaosIQ.toInjector).1 ≠ .None := of_decide_eq_true h
  have hact := (Injector.hook_mode now s.chaosIQ.toInjector).1.resolve_left hne
  rw [hact] at hne
  by_cases hd : s.chaosIQ.skip = .Defer <;> rcases hc : s.chain with _ | ⟨y, l⟩ <;>
    simp [wakeBody, hact, hne, hd, DependencyGraph.pop, DependencyGraph.insert, CHAOSIQ.recordDeferred, hc]

private theorem skip_after (now : Nat) (q : Injector) : (Injector.hookWakeDependents now q).2.skip = q.skip := by
  simp only [Injector.skip, (Injector.hook_mode now q).2]

private theorem Wakes.cons (h : Wakes now reg (wakeBody now reg s x) s' t rest) :
    Wakes now reg s s' ((x, keeps now s.chaosIQ.toInjector 0) :: t) rest := by
  have hskip := skip_after now s.chaosIQ.toInjector
  obtain ⟨h1, h2, h3, h4, h5, h6, h7, h8⟩ := h
  cases hk : keeps now s.chaosIQ.toInjector 0 with
  | false =>
    rw [wakeBody_pass hk] at h3 h4 h5 h6 h7 h8
    rw [hskip] at h4 h7
    constructor
    · exact h1
    · exact h2
    · exact h3
    · simpa using h4
    · simpa using h5
    · rw [h6, List.length_cons, Nat.add_right_comm, Nat.add_assoc]
    · simpa using h7
    · simpa using h8
  | true =>
    rw [wakeBody_skip hk] at h3 h4 h5 h6 h7 h8
    rw [hskip] at h4 h7
    constructor
    · exact h1
    · exact h2
    · exact h3
    · by_cases hd : s.chaosIQ.skip = .Defer <;> simpa [hd] using h4
    · simpa using h5
    · rw [h6, List.length_cons, Nat.add_right_comm, Nat.add_assoc]
    · simpa using h7
    · simpa using h8

private theorem wakeLoop_done (h : s.dep_inst = none) (fuel : Nat) : wakeLoop now reg fuel s = some s := by
  cases fuel <;> simp [wakeLoop, h]

private theorem wakes_done (now reg : Nat) (h : s.dep_inst = none) : Wakes now reg s s [] s.chain :=
  ⟨h, rfl, rfl, by simp, by simp, rfl, by simp, by simp⟩

private theorem wakeLoop_succ (hx : s.dep_inst = some x) (fuel : Nat) :
    wakeLoop now reg (fuel + 1) s = wakeLoop now reg fuel (wakeBody now reg s x) := by
  simp [wakeLoop, hx]

private theorem wakeBody_last (now reg : Nat) (x : α) (hc : s.chain = []) :
    (wakeBody now reg s x).dep_inst = none ∧
    (wakeBody now reg s x).chain = if keeps now s.chaosIQ.toInjector 0 then [x] else [] := by
  cases hk : keeps now s.chaosIQ.toInjector 0 with
  | false => simp [wakeBody_pass hk, hc]
  | true => simp [wakeBody_skip hk, hc]

private theorem wakeBody_next (now reg : Nat) (x : α) {y : α} {l : List α} (hc : s.chain = y :: l) :
    (wakeBody now reg s x).dep_inst = some y ∧
    (wakeBody now reg s x).chain = (if keeps now s.chaosIQ.toInjector 0 then x :: l else l) ∧
    keeps now (wakeBody now reg s x).chaosIQ.toInjector = later (keeps now s.chaosIQ.toInjector) := by
  cases hk : keeps now s.chaosIQ.toInjector 0 with
  | false => simp [wakeBody_pass hk, hc, keeps_later]
  | true => simp [wakeBody_skip hk, hc, keeps_later]

theorem drains_of_wakeLoop {fuel : Nat} (hx : s.dep_inst = some x) (h : wakeLoop now reg fuel s = some s') :
    ∃ t rest, Drains (keeps now s.chaosIQ.toInjector) (x :: s.chain) t rest ∧ Wakes now reg s s' t rest := by
  induction fuel generalizing s x with
  | zero => simp [wakeLoop, hx] at h
  | succ fuel ih =>
    rw [wakeLoop_succ hx] at h
    rcases hc : s.chain with _ | ⟨y, l⟩
    · obtain ⟨hdep, hchain⟩ := wakeBody_last now reg x hc
      rw [wakeLoop_done hdep, Option.some.injEq] at h
      subst h
      have := (wakes_done now reg hdep).cons
      rw [hchain] at this
      exact ⟨_, _, .last _ x, this⟩
    · obtain ⟨hdep, hchain, hkeeps⟩ := wakeBody_next now reg x hc
      obtain ⟨t, rest, hd, hw⟩ := ih hdep h
      rw [hkeeps, hchain] at hd
      refine ⟨_, rest, ?_, hw.cons⟩
      cases hk : keeps now s.chaosIQ.toInjector 0 with
      | false => exact .done hk (by simpa [hk] using hd)
      | true => exact .put hk (by simpa [hk] using hd)

private theorem wakeLoop_round {fuel : Nat} (hx : s.dep_inst = some x)
    (h : ∃ s', wakeLoop now reg fuel (wakeBody now reg s x) = some s' ∧
      Wakes now reg (wakeBody now reg s x) s' t rest) :
    ∃ s', wakeLoop now reg (fuel + 1) s = some s' ∧
      Wakes now reg s s' ((x, keeps now s.chaosIQ.toInjector 0) :: t) rest := by
  obtain ⟨s', hs', hw⟩ := h
  exact ⟨s', by rw [wakeLoop_succ hx, hs'], hw.cons⟩

theorem wakeLoop_of_drains {keep : Nat → Bool} {l : List α} {fuel : Nat} (h : Drains keep l t rest)
    (hkeep : keep = keeps now s.chaosIQ.toInjector) (hl : l = x :: s.chain) (hx : s.dep_inst = some x)
    (hfuel : t.length ≤ fuel) : ∃ s', wakeLoop now reg fuel s = some s' ∧ Wakes now reg s s' t rest := by
  induction h generalizing s x fuel with
  | nil => cases hl
  | last keep z =>
    obtain ⟨fuel, rfl⟩ : ∃ n, fuel = n + 1 := ⟨fuel - 1, by simp at hfuel; omega⟩
    obtain ⟨rfl, hc⟩ := List.cons.inj hl
    subst hkeep
    obtain ⟨hdep, hchain⟩ := wakeBody_last now reg z hc.symm
    rw [← hchain]
    exact wakeLoop_round hx ⟨_, wakeLoop_done hdep fuel, wakes_done now reg hdep⟩
  | @put keep z y l t rest hk _ ih =>
    obtain ⟨fuel, rfl⟩ : ∃ n, fuel = n + 1 := ⟨fuel - 1, by simp at hfuel; omega⟩
    obtain ⟨rfl, hc⟩ := List.cons.inj hl
    subst hkeep
    obtain ⟨hdep, hchain, hkeeps⟩ := wakeBody_next now reg z hc.symm
    rw [hk, if_pos rfl] at hchain
    have := wakeLoop_round hx (ih hkeeps.symm (by rw [hchain]) hdep (by simpa using hfuel))
    rwa [hk] at this
  | @done keep z y l t rest hk _ ih =>
    obtain ⟨fuel, rfl⟩ : ∃ n, fuel = n + 1 := ⟨fuel - 1, by simp at hfuel; omega⟩
    obtain ⟨rfl, hc⟩ := List.cons.inj hl
    subst hkeep
    obtain ⟨hdep, hchain, hkeeps⟩ := wakeBody_next now reg z hc.symm
    rw [hk, if_neg Bool.false_ne_true] at hchain
    have := wakeLoop_round hx (ih hkeeps.symm (by rw [hchain]) hdep (by simpa using hfuel))
    rwa [hk] at this

theorem drains_of_enter {q : CHAOSIQ α} {chain : List α} {fuel : Nat}
    (h : wakeLoop now reg fuel (enter q chain) = some s') :
    ∃ t rest, Drains (keeps now q.toInjector) chain t rest ∧ Wakes now reg (enter q chain) s' t rest := by
  rcases chain with _ | ⟨x, l⟩
  · rw [wakeLoop_done rfl, Option.some.injEq] at h
    subst h
    exact ⟨[], [], .nil _, wakes_done now reg rfl⟩
  · exact drains_of_wakeLoop (s := enter q (x :: l)) rfl h

theorem enter_of_drains (reg : Nat) {q : CHAOSIQ α} {chain : List α} {fuel : Nat}
    (h : Drains (keeps now q.toInjector) chain t rest) (hfuel : t.length ≤ fuel) :
    ∃ s', wakeLoop now reg fuel (enter q chain) = some s' ∧ Wakes now reg (enter q chain) s' t rest := by
  rcases chain with _ | ⟨x, l⟩
  · cases h
    exact ⟨_, wakeLoop_done rfl fuel, wakes_done now reg rfl⟩
  · exact wakeLoop_of_drains (s := enter q (x :: l)) h rfl rfl rfl hfuel

end Steps

/-! ### One look at each dependent -/

/-- The loop ends after one look at each dependent at most exactly if the chain has one dependent at most, the injector
is not armed or has used up its budget, or no draw before the one for the last dependent gets through the gate. -/
theorem wake_examines_once_iff [DecidableEq α] (q : CHAOSIQ α) (now reg : Nat) (chain : List α) :
    (∃ fuel s, wakeLoop now reg fuel (enter q chain) = some s ∧
      ∀ d, (s.examined.map Prod.fst).count d ≤ chain.count d) ↔
    chain.length ≤ 1 ∨ ¬ q.Armed now ∨ q.Exhausted ∨
      (q.probability < 1 ∧ ∀ i < chain.length - 1, q.probability ≤ q.rng (q.drawn + i)) := by
  have hnone := Injector.answers_none_iff now q.toInjector (chain.length - 1)
  have hkeeps : (∀ i < chain.length - 1, keeps now q.toInjector i = false) ↔
      ∀ i < chain.length - 1, q.answers now i = .None := by
    simp only [keeps, decide_eq_false_iff_not, not_not]
  have hlen : chain.length ≤ 1 ↔ chain.length - 1 = 0 := by omega
  rw [hlen, ← hnone, ← hkeeps]
  constructor
  · rintro ⟨fuel, s, hs, hcount⟩
    obtain ⟨t, rest, hd, hw⟩ := drains_of_enter hs
    refine hd.count_le_iff fun d => ?_
    have := hcount d
    rw [hw.examined] at this
    simpa [enter, Function.comp_def] using this
  · intro h
    rcases List.eq_nil_or_concat' chain with rfl | ⟨init, x, rfl⟩
    · exact ⟨0, enter q [], rfl, fun d => Nat.le_refl _⟩
    · obtain ⟨s, hs, hw⟩ := enter_of_drains reg (drains_of_last (x := x) (by simpa using h)) (Nat.le_refl _)
      have hmap : s.examined.map Prod.fst = init ++ [x] := by
        rw [hw.examined]
        simp [enter, Function.comp_def]
      exact ⟨_, s, hs, fun d => by rw [hmap]⟩

def omitAll : CHAOSIQ Nat :=
  { fi_mode := .WakeOmit, probability := 1, first_clock := 0, last_clock := 0, max_faults := 0, rng := fun _ => 0 }

/-- On two dependents it keeps the loop busy for ever. -/
theorem two_dependents_never_done : ¬∃ fuel s, wakeLoop 0 0 fuel (enter omitAll [0, 1]) = some s := by
  have hkeep : ∀ i, keeps 0 omitAll.toInjector i = true := fun i =>
    decide_eq_true (Injector.answers_of_always (by decide) (by decide) rfl i)
  rintro ⟨fuel, s, hs⟩
  obtain ⟨t, rest, hd, -⟩ := drains_of_enter hs
  exact not_drains_of_keep hkeep (by simp) hd

/-! ### Omitted wake-ups -/

/-- The dependents with an omitted wake-up are not marked ready, those that the hook let pass are, and once. -/
structure OmitRespected (s : WakeLoop α) : Prop where
  omitted : ∀ d, (d, .Omit) ∈ s.examined → d ∉ s.marked
  passed : ∀ d, d ∈ s.marked ↔ (d, .None) ∈ s.examined
  once : s.marked.Nodup

private theorem omitRespected_iff {now reg : Nat} {q : CHAOSIQ α} (hmode : q.fi_mode = .WakeOmit) {chain : List α}
    (hchain : chain.Nodup) {s : WakeLoop α} {t : List (α × Bool)} {rest : List α}
    (hd : Drains (keeps now q.toInjector) chain t rest) (hw : Wakes now reg (enter q chain) s t rest) :
    OmitRespected s ↔ Clean t := by
  have hskip : (enter q chain).chaosIQ.skip = .Omit := by simp [enter, Injector.skip, hmode]
  have hexamined : s.examined = t.map fun p => (p.1, if p.2 then .Omit else .None) := by
    rw [hw.examined, hskip]
    rfl
  have hmarked : s.marked = (t.filter (!·.2)).map Prod.fst := by
    rw [hw.marked]
    rfl
  have homit : ∀ d, (d, HookAction.Omit) ∈ s.examined ↔ (d, true) ∈ t := by
    intro d
    simp [hexamined]
  have hnone : ∀ d, (d, HookAction.None) ∈ s.examined ↔ (d, false) ∈ t := by
    intro d
    simp [hexamined]
  have hmem : ∀ d, d ∈ s.marked ↔ (d, false) ∈ t := by
    intro d
    simp [hmarked]
  constructor
  · intro h d hd' hd''
    exact h.omitted d ((homit d).2 hd') ((hmem d).2 hd'')
  · intro h
    refine ⟨fun d hd' hd'' => h d ((homit d).1 hd') ((hmem d).1 hd''), fun d => (hmem d).trans (hnone d).symm, ?_⟩
    rw [hmarked]
    exact (List.nodup_append.1 (hd.perm.nodup_iff.2 hchain)).1

private theorem nodup_zipIdx (chain : List α) : chain.zipIdx.Nodup := by
  have h : (chain.zipIdx.map Prod.snd).Nodup := by simpa using List.nodup_range'
  exact List.Nodup.of_map Prod.snd h

/-- In `wake_omit` mode, where the dependents of the chain are told apart by their positions: the loop ends with every
omitted dependent left asleep and every other one marked once exactly if the hook omits the wake-up of one dependent
only, each time it comes up and until it is alone. -/
theorem omitted_stay_asleep_iff (q : CHAOSIQ (α × Nat)) (hmode : q.fi_mode = .WakeOmit) (now reg : Nat)
    (chain : List α) :
    (∃ fuel s, wakeLoop now reg fuel (enter q chain.zipIdx) = some s ∧ OmitRespected s) ↔
    KeepsOne (fun i => decide (q.answers now i ≠ .None)) chain.length := by
  have hnodup := nodup_zipIdx chain
  have hlen : chain.length = chain.zipIdx.length := by simp
  rw [hlen, ← exists_drains_iff hnodup]
  constructor
  · rintro ⟨fuel, s, hs, hok⟩
    obtain ⟨t, rest, hd, hw⟩ := drains_of_enter hs
    exact ⟨t, rest, hd, (omitRespected_iff hmode hnodup hd hw).1 hok⟩
  · rintro ⟨t, rest, hd, hclean⟩
    obtain ⟨s, hs, hw⟩ := enter_of_drains reg hd (Nat.le_refl _)
    exact ⟨_, s, hs, (omitRespected_iff hmode hnodup hd hw).2 hclean⟩

def omitEverySecond : CHAOSIQ (Nat × Nat) :=
  { fi_mode := .WakeOmit, probability := 1 / 2, first_clock := 0, last_clock := 0, max_faults := 0,
    rng := fun i => if i % 2 = 0 then 0 else 1 }

theorem omitted_stay_asleep_iff_two :
    omitEverySecond.fi_mode = .WakeOmit ∧
    ∃ fuel s, wakeLoop 0 0 fuel (enter omitEverySecond [10, 11].zipIdx) = some s ∧ OmitRespected s :=
  ⟨rfl, (omitted_stay_asleep_iff omitEverySecond rfl 0 0 [10, 11]).2
    (.inr ⟨0, by decide, by decide, by decide +kernel, by decide +kernel⟩)⟩

def omitOnce : CHAOSIQ (Nat × Nat) :=
  { fi_mode := .WakeOmit, probability := 1, first_clock := 0, last_clock := 0, max_faults := 1, rng := fun _ => 0 }

/-- The omitted dependent comes up again when the budget is used up and is woken after all. -/
theorem omitted_dependent_woken :
    (wakeLoop 0 0 3 (enter omitOnce [10, 11].zipIdx)).map (fun s => (s.examined, s.marked)) =
      some ([((10, 0), .Omit), ((11, 1), .None), ((10, 0), .None)], [(11, 1), (10, 0)]) := by decide

end GemFI.IQ
