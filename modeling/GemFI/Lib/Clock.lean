import Mathlib.Data.List.Chain

/-!
# Systems with a clock

A system takes its steps at ticks of a clock: a handler runs in the tick for which it is scheduled, and the clock does
not go on while a handler is due.  The history keeps the steps with the states before them and their ticks.
`Timing.invariant` is the induction rule for the runs of such a system.

A handler that schedules itself runs at most once in a tick if each of its runs schedules the next one for a later
tick (`Timing.SelfScheduling.ticks_pairwise`); if the delay depends on the tick only, each of its ticks gives the next
one (`ticks_isChain`).  After any step it runs next in the tick for which it was then scheduled (`upcoming_eq`).
-/

namespace GemFI

/-- The steps of a system, which of them are possible in a tick, and whether a handler must still run in it. -/
structure Timing (σ ε : Type) where
  step : σ → ε → σ
  enabled : σ → Nat → ε → Bool
  due : σ → Nat → Bool

structure Past (σ ε : Type) where
  state : σ
  now : Nat
  event : ε

structure Clocked (σ ε : Type) where
  now : Nat
  state : σ
  history : List (Past σ ε)

namespace Timing

variable {σ ε : Type} (T : Timing σ ε)

def start (s : σ) : Clocked σ ε := ⟨0, s, []⟩

def take (x : Clocked σ ε) (e : ε) : Clocked σ ε := ⟨x.now, T.step x.state e, x.history ++ [⟨x.state, x.now, e⟩]⟩

def advance (x : Clocked σ ε) : Option ε → Clocked σ ε
  | none => if T.due x.state x.now then x else { x with now := x.now + 1 }
  | some e => if T.enabled x.state x.now e then T.take x e else x

def run (s : σ) (es : List (Option ε)) : Clocked σ ε := es.foldl T.advance (start s)

/-- What holds at the start and is kept by a tick in which nothing is due and by every possible step, always holds. -/
theorem invariant {I : Clocked σ ε → Prop} {s : σ} (h0 : I (start s))
    (htick : ∀ x, I x → T.due x.state x.now = false → I { x with now := x.now + 1 })
    (hstep : ∀ x e, I x → T.enabled x.state x.now e = true → I (T.take x e))
    (es : List (Option ε)) : I (T.run s es) := by
  refine List.foldlRecOn es T.advance (motive := I) h0 fun x hx e _ => ?_
  cases e with
  | none =>
    dsimp only [advance]
    split
    · exact hx
    · rename_i hdue
      exact htick x hx (by simpa using hdue)
  | some e =>
    dsimp only [advance]
    split
    · rename_i henabled
      exact hstep x e hx henabled
    · exact hx

theorem enabled_of_mem_history (s : σ) (es : List (Option ε)) :
    ∀ past ∈ (T.run s es).history, T.enabled past.state past.now past.event = true := by
  refine T.invariant (I := fun x => ∀ past ∈ x.history, T.enabled past.state past.now past.event = true)
    (fun past hpast => absurd hpast List.not_mem_nil) (fun x hx _ => hx) (fun x e hx he past hpast => ?_) es
  rcases List.mem_append.1 hpast with hold | hnew
  · exact hx past hold
  · rw [List.mem_singleton.1 hnew]
    exact he

theorem event_mem_of_mem_history (s : σ) (es : List (Option ε)) :
    ∀ past ∈ (T.run s es).history, some past.event ∈ es := by
  induction es using List.reverseRecOn with
  | nil => exact fun past hpast => absurd hpast List.not_mem_nil
  | append_singleton es o ih =>
    intro past hpast
    rw [run, List.foldl_concat] at hpast
    change past ∈ (T.advance (T.run s es) o).history at hpast
    have hold : past ∈ (T.run s es).history → some past.event ∈ es ++ [o] :=
      fun h => List.mem_append_left _ (ih past h)
    cases o with
    | none =>
      dsimp only [advance] at hpast
      split at hpast <;> exact hold hpast
    | some e =>
      dsimp only [advance] at hpast
      split at hpast
      · rcases List.mem_append.1 hpast with h | h
        · exact hold h
        · rw [List.mem_singleton.1 h]
          exact List.mem_append_right _ (List.mem_singleton.2 rfl)
      · exact hold hpast

theorem run_of_history (s : σ) (es : List (Option ε)) {before after : List (Past σ ε)} {past : Past σ ε}
    (h : (T.run s es).history = before ++ past :: after) : ∃ es', T.run s es' = ⟨past.now, past.state, before⟩ := by
  induction es using List.reverseRecOn generalizing after with
  | nil => simp [run, start] at h
  | append_singleton es o ih =>
    have hrun : T.run s (es ++ [o]) = T.advance (T.run s es) o := by
      rw [run, List.foldl_concat]
      rfl
    rw [hrun] at h
    cases o with
    | none =>
      dsimp only [advance] at h
      split at h <;> exact ih h
    | some e =>
      dsimp only [advance] at h
      split at h
      · rcases List.eq_nil_or_concat' after with rfl | ⟨rest, last, rfl⟩
        · obtain ⟨hbefore, hpast⟩ := List.append_inj' (h : _ ++ [_] = before ++ [past]) rfl
          obtain rfl := List.singleton_inj.1 hpast
          rw [← hbefore]
          exact ⟨es, rfl⟩
        · rw [← List.cons_append, ← List.append_assoc] at h
          exact ih (List.append_inj' h rfl).1
      · exact ih h

theorem later_of_not_due {event : Option Nat} {now t : Nat} (hdue : event ≠ some now) (ht : event = some t)
    (hle : now ≤ t) : now + 1 ≤ t := by
  have hne : now ≠ t := fun heq => hdue (heq ▸ ht)
  omega

theorem foldl_advance_replicate (x : Clocked σ ε) (n : Nat) (hdue : ∀ t < x.now + n, T.due x.state t = false) :
    (List.replicate n none).foldl T.advance x = { x with now := x.now + n } := by
  induction n generalizing x with
  | zero => rfl
  | succ n ih =>
    have hnext : T.advance x none = { x with now := x.now + 1 } := by
      dsimp only [advance]
      rw [if_neg (by simp [hdue x.now (by omega)])]
    have hrest := ih { x with now := x.now + 1 } fun t (ht : t < x.now + 1 + n) => hdue t (by omega)
    rw [List.replicate_succ, List.foldl_cons, hnext, hrest]
    dsimp only
    rw [Nat.add_assoc, Nat.add_comm 1 n]

/-! ### A handler that schedules itself -/

/-- A handler runs in the tick for which it is scheduled, and the other steps leave its schedule alone.  A run of it
schedules the next one under a condition, a number of periods from now. -/
structure SelfScheduling (T : Timing σ ε) where
  event : ε
  handler : ε → Bool
  next : σ → Option Nat
  again : σ → Nat → Prop
  period : Nat
  delay : σ → Nat
  handler_iff : ∀ e, handler e = true ↔ e = event
  period_pos : 0 < period
  event_runs : ∀ {s now}, T.enabled s now event = true → next s = some now
  other_keeps : ∀ s {e}, e ≠ event → next (T.step s e) = next s
  event_next_iff : ∀ {s now}, T.enabled s now event = true →
    ∀ t, next (T.step s event) = some t ↔ again s now ∧ t = now + period * delay s

namespace SelfScheduling

variable {T} (A : T.SelfScheduling)

section

variable {A} {s : σ} {now : Nat} {e : ε}

theorem runs (h : A.handler e = true) (henabled : T.enabled s now e = true) : A.next s = some now :=
  A.event_runs ((A.handler_iff e).1 h ▸ henabled)

theorem keeps (h : A.handler e = false) : A.next (T.step s e) = A.next s :=
  A.other_keeps s fun heq => Bool.false_ne_true (h.symm.trans ((A.handler_iff e).2 heq))

theorem next_iff (h : A.handler e = true) (henabled : T.enabled s now e = true) (t : Nat) :
    A.next (T.step s e) = some t ↔ A.again s now ∧ t = now + A.period * A.delay s := by
  obtain rfl := (A.handler_iff e).1 h
  exact A.event_next_iff henabled t

end

def ticks (history : List (Past σ ε)) : List Nat := (history.filter fun past => A.handler past.event).map (·.now)

theorem ticks_take (x : Clocked σ ε) (e : ε) :
    A.ticks (T.take x e).history = A.ticks x.history ++ if A.handler e = true then [x.now] else [] := by
  cases hhandler : A.handler e <;> simp [ticks, take, hhandler]

/-- If the step was one of the handler, it has scheduled the next one for a later tick, or none. -/
def Later (past : Past σ ε) : Prop :=
  A.handler past.event = true → ∀ t, A.next (T.step past.state past.event) = some t → past.now < t

/-- If the step was one of the handler that schedules the next one, it does so with a delay. -/
def Delayed (past : Past σ ε) : Prop :=
  A.handler past.event = true → A.again past.state past.now → A.delay past.state ≠ 0

theorem later_iff {past : Past σ ε} (henabled : T.enabled past.state past.now past.event = true) :
    A.Later past ↔ A.Delayed past := by
  have hperiod := A.period_pos
  constructor
  · intro hlater hhandler hagain hzero
    have hlt := hlater hhandler _ ((next_iff hhandler henabled _).2 ⟨hagain, rfl⟩)
    rw [hzero] at hlt
    omega
  · intro hdelayed hhandler t ht
    obtain ⟨hagain, heq⟩ := (next_iff hhandler henabled t).1 ht
    have hpos : 0 < A.period * A.delay past.state :=
      Nat.mul_pos hperiod (Nat.pos_of_ne_zero (hdelayed hhandler hagain))
    omega

def firstRun (after : List (Past σ ε)) : Option (Past σ ε) := after.find? fun past => A.handler past.event

/-- The run of the handler that comes after a point of the history, the first one since then or the scheduled one: the
state that it finds, and its tick. -/
def upcoming (x : Clocked σ ε) (after : List (Past σ ε)) : Option (σ × Nat) :=
  match A.firstRun after with
  | some past => some (past.state, past.now)
  | none => (A.next x.state).map fun t => (x.state, t)

theorem firstRun_concat (after : List (Past σ ε)) (past : Past σ ε) :
    A.firstRun (after ++ [past]) = (A.firstRun after).or (if A.handler past.event = true then some past else none) := by
  unfold firstRun
  rw [List.find?_append]
  cases hhandler : A.handler past.event <;> simp [hhandler]

/-- The handler has run in the tick `t` and found `P`, or is scheduled for it while `P` holds. -/
def Awaits (P : σ → Prop) (t : Nat) (x : Clocked σ ε) (after : List (Past σ ε)) : Prop :=
  (∀ q, A.firstRun after = some q → q.now = t ∧ A.next q.state = some t ∧ P q.state) ∧
  (A.firstRun after = none → A.next x.state = some t ∧ P x.state)

private theorem Awaits.take {P : σ → Prop} (hkeep : ∀ {s now e}, P s → T.enabled s now e = true → P (T.step s e))
    {t : Nat} {x : Clocked σ ε} {after : List (Past σ ε)} (h : A.Awaits P t x after) {e : ε}
    (he : T.enabled x.state x.now e = true) : A.Awaits P t (T.take x e) (after ++ [⟨x.state, x.now, e⟩]) := by
  obtain ⟨hran, hwait⟩ := h
  unfold Awaits
  rw [firstRun_concat]
  cases hfirst : A.firstRun after with
  | some q =>
    rw [Option.some_or]
    exact ⟨fun q' hq' => hran q' (hfirst.trans hq'), fun hnone => absurd hnone (by simp)⟩
  | none =>
    obtain ⟨hnext, hP⟩ := hwait hfirst
    rw [Option.none_or]
    cases hhandler : A.handler e with
    | true =>
      rw [if_pos rfl]
      refine ⟨fun q hq => ?_, fun hnone => absurd hnone (by simp)⟩
      obtain rfl := Option.some.inj hq
      exact ⟨Option.some.inj ((runs hhandler he).symm.trans hnext), hnext, hP⟩
    | false =>
      rw [if_neg Bool.false_ne_true]
      exact ⟨fun q hq => absurd hq (by simp), fun _ => ⟨(keeps hhandler).trans hnext, hkeep hP he⟩⟩

theorem upcoming_eq {P : σ → Prop} (hkeep : ∀ {s now e}, P s → T.enabled s now e = true → P (T.step s e)) (s : σ)
    (es : List (Option ε)) {before after : List (Past σ ε)} {past : Past σ ε} {t : Nat}
    (h : (T.run s es).history = before ++ past :: after) (hnext : A.next (T.step past.state past.event) = some t)
    (hP : P (T.step past.state past.event)) :
    ∃ u, A.upcoming (T.run s es) after = some (u, t) ∧ A.next u = some t ∧ P u := by
  have hawaits : A.Awaits P t (T.run s es) after := by
    refine T.invariant (I := fun x => ∀ after, x.history = before ++ past :: after → A.Awaits P t x after)
      (fun after h => absurd h (by simp [start])) (fun x hx _ => hx) (fun x e hx he after h => ?_) es after h
    rcases List.eq_nil_or_concat' after with rfl | ⟨rest, last, rfl⟩
    · obtain ⟨-, hpast⟩ := List.append_inj' (h : _ ++ [_] = before ++ [past]) rfl
      obtain rfl := List.singleton_inj.1 hpast
      exact ⟨fun q hq => absurd hq (by simp [firstRun]), fun _ => ⟨hnext, hP⟩⟩
    · rw [← List.cons_append, ← List.append_assoc] at h
      obtain ⟨hold, hlast⟩ := List.append_inj' h rfl
      obtain rfl := List.singleton_inj.1 hlast
      exact Awaits.take A hkeep (hx rest hold) he
  obtain ⟨hran, hwait⟩ := hawaits
  unfold upcoming
  split
  · rename_i q hq
    obtain ⟨hnow, hnextq, hPq⟩ := hran q hq
    exact ⟨q.state, by rw [hnow], hnextq, hPq⟩
  · rename_i hnone
    obtain ⟨hnextx, hPx⟩ := hwait hnone
    exact ⟨_, by rw [hnextx]; rfl, hnextx, hPx⟩

/-- The handler has always scheduled itself for a later tick, and has never run twice in a tick. -/
def OncePerTick (x : Clocked σ ε) : Prop :=
  (∀ past ∈ x.history, A.Later past) ∧ (A.ticks x.history).Pairwise (· < ·)

theorem ticks_chain {R : Nat → Nat → Prop} (s : σ) (es : List (Option ε)) :
    (∀ past ∈ (T.run s es).history, A.handler past.event = true →
      ∀ u, A.next (T.step past.state past.event) = some u → R past.now u) →
    (A.ticks (T.run s es).history).IsChain R ∧ ∀ u, A.next (T.run s es).state = some u →
      (A.ticks (T.run s es).history = [] → A.next s = some u) ∧ ∀ t ∈ (A.ticks (T.run s es).history).getLast?, R t u := by
  refine T.invariant (I := fun x => (∀ past ∈ x.history, A.handler past.event = true →
      ∀ u, A.next (T.step past.state past.event) = some u → R past.now u) →
    (A.ticks x.history).IsChain R ∧ ∀ u, A.next x.state = some u →
      (A.ticks x.history = [] → A.next s = some u) ∧ ∀ t ∈ (A.ticks x.history).getLast?, R t u) ?_ (fun x hx _ => hx) ?_ es
  · exact fun _ => ⟨List.IsChain.nil, fun u hu => ⟨fun _ => hu, fun t ht => absurd ht (by simp [ticks, start])⟩⟩
  · intro x e hx he hall
    obtain ⟨hchain, hnext⟩ := hx fun past hpast => hall past (List.mem_append_left _ hpast)
    have hnow := hall ⟨x.state, x.now, e⟩ (List.mem_append_right _ (List.mem_singleton.2 rfl))
    cases hhandler : A.handler e with
    | false =>
      have hticks : A.ticks (T.take x e).history = A.ticks x.history := by
        rw [A.ticks_take, hhandler]
        exact List.append_nil _
      have hkeep : A.next (T.take x e).state = A.next x.state := keeps hhandler
      rw [hticks, hkeep]
      exact ⟨hchain, hnext⟩
    | true =>
      have hticks : A.ticks (T.take x e).history = A.ticks x.history ++ [x.now] := by
        rw [A.ticks_take, if_pos hhandler]
      rw [hticks]
      refine ⟨List.isChain_append.2 ⟨hchain, List.isChain_singleton _, ?_⟩, ?_⟩
      · intro t ht u hu
        obtain rfl : x.now = u := Option.some.inj hu
        exact (hnext x.now (runs hhandler he)).2 t ht
      · intro u hu
        refine ⟨fun hnil => absurd hnil (by simp), fun t ht => ?_⟩
        rw [List.getLast?_concat, Option.mem_some_iff] at ht
        rw [← ht]
        exact hnow hhandler u hu

theorem ticks_pairwise (s : σ) (es : List (Option ε)) (h : ∀ past ∈ (T.run s es).history, A.Later past) :
    (A.ticks (T.run s es).history).Pairwise (· < ·) := List.isChain_iff_pairwise.1 (A.ticks_chain s es h).1

theorem oncePerTick_iff (s : σ) (es : List (Option ε)) :
    A.OncePerTick (T.run s es) ↔ ∀ past ∈ (T.run s es).history, A.Delayed past := by
  have henabled := T.enabled_of_mem_history s es
  constructor
  · exact fun h past hpast => (A.later_iff (henabled past hpast)).1 (h.1 past hpast)
  · intro h
    have hlater : ∀ past ∈ (T.run s es).history, A.Later past :=
      fun past hpast => (A.later_iff (henabled past hpast)).2 (h past hpast)
    exact ⟨hlater, A.ticks_pairwise s es hlater⟩

theorem ticks_isChain {delayAt : Nat → Nat} (hdelay : ∀ {s now e}, A.handler e = true → T.enabled s now e = true →
      A.delay s = delayAt now) (s : σ) (es : List (Option ε)) :
    (A.ticks (T.run s es).history).IsChain (fun t u => u = t + A.period * delayAt t) ∧
    ∀ u, A.next (T.run s es).state = some u →
      (A.ticks (T.run s es).history = [] → A.next s = some u) ∧
      ∀ t ∈ (A.ticks (T.run s es).history).getLast?, u = t + A.period * delayAt t := by
  refine A.ticks_chain s es fun past hpast hhandler u hu => ?_
  have henabled := T.enabled_of_mem_history s es past hpast
  rw [← hdelay hhandler henabled]
  exact ((next_iff hhandler henabled u).1 hu).2

end SelfScheduling

end Timing

end GemFI
