import Mathlib.Logic.Basic

/-!
# Runs whose steps meet a condition

`Along step P s es`: every step of the run of `es` from `s` meets the condition `P` on the state before it and the
event.  `Along.invariant` is the induction rule for such runs, `Along.of_invariant` the one that shows that a run is
such; `Along.congr_of_invariant` compares two conditions.

`countAlong p step s es` counts the steps that meet `p`; `foldl_latch` is about a property of the state that some
events set and some of the others keep.
-/

namespace GemFI

variable {σ ε : Type} (step : σ → ε → σ) (P : σ → ε → Prop)

def Along : σ → List ε → Prop
  | _, [] => True
  | s, e :: es => P s e ∧ Along (step s e) es

instance Along.decidable [∀ s e, Decidable (P s e)] : ∀ s es, Decidable (Along step P s es)
  | _, [] => .isTrue trivial
  | s, e :: es => @instDecidableAnd _ _ inferInstance (Along.decidable (step s e) es)

variable {step P}

/-- What holds at first and is kept by every step that meets the condition, holds at the end of the run. -/
theorem Along.invariant {I : σ → Prop} {s : σ} {es : List ε} (h : Along step P s es) (h0 : I s)
    (hstep : ∀ s e, I s → P s e → I (step s e)) : I (es.foldl step s) := by
  induction es generalizing s with
  | nil => exact h0
  | cons e es ih => exact ih h.2 (hstep s e h0 h.1)

theorem Along.of_invariant {I : σ → Prop} (hstep : ∀ s e, I s → P s e ∧ I (step s e)) {s : σ} (h0 : I s)
    (es : List ε) : Along step P s es := by
  induction es generalizing s with
  | nil => trivial
  | cons e es ih => exact ⟨(hstep s e h0).1, ih (hstep s e h0).2⟩

/-- Two conditions that agree under an invariant, which the steps that meet them keep. -/
theorem Along.congr_of_invariant {Q : σ → ε → Prop} {I : σ → Prop}
    (hstep : ∀ s e, I s → (P s e ↔ Q s e) ∧ (Q s e → I (step s e))) {s : σ} (h0 : I s) (es : List ε) :
    Along step P s es ↔ Along step Q s es := by
  induction es generalizing s with
  | nil => exact Iff.rfl
  | cons e es ih =>
    obtain ⟨hiff, hkeep⟩ := hstep s e h0
    constructor
    · intro h
      have hq := hiff.1 h.1
      exact ⟨hq, (ih (hkeep hq)).1 h.2⟩
    · intro h
      exact ⟨hiff.2 h.1, (ih (hkeep h.1)).2 h.2⟩

def countAlong (p : σ → ε → Bool) (step : σ → ε → σ) : σ → List ε → Nat
  | _, [] => 0
  | s, e :: es => (p s e).toNat + countAlong p step (step s e) es

theorem foldl_countAlong {p : σ → ε → Bool} {count : σ → Nat} (h : ∀ s e, count (step s e) = count s + (p s e).toNat)
    (s : σ) (es : List ε) : count (es.foldl step s) = count s + countAlong p step s es := by
  induction es generalizing s with
  | nil => rfl
  | cons e es ih => rw [List.foldl_cons, ih, h, countAlong, Nat.add_assoc]

theorem foldl_latch (flag : σ → Prop) (sets keeps : ε → Prop) (hsets : ∀ s e, sets e → flag (step s e))
    (hkeeps : ∀ s e, ¬sets e → (flag (step s e) ↔ flag s ∧ keeps e)) (s : σ) (es : List ε) :
    flag (es.foldl step s) ↔ (flag s ∧ ∀ e ∈ es, ¬sets e ∧ keeps e) ∨
      ∃ pre e post, es = pre ++ e :: post ∧ sets e ∧ ∀ e' ∈ post, ¬sets e' ∧ keeps e' := by
  induction es generalizing s with
  | nil => simp
  | cons e es ih =>
    have hfirst : (∃ pre x post, e :: es = pre ++ x :: post ∧ sets x ∧ ∀ e' ∈ post, ¬sets e' ∧ keeps e') ↔
        (sets e ∧ ∀ e' ∈ es, ¬sets e' ∧ keeps e') ∨
          ∃ pre x post, es = pre ++ x :: post ∧ sets x ∧ ∀ e' ∈ post, ¬sets e' ∧ keeps e' := by
      constructor
      · rintro ⟨pre, x, post, heq, hx, hpost⟩
        cases pre with
        | nil =>
          obtain ⟨rfl, rfl⟩ := List.cons.inj heq
          exact .inl ⟨hx, hpost⟩
        | cons y pre => exact .inr ⟨pre, x, post, (List.cons.inj heq).2, hx, hpost⟩
      · rintro (⟨he, hes⟩ | ⟨pre, x, post, heq, hx, hpost⟩)
        · exact ⟨[], e, es, rfl, he, hes⟩
        · exact ⟨e :: pre, x, post, by rw [heq]; rfl, hx, hpost⟩
    rw [List.foldl_cons, ih, hfirst, List.forall_mem_cons]
    by_cases he : sets e
    · simp [he, hsets s e he]
    · simp [he, hkeeps s e he, and_assoc]

end GemFI
