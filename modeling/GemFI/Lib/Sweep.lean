import Mathlib.Logic.Relation

/-!
# One sweep over a graph whose links go down

Nodes are numbers and every link leads to a smaller one.  A sweep visits `n - 1, …, 0` once; at a node that is marked
or a root it marks the node and the targets of its links.  One sweep marks exactly the nodes that a chain of links
reaches from a root (`sweepMarks_iff`), also if some of these were marked before.
-/

namespace GemFI.Sweep

variable (link : Nat → Nat → Prop) (root : Nat → Prop)

def Reached (i : Nat) : Prop := ∃ r, root r ∧ Relation.ReflTransGen link r i

def sweepMark (k : Nat) (m : Nat → Prop) : Nat → Prop := fun i => m i ∨ ((m k ∨ root k) ∧ (i = k ∨ link k i))

def sweepMarks : Nat → (Nat → Prop) → Nat → Prop
  | 0, m => m
  | n + 1, m => sweepMarks n (sweepMark link root n m)

variable {link root}

private theorem sweepMark_sound {k : Nat} {m : Nat → Prop} (hm : ∀ i, m i → Reached link root i) (i : Nat)
    (hi : sweepMark link root k m i) : Reached link root i := by
  rcases hi with hi | ⟨hk, hi⟩
  · exact hm i hi
  · have hrk : Reached link root k := by
      rcases hk with hk | hk
      · exact hm k hk
      · exact ⟨k, hk, .refl⟩
    rcases hi with rfl | hi
    · exact hrk
    · obtain ⟨r, hr, hrk⟩ := hrk
      exact ⟨r, hr, hrk.tail hi⟩

/-- The marks are closed from `k` on: they hold the roots and the targets of the marked nodes. -/
private def ClosedFrom (link : Nat → Nat → Prop) (root : Nat → Prop) (k : Nat) (m : Nat → Prop) : Prop :=
  ∀ j, k ≤ j → (root j → m j) ∧ (m j → ∀ i, link j i → m i)

private theorem ClosedFrom.sweepMark {k : Nat} {m : Nat → Prop} (hdown : ∀ j i, link j i → i < j)
    (h : ClosedFrom link root (k + 1) m) : ClosedFrom link root k (sweepMark link root k m) := by
  intro j hj
  rcases Nat.eq_or_lt_of_le hj with rfl | hj
  · refine ⟨fun hr => .inr ⟨.inr hr, .inl rfl⟩, ?_⟩
    rintro (hm | ⟨hk, -⟩) i hi
    · exact .inr ⟨.inl hm, .inr hi⟩
    · exact .inr ⟨hk, .inr hi⟩
  · obtain ⟨h1, h2⟩ := h j hj
    refine ⟨fun hr => .inl (h1 hr), ?_⟩
    -- the visit of `k` marks nothing above `k`
    rintro (hm | ⟨-, rfl | hk⟩) i hi
    · exact .inl (h2 hm i hi)
    · omega
    · have := hdown _ _ hk
      omega

private theorem sweepMarks_spec {n : Nat} {m : Nat → Prop} (hdown : ∀ j i, link j i → i < j)
    (hm : ∀ i, m i → Reached link root i) (hc : ClosedFrom link root n m) :
    (∀ i, sweepMarks link root n m i → Reached link root i) ∧ ClosedFrom link root 0 (sweepMarks link root n m) := by
  induction n generalizing m with
  | zero => exact ⟨hm, hc⟩
  | succ n ih => exact ih (sweepMark_sound hm) (hc.sweepMark hdown)

theorem sweepMarks_iff {n : Nat} {m : Nat → Prop} (hdown : ∀ j i, link j i → i < j)
    (hroot : ∀ j, root j → j < n) (hlink : ∀ j i, link j i → j < n) (hm : ∀ i, m i → Reached link root i)
    (i : Nat) : sweepMarks link root n m i ↔ Reached link root i := by
  have hc : ClosedFrom link root n m := fun j hj =>
    ⟨fun hr => absurd (hroot j hr) (by omega), fun _ i hi => absurd (hlink j i hi) (by omega)⟩
  obtain ⟨h1, h2⟩ := sweepMarks_spec hdown hm hc
  refine ⟨h1 i, ?_⟩
  rintro ⟨r, hr, hchain⟩
  induction hchain with
  | refl => exact (h2 r (Nat.zero_le r)).1 hr
  | tail _ hl ih => exact (h2 _ (Nat.zero_le _)).2 ih _ hl

end GemFI.Sweep
