import Mathlib.Data.List.Basic

/-!
# Forced bits

A force holds the bits of its mask at one value; `latest fs` are the values that a sequence of forces prescribes, the
later ones winning bit by bit.  A cell that remembers only the last force gives every covered bit its prescribed
value, whatever was stored before, exactly if the last force covers all bits of the earlier ones
(`apply_getLast_iff`).

A cell that is written and checked always holds the last value written exactly if the check changes no value
(`Access.holds_written_iff`); the cell may be a part of a larger state.
-/

namespace GemFI

structure Force (w : Nat) where
  mask : BitVec w
  one : Bool
  deriving DecidableEq, Repr

namespace Force

variable {w : Nat}

def apply (f : Force w) (b : BitVec w) : BitVec w := if f.one then b ||| f.mask else b &&& ~~~f.mask

theorem getLsbD_apply (f : Force w) (b : BitVec w) (i : Nat) :
    (f.apply b).getLsbD i = if f.mask.getLsbD i then f.one else b.getLsbD i := by
  unfold apply
  cases hone : f.one with
  | true => cases hm : f.mask.getLsbD i <;> simp [hm]
  | false =>
    by_cases hi : i < w
    · rw [if_neg Bool.false_ne_true, BitVec.getLsbD_and, BitVec.getLsbD_not]
      cases f.mask.getLsbD i <;> cases b.getLsbD i <;> simp [hi]
    · simp [BitVec.getLsbD_of_ge _ _ (Nat.le_of_not_lt hi)]

theorem apply_eq_self_iff (f : Force w) : (∀ b, f.apply b = b) ↔ f.mask = 0#w := by
  constructor
  · intro h
    refine BitVec.eq_of_getLsbD_eq fun i hi => ?_
    -- the value that has every bit opposite to the force
    have hb := congrArg (BitVec.getLsbD · i) (h (if f.one then 0#w else BitVec.allOnes w))
    simp only [getLsbD_apply] at hb
    cases hone : f.one <;> simp_all
  · intro h b
    refine BitVec.eq_of_getLsbD_eq fun i _ => ?_
    simp [getLsbD_apply, h]

def latest (fs : List (Force w)) (i : Nat) : Option Bool :=
  (fs.reverse.find? fun f => f.mask.getLsbD i).map (·.one)

def LastCovers (fs : List (Force w)) : Prop :=
  ∀ last ∈ fs.getLast?, ∀ f ∈ fs, ∀ i, f.mask.getLsbD i = true → last.mask.getLsbD i = true

theorem latest_concat (fs : List (Force w)) (last : Force w) (i : Nat) :
    latest (fs ++ [last]) i = if last.mask.getLsbD i then some last.one else latest fs i := by
  unfold latest
  rw [List.reverse_append, List.reverse_singleton, List.singleton_append, List.find?_cons]
  cases last.mask.getLsbD i <;> rfl

theorem latest_eq_none_iff {fs : List (Force w)} {i : Nat} :
    latest fs i = none ↔ ∀ f ∈ fs, f.mask.getLsbD i = false := by
  simp [latest]

theorem apply_getLast_iff (fs : List (Force w)) (last : Force w) :
    (∀ b i v, latest (fs ++ [last]) i = some v → (last.apply b).getLsbD i = v) ↔ LastCovers (fs ++ [last]) := by
  simp only [LastCovers, List.getLast?_concat, Option.mem_some_iff, forall_eq']
  constructor
  · intro h f hf i hi
    cases hlast : last.mask.getLsbD i with
    | true => rfl
    | false =>
      -- the bit is covered, but the last force lets any value through
      obtain ⟨v, hv⟩ : ∃ v, latest (fs ++ [last]) i = some v := by
        by_contra hnone
        have hn : latest (fs ++ [last]) i = none := by
          cases hl : latest (fs ++ [last]) i with
          | none => rfl
          | some v => exact absurd ⟨v, hl⟩ hnone
        rw [latest_eq_none_iff.1 hn f hf] at hi
        exact absurd hi (by simp)
      have hi' : i < w := BitVec.lt_of_getLsbD hi
      have hb := h (if v then 0#w else BitVec.allOnes w) i v hv
      rw [getLsbD_apply, hlast] at hb
      cases v <;> simp [hi'] at hb
  · intro h b i v hv
    rw [latest_concat] at hv
    rw [getLsbD_apply]
    split at hv
    · rename_i hm
      simp only [hm, ↓reduceIte]
      exact Option.some.inj hv
    · rename_i hm
      have hnone : latest fs i = none :=
        latest_eq_none_iff.2 fun f hf => by
          by_contra hne
          exact hm (h f (List.mem_append_left _ hf) i (by simpa using hne))
      rw [hnone] at hv
      exact absurd hv (by simp)

end Force

inductive Access (β : Type) where
  | write (value : β)
  | check
  deriving DecidableEq, Repr

namespace Access

variable {β σ ε : Type}

def apply (g : β → β) (b : β) : Access β → β
  | write value => value
  | check => g b

def written (b : β) : Access β → β := apply id b

theorem foldl_view {step : σ → ε → σ} {f : σ → β} {view : ε → Option (Access β)} {g : β → β} {I : σ → Prop}
    (hstep : ∀ s e, I s → I (step s e) ∧ f (step s e) = (view e).elim (f s) (apply g (f s)))
    {s : σ} (hs : I s) (es : List ε) :
    f (es.foldl step s) = (es.filterMap view).foldl (apply g) (f s) := by
  induction es generalizing s with
  | nil => rfl
  | cons e es ih =>
    obtain ⟨hI, hf⟩ := hstep s e hs
    rw [List.foldl_cons, ih hI, hf]
    cases hview : view e <;> simp [hview]

theorem holds_written_iff {step : σ → ε → σ} {f : σ → β} {view : ε → Option (Access β)} {g : β → β} {I : σ → Prop}
    (hstep : ∀ s e, I s → I (step s e) ∧ f (step s e) = (view e).elim (f s) (apply g (f s)))
    (hview : ∀ a, ∃ e, view e = some a) {s : σ} (hs : I s) :
    (∀ es : List ε, f (es.foldl step s) = (es.filterMap view).foldl written (f s)) ↔ ∀ v, g v = v := by
  constructor
  · intro h v
    obtain ⟨w, hw⟩ := hview (.write v)
    obtain ⟨c, hc⟩ := hview .check
    have hes := h [w, c]
    rw [foldl_view hstep hs] at hes
    simpa [hw, hc, apply, written] using hes
  · intro h es
    have hid : g = id := funext h
    rw [foldl_view hstep hs, hid]
    rfl

end Access

end GemFI
