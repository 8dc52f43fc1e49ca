import Mathlib.Data.List.Infix

/-!
# Straight-line programs and their builders

A straight-line program is a list of lines; line `i` is evaluated over the values of the lines before it (`evalAll`).
Appending lines never changes the value of an earlier one (`HasVal.mono`).

A builder appends lines and returns a result.  `Builds m gs Q` says that `m`, run after the lines `gs`, only appends
lines and that its result and the new program satisfy `Q`; there is one rule for each way of writing a builder, so a
proof about a builder follows its text.
-/

namespace GemFI.StraightLine

variable {γ β α δ : Type} {gs : List γ} (ev : List β → γ → β)

theorem forall_snoc {P : Nat → γ → Prop} {g : γ} :
    (∀ k x, (gs ++ [g])[k]? = some x → P k x) ↔ (∀ k x, gs[k]? = some x → P k x) ∧ P gs.length g := by
  constructor
  · intro h
    refine ⟨fun k x hx => h k x ?_, h _ _ List.getElem?_concat_length⟩
    rw [List.getElem?_append_left (List.getElem?_eq_some_iff.1 hx).1, hx]
  · rintro ⟨hinit, hlast⟩ k x hx
    by_cases hk : k < gs.length
    · rw [List.getElem?_append_left hk] at hx
      exact hinit k x hx
    · have hlt := (List.getElem?_eq_some_iff.1 hx).1
      rw [List.length_append, List.length_singleton] at hlt
      obtain rfl : k = gs.length := by omega
      rw [List.getElem?_concat_length] at hx
      cases Option.some.inj hx
      exact hlast

/-! ### Values -/

def evalAll (ev : List β → γ → β) (gs : List γ) : List β := gs.foldl (fun vs g => vs ++ [ev vs g]) []

theorem evalAll_snoc (gs : List γ) (g : γ) : evalAll ev (gs ++ [g]) = evalAll ev gs ++ [ev (evalAll ev gs) g] := by
  simp [evalAll]

@[simp] theorem evalAll_length (gs : List γ) : (evalAll ev gs).length = gs.length := by
  induction gs using List.reverseRecOn with
  | nil => rfl
  | append_singleton gs g ih => rw [evalAll_snoc, List.length_append, List.length_append, ih]; rfl

theorem evalAll_prefix {gs gs' : List γ} (h : gs <+: gs') : evalAll ev gs <+: evalAll ev gs' := by
  obtain ⟨t, rfl⟩ := h
  induction t using List.reverseRecOn with
  | nil => rw [List.append_nil]
  | append_singleton t g ih =>
    rw [← List.append_assoc, evalAll_snoc]
    exact ih.trans (List.prefix_append _ _)

theorem evalAll_getElem? {k : Nat} {g : γ} (hg : gs[k]? = some g) :
    (evalAll ev gs)[k]? = some (ev ((evalAll ev gs).take k) g) := by
  induction gs using List.reverseRecOn generalizing k g with
  | nil => cases hg
  | append_singleton gs x ih =>
    have hlen := evalAll_length ev gs
    rw [evalAll_snoc]
    refine forall_snoc (P := fun k g => (evalAll ev gs ++ [ev (evalAll ev gs) x])[k]? =
      some (ev ((evalAll ev gs ++ [ev (evalAll ev gs) x]).take k) g)).2 ⟨fun k g hg => ?_, ?_⟩ k g hg
    · have hk := (List.getElem?_eq_some_iff.1 hg).1
      rw [List.getElem?_append_left (by omega), List.take_append_of_le_length (by omega)]
      exact ih hg
    · rw [← hlen, List.getElem?_concat_length, List.take_left]

theorem evalAll_congr {ev ev' : List β → γ → β}
    (h : ∀ k g, gs[k]? = some g → ev' ((evalAll ev gs).take k) g = ev ((evalAll ev gs).take k) g) :
    evalAll ev' gs = evalAll ev gs := by
  induction gs using List.reverseRecOn with
  | nil => rfl
  | append_singleton gs x ih =>
    have hlen := evalAll_length ev gs
    obtain ⟨hinit, hlast⟩ := forall_snoc.1 h
    rw [evalAll_snoc, ← hlen, List.take_left] at hlast
    have hinit : evalAll ev' gs = evalAll ev gs := by
      refine ih fun k g hg => ?_
      have hk := (List.getElem?_eq_some_iff.1 hg).1
      have := hinit k g hg
      rwa [evalAll_snoc, List.take_append_of_le_length (by omega)] at this
    rw [evalAll_snoc, evalAll_snoc, hinit, hlast]

def HasVal (ev : List β → γ → β) (gs : List γ) (i : Nat) (b : β) : Prop := (evalAll ev gs)[i]? = some b

theorem HasVal.mono {ev : List β → γ → β} {gs gs' : List γ} {i : Nat} {b : β} (hp : gs <+: gs')
    (h : HasVal ev gs i b) : HasVal ev gs' i b := by
  obtain ⟨t, ht⟩ := evalAll_prefix ev hp
  unfold HasVal at h ⊢
  rw [← ht, List.getElem?_append_left (List.getElem?_eq_some_iff.1 h).1, h]

theorem HasVal.getD_eq {ev : List β → γ → β} {i : Nat} {b d : β} (h : HasVal ev gs i b) :
    (evalAll ev gs).getD i d = b := by
  rw [List.getD_eq_getElem?_getD, h]; rfl

theorem hasVal_snoc (gs : List γ) (g : γ) : HasVal ev (gs ++ [g]) gs.length (ev (evalAll ev gs) g) := by
  unfold HasVal
  rw [evalAll_snoc, List.getElem?_append_right (by simp)]
  simp

/-! ### Builders -/

abbrev Builder (γ : Type) := StateM (List γ)

def emit (g : γ) : Builder γ Nat := fun gs => (gs.length, gs ++ [g])

/-- Run `f 0`, …, `f (n-1)` in order, passing the accumulator along. -/
def foldRange (f : Nat → δ → Builder γ δ) : Nat → δ → Builder γ δ
  | 0, s => pure s
  | n + 1, s => do f n (← foldRange f n s)

/-- Run `f 0`, …, `f (n-1)` in order and collect the results. -/
def forRange (f : Nat → Builder γ α) (n : Nat) : Builder γ (List α) :=
  foldRange (fun i xs => do return xs ++ [← f i]) n []

/-- Run after the lines `gs`, the builder `m` only appends lines, and `Q` holds of its result and the program. -/
def Builds (m : Builder γ α) (gs : List γ) (Q : α → List γ → Prop) : Prop :=
  gs <+: (m gs).2 ∧ Q (m gs).1 (m gs).2

theorem builds_pure {a : α} {Q : α → List γ → Prop} (h : Q a gs) : Builds (pure a : Builder γ α) gs Q :=
  ⟨List.prefix_refl gs, h⟩

theorem builds_emit {g : γ} {Q : Nat → List γ → Prop} (h : Q gs.length (gs ++ [g])) : Builds (emit g) gs Q :=
  ⟨List.prefix_append gs [g], h⟩

theorem Builds.bind {m : Builder γ α} {f : α → Builder γ δ} {P : α → List γ → Prop} {Q : δ → List γ → Prop}
    (hm : Builds m gs P) (hf : ∀ a gs', gs <+: gs' → P a gs' → Builds (f a) gs' Q) : Builds (m >>= f) gs Q := by
  obtain ⟨hp, hP⟩ := hm
  obtain ⟨hp', hQ⟩ := hf _ _ hp hP
  exact ⟨hp.trans hp', hQ⟩

theorem Builds.imp {m : Builder γ α} {P Q : α → List γ → Prop} (hm : Builds m gs P)
    (h : ∀ a gs', gs <+: gs' → P a gs' → Q a gs') : Builds m gs Q :=
  ⟨hm.1, h _ _ hm.1 hm.2⟩

/-- The invariant rule for a loop with an accumulator. -/
theorem builds_foldRange {f : Nat → δ → Builder γ δ} {n : Nat} {s : δ} {I : Nat → δ → List γ → Prop} (h0 : I 0 s gs)
    (hf : ∀ i < n, ∀ s' gs', gs <+: gs' → I i s' gs' → Builds (f i s') gs' (I (i + 1))) :
    Builds (foldRange f n s) gs (I n) := by
  induction n with
  | zero => exact builds_pure h0
  | succ n ih =>
    have hn := ih (fun i hi => hf i (by omega))
    exact hn.bind fun s' gs' hp hI => hf n (by omega) s' gs' hp hI

/-- The rule for a loop that collects results and keeps an invariant `J` of the program: what `f i` ensures of its result
must survive later lines. -/
theorem builds_forRange_inv {f : Nat → Builder γ α} {n : Nat} {J : Nat → List γ → Prop} {Q : Nat → α → List γ → Prop}
    (hmono : ∀ i a gs' gs'', gs' <+: gs'' → Q i a gs' → Q i a gs'') (h0 : J 0 gs)
    (hf : ∀ i < n, ∀ gs', gs <+: gs' → J i gs' → Builds (f i) gs' fun a gs'' => J (i + 1) gs'' ∧ Q i a gs'') :
    Builds (forRange f n) gs fun xs gs' => J n gs' ∧ xs.length = n ∧ ∀ i a, xs[i]? = some a → Q i a gs' := by
  unfold forRange
  apply builds_foldRange
    (I := fun k (xs : List α) gs' => J k gs' ∧ xs.length = k ∧ ∀ i a, xs[i]? = some a → Q i a gs')
  · exact ⟨h0, rfl, by simp⟩
  · intro k hk xs gs' hp hI
    obtain ⟨hJ, hlen, hQ⟩ := hI
    refine (hf k hk gs' hp hJ).bind fun a gs'' hp' ha => builds_pure ⟨ha.1, by simp [hlen], ?_⟩
    -- the new result sits at the end, the earlier ones keep what they had
    exact forall_snoc.2 ⟨fun i b hb => hmono i b gs' gs'' hp' (hQ i b hb), by rw [hlen]; exact ha.2⟩

theorem builds_forRange {f : Nat → Builder γ α} {n : Nat} {Q : Nat → α → List γ → Prop}
    (hmono : ∀ i a gs' gs'', gs' <+: gs'' → Q i a gs' → Q i a gs'')
    (hf : ∀ i < n, ∀ gs', gs <+: gs' → Builds (f i) gs' (Q i)) :
    Builds (forRange f n) gs fun xs gs' => xs.length = n ∧ ∀ i a, xs[i]? = some a → Q i a gs' := by
  have h := builds_forRange_inv (J := fun _ _ => True) hmono trivial
    fun i hi gs' hp _ => (hf i hi gs' hp).imp fun a gs'' _ ha => ⟨trivial, ha⟩
  exact h.imp fun xs gs' _ hxs => hxs.2

end GemFI.StraightLine
