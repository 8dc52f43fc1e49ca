import Mathlib.Algebra.Order.BigOperators.Group.Finset
import Mathlib.Algebra.Order.Ring.Nat
import Mathlib.Data.List.TakeWhile

/-!
# Lifetime ledgers

A cell is written, used and closed over time; a ledger is charged for the time between a write and the uses of what
was written.  The incremental machine keeps, for a cell with a value, the time it was written (`birth`), the time of
its last use (`last`) and whether a use was charged yet (`used`); a counted use is charged from `last`, or from
`birth` if it is the first one (`gain`), and an uncounted use only moves `last`.

The declarative meaning of the ledger is the sum over the lifetimes of the cell (`lifetimes`: from a write to the next
write or close) of the time from the write to the last counted use (`total`).

* `charge_eq_total`: if every use is counted, the machine computes the meaning.
* `charge_eq_total_iff`: in general it does exactly when no uncounted use separates two counted uses (`NoGap`).
* `charge_le_total`, `charge_le`, `anchor_after_le`: it never charges more, nor more than the elapsed time, nor from
  the future.
* `Lags.use`, `Lags.use_left`: a machine that counts only some of the uses stays behind one that counts them all.
* `cell_foldl`, `ledger_foldl`, `ledger_foldl_eq_total`, `sum_charge_le`: a bank of cells with one ledger, over the
  runs of a transition system.
-/

namespace GemFI.Lifetime

/-- What happens to a cell: it is written, used (counted or not), or closed. -/
inductive Op where
  | start
  | use (counted : Bool)
  | stop
  deriving DecidableEq, Repr

structure Live where
  birth : Nat
  last : Nat
  used : Bool
  deriving DecidableEq, Repr

def Live.anchor (l : Live) : Nat := if l.used then l.last else l.birth

theorem Live.anchor_counted (l : Live) (t : Nat) : Live.anchor { l with last := t, used := l.used || true } = t := by
  rw [Live.anchor, Bool.or_true]
  exact if_pos rfl

theorem Live.anchor_uncounted (l : Live) (t : Nat) :
    Live.anchor { l with last := t, used := l.used || false } = if l.used then t else l.anchor := by
  rw [Live.anchor, Bool.or_false, Live.anchor]
  cases l.used <;> rfl

def next (c : Option Live) (t : Nat) : Op → Option Live
  | .start => some ⟨t, t, false⟩
  | .use k => c.map fun l => { l with last := t, used := l.used || k }
  | .stop => none

def gain (c : Option Live) (t : Nat) : Op → Nat
  | .use true => (c.map fun l => t - l.anchor).getD 0
  | _ => 0

def after (c : Option Live) (ops : List (Nat × Op)) : Option Live := ops.foldl (fun c o => next c o.1 o.2) c

def charge : Option Live → List (Nat × Op) → Nat
  | _, [] => 0
  | c, o :: ops => gain c o.1 o.2 + charge (next c o.1 o.2) ops

theorem after_append (c : Option Live) (xs ys : List (Nat × Op)) :
    after c (xs ++ ys) = after (after c xs) ys := by
  unfold after; exact List.foldl_append

theorem charge_append (c : Option Live) (xs ys : List (Nat × Op)) :
    charge c (xs ++ ys) = charge c xs + charge (after c xs) ys := by
  induction xs generalizing c with
  | nil => simp [charge, after]
  | cons o xs ih =>
    rw [List.cons_append, charge, charge, ih, Nat.add_assoc]
    rfl

/-! ### Lifetimes -/

def isUse (o : Nat × Op) : Bool := match o.2 with | .use _ => true | _ => false

def isCounted (o : Nat × Op) : Bool := match o.2 with | .use true => true | _ => false

/-- The lifetimes of a cell: the time of each write with the uses up to the next write or close. -/
def lifetimes : List (Nat × Op) → List (Nat × List (Nat × Op))
  | [] => []
  | (t, .start) :: ops => (t, ops.takeWhile isUse) :: lifetimes ops
  | _ :: ops => lifetimes ops

/-- The time from the write to the last counted use, zero without one. -/
def span (l : Nat × List (Nat × Op)) : Nat :=
  ((l.2.filter isCounted).getLast?.map fun u => u.1 - l.1).getD 0

def total (ops : List (Nat × Op)) : Nat := ((lifetimes ops).map span).sum

variable {body : List (Nat × Op)} {ops : List (Nat × Op)}

private theorem charge_none_uses (h : ∀ o ∈ body, isUse o = true) : charge none body = 0 := by
  induction body with
  | nil => rfl
  | cons o body ih =>
    have ho := h o (List.mem_cons_self ..)
    obtain ⟨t, _ | k | _⟩ := o <;> simp only [isUse, Bool.false_eq_true] at ho
    simp only [charge, next, Option.map_none, ih (fun o ho => h o (List.mem_cons_of_mem _ ho))]
    cases k <;> rfl

theorem charge_eq_zero (h : ∀ o ∈ ops, isCounted o = false) (c : Option Live) : charge c ops = 0 := by
  induction ops generalizing c with
  | nil => rfl
  | cons o ops ih =>
    have ho := h o (List.mem_cons_self ..)
    rw [charge, ih fun o ho => h o (List.mem_cons_of_mem _ ho)]
    obtain ⟨t, _ | k | _⟩ := o
    · rfl
    · cases k with
      | true => cases ho
      | false => rfl
    · rfl

private theorem charge_eq_sum (c : Option Live) (ops : List (Nat × Op)) :
    charge c ops = charge c (ops.takeWhile isUse) +
      ((lifetimes ops).map fun l => charge (some ⟨l.1, l.1, false⟩) l.2).sum := by
  induction ops generalizing c with
  | nil => rfl
  | cons o ops ih =>
    obtain ⟨t, _ | k | _⟩ := o
    · simp [charge, lifetimes, isUse, gain, next, ih (some ⟨t, t, false⟩)]
    · have ht : ((t, Op.use k) :: ops).takeWhile isUse = (t, Op.use k) :: ops.takeWhile isUse := rfl
      rw [ht, charge, charge, ih (next c t (.use k)), Nat.add_assoc]
      rfl
    · have h0 : charge none (ops.takeWhile isUse) = 0 :=
        charge_none_uses fun o ho => List.mem_takeWhile_imp ho
      simp [charge, lifetimes, isUse, gain, next, ih none, h0]

theorem charge_none_eq_sum (ops : List (Nat × Op)) :
    charge none ops = ((lifetimes ops).map fun l => charge (some ⟨l.1, l.1, false⟩) l.2).sum := by
  rw [charge_eq_sum, charge_none_uses fun o ho => List.mem_takeWhile_imp ho, Nat.zero_add]

/-! ### Operations in the order of time -/

def Timed (lo : Nat) (ops : List (Nat × Op)) : Prop :=
  (∀ o ∈ ops, lo ≤ o.1) ∧ ops.Pairwise fun a b => a.1 ≤ b.1

variable {l : Nat × List (Nat × Op)} {lo : Nat}

theorem timed_cons {o : Nat × Op} : Timed lo (o :: ops) ↔ lo ≤ o.1 ∧ Timed o.1 ops := by
  simp only [Timed, List.mem_cons, List.pairwise_cons]
  constructor
  · rintro ⟨h1, h2, h3⟩
    exact ⟨h1 o (.inl rfl), h2, h3⟩
  · rintro ⟨h1, h2, h3⟩
    refine ⟨?_, h2, h3⟩
    rintro x (rfl | hx)
    · exact h1
    · exact Nat.le_trans h1 (h2 x hx)

theorem Timed.sublist {ops ops' : List (Nat × Op)} (h : Timed lo ops) (hs : ops'.Sublist ops) : Timed lo ops' :=
  ⟨fun o ho => h.1 o (hs.subset ho), h.2.sublist hs⟩

theorem Timed.mono {lo lo' : Nat} (h : Timed lo ops) (hl : lo' ≤ lo) : Timed lo' ops :=
  ⟨fun o ho => Nat.le_trans hl (h.1 o ho), h.2⟩

theorem Timed.lifetimes (h : Timed lo ops) (hl : l ∈ Lifetime.lifetimes ops) :
    Timed l.1 l.2 ∧ ∀ o ∈ l.2, isUse o = true := by
  induction ops generalizing lo with
  | nil => simp [Lifetime.lifetimes] at hl
  | cons o ops ih =>
    have ht := (timed_cons.1 h).2
    obtain ⟨t, _ | k | _⟩ := o
    · rcases List.mem_cons.1 hl with rfl | hl
      · exact ⟨ht.sublist (List.takeWhile_sublist _), fun o ho => List.mem_takeWhile_imp ho⟩
      · exact ih ht hl
    · exact ih ht hl
    · exact ih ht hl

/-! ### The machine against the meaning -/

/-- No uncounted use in a later cycle than the last counted one is followed by a counted use.  The argument is the
time of the last counted use so far. -/
def NoGap : Option Nat → List (Nat × Op) → Prop
  | _, [] => True
  | _, (r, .use true) :: body => NoGap (some r) body
  | a, (r, .use false) :: body => (a = none ∨ a = some r ∨ body.any isCounted = false) ∧ NoGap a body
  | a, _ :: body => NoGap a body

private theorem span_cons_counted {a r : Nat} (har : a ≤ r) (ht : Timed r body) :
    span (a, (r, .use true) :: body) = (r - a) + span (r, body) := by
  have hf : ((r, Op.use true) :: body).filter isCounted = (r, Op.use true) :: body.filter isCounted := rfl
  simp only [span, hf, List.getLast?_cons]
  cases hl : (body.filter isCounted).getLast? with
  | none => rfl
  | some u =>
    have hu : r ≤ u.1 := ht.1 u (List.mem_of_mem_filter (List.mem_of_getLast? hl))
    simp only [Option.getD_some, Option.map_some]
    omega

private theorem span_cons_uncounted (a r : Nat) (body : List (Nat × Op)) :
    span (a, (r, .use false) :: body) = span (a, body) := rfl

private theorem charge_cons_counted (l : Live) (r : Nat) (body : List (Nat × Op)) :
    charge (some l) ((r, .use true) :: body) =
      (r - l.anchor) + charge (some { l with last := r, used := l.used || true }) body := rfl

private theorem charge_cons_uncounted (l : Live) (r : Nat) (body : List (Nat × Op)) :
    charge (some l) ((r, .use false) :: body) = charge (some { l with last := r, used := l.used || false }) body :=
  Nat.zero_add _

private theorem charge_used {l : Live} {a : Nat} (hu : l.used = true) (ha : a ≤ l.last) (ht : Timed l.last body)
    (hb : ∀ o ∈ body, isUse o = true) :
    charge (some l) body ≤ span (a, body) ∧
    (charge (some l) body = span (a, body) ↔
      NoGap (some a) body ∧ (body.any isCounted = true → l.last = a)) := by
  induction body generalizing l a with
  | nil => simp [charge, span, NoGap]
  | cons o body ih =>
    obtain ⟨hlo, ht'⟩ := timed_cons.1 ht
    have hb' : ∀ o ∈ body, isUse o = true := fun o ho => hb o (List.mem_cons_of_mem _ ho)
    obtain ⟨r, _ | k | _⟩ := o
    · exact absurd (hb _ (List.mem_cons_self ..)) (by simp [isUse])
    · dsimp only at hlo ht'
      cases k with
      | true =>
        obtain ⟨h1, h2⟩ := ih (l := { l with last := r, used := l.used || true }) (a := r) (by simp)
          (Nat.le_refl r) ht' hb'
        have hanchor : l.anchor = l.last := by simp [Live.anchor, hu]
        rw [charge_cons_counted, hanchor, span_cons_counted (by omega) ht']
        refine ⟨by omega, ?_⟩
        simp only [NoGap, List.any_cons, isCounted, Bool.true_or, true_implies]
        simp only [implies_true, and_true] at h2
        rw [← h2]
        omega
      | false =>
        obtain ⟨h1, h2⟩ := ih (l := { l with last := r, used := l.used || false }) (a := a) (by simp [hu])
          (by dsimp only; omega) ht' hb'
        rw [charge_cons_uncounted, span_cons_uncounted]
        refine ⟨h1, h2.trans ?_⟩
        simp only [NoGap, List.any_cons, isCounted, Bool.false_or, Option.some.injEq, reduceCtorEq, false_or]
        cases hany : body.any isCounted with
        | false => simp
        | true =>
          simp only [true_implies, Bool.true_eq_false, or_false]
          constructor
          · rintro ⟨h3, h4⟩; exact ⟨⟨h4.symm, h3⟩, by omega⟩
          · rintro ⟨⟨h3, h4⟩, -⟩; exact ⟨h4, h3.symm⟩
    · exact absurd (hb _ (List.mem_cons_self ..)) (by simp [isUse])

private theorem charge_unused {l : Live} (hu : l.used = false) (ht : Timed l.birth body)
    (hb : ∀ o ∈ body, isUse o = true) :
    charge (some l) body ≤ span (l.birth, body) ∧
    (charge (some l) body = span (l.birth, body) ↔ NoGap none body) := by
  induction body generalizing l with
  | nil => simp [charge, span, NoGap]
  | cons o body ih =>
    obtain ⟨hlo, ht'⟩ := timed_cons.1 ht
    have hb' : ∀ o ∈ body, isUse o = true := fun o ho => hb o (List.mem_cons_of_mem _ ho)
    obtain ⟨r, _ | k | _⟩ := o
    · exact absurd (hb _ (List.mem_cons_self ..)) (by simp [isUse])
    · dsimp only at hlo ht'
      cases k with
      | true =>
        obtain ⟨h1, h2⟩ := charge_used (l := { l with last := r, used := l.used || true }) (a := r) (by simp)
          (Nat.le_refl r) ht' hb'
        have hanchor : l.anchor = l.birth := by simp [Live.anchor, hu]
        rw [charge_cons_counted, hanchor, span_cons_counted hlo ht']
        refine ⟨by omega, ?_⟩
        simp only [NoGap]
        simp only [implies_true, and_true] at h2
        rw [← h2]
        omega
      | false =>
        obtain ⟨h1, h2⟩ := ih (l := { l with last := r, used := l.used || false }) (by simp [hu])
          (ht'.mono hlo) hb'
        rw [charge_cons_uncounted, span_cons_uncounted]
        refine ⟨h1, h2.trans ?_⟩
        simp [NoGap]
    · exact absurd (hb _ (List.mem_cons_self ..)) (by simp [isUse])

private theorem sum_eq_iff {α : Type} {f g : α → Nat} {xs : List α} (h : ∀ x ∈ xs, f x ≤ g x) :
    (xs.map f).sum ≤ (xs.map g).sum ∧ ((xs.map f).sum = (xs.map g).sum ↔ ∀ x ∈ xs, f x = g x) := by
  induction xs with
  | nil => simp
  | cons x xs ih =>
    obtain ⟨h1, h2⟩ := ih (fun y hy => h y (List.mem_cons_of_mem _ hy))
    have hx := h x (List.mem_cons_self ..)
    simp only [List.map_cons, List.sum_cons, List.forall_mem_cons]
    rw [← h2]
    omega

private theorem charge_lifetime (ht : Timed lo ops) (hl : l ∈ lifetimes ops) :
    charge (some ⟨l.1, l.1, false⟩) l.2 ≤ span l ∧
      (charge (some ⟨l.1, l.1, false⟩) l.2 = span l ↔ NoGap none l.2) := by
  obtain ⟨h1, h2⟩ := ht.lifetimes hl
  exact charge_unused rfl h1 h2

theorem charge_le_total (ht : Timed lo ops) : charge none ops ≤ total ops := by
  rw [charge_none_eq_sum, total]
  exact (sum_eq_iff fun l hl => (charge_lifetime ht hl).1).1

/-- The machine computes the meaning exactly when no lifetime has an uncounted use between two counted ones. -/
theorem charge_eq_total_iff (ht : Timed lo ops) :
    charge none ops = total ops ↔ ∀ l ∈ lifetimes ops, NoGap none l.2 := by
  rw [charge_none_eq_sum, total, (sum_eq_iff fun l hl => (charge_lifetime ht hl).1).2]
  exact forall₂_congr fun l hl => (charge_lifetime ht hl).2

private theorem noGap_of_counted {a : Option Nat} (h : ∀ o ∈ body, isUse o = true → isCounted o = true) :
    NoGap a body := by
  induction body generalizing a with
  | nil => trivial
  | cons o body ih =>
    have hb : ∀ o ∈ body, isUse o = true → isCounted o = true := fun o ho => h o (List.mem_cons_of_mem _ ho)
    have ho := h o (List.mem_cons_self ..)
    obtain ⟨r, _ | k | _⟩ := o
    · exact ih hb
    · cases k with
      | true => exact ih hb
      | false => simp [isUse, isCounted] at ho
    · exact ih hb

private theorem mem_of_mem_lifetimes (hl : l ∈ lifetimes ops) {o : Nat × Op} (ho : o ∈ l.2) : o ∈ ops := by
  induction ops with
  | nil => simp [lifetimes] at hl
  | cons x ops ih =>
    obtain ⟨t, _ | k | _⟩ := x
    · rcases List.mem_cons.1 hl with rfl | hl
      · exact List.mem_cons_of_mem _ ((List.takeWhile_sublist _).subset ho)
      · exact List.mem_cons_of_mem _ (ih hl)
    · exact List.mem_cons_of_mem _ (ih hl)
    · exact List.mem_cons_of_mem _ (ih hl)

theorem charge_eq_total (ht : Timed lo ops) (h : ∀ o ∈ ops, isUse o = true → isCounted o = true) :
    charge none ops = total ops :=
  (charge_eq_total_iff ht).2 fun _ hl => noGap_of_counted fun o ho => h o (mem_of_mem_lifetimes hl ho)

/-! ### Closes that are not seen -/

section Unseen

variable {α : Type} (op : α → Option (Nat × Op)) (seen : α → Bool)

/-- What a machine that does not see some of the closes is charged for values that have ended; `ended` says that the cell
holds such a value. -/
def stale : Option Live → Bool → List α → Nat
  | _, _, [] => 0
  | c, ended, x :: xs =>
    match op x with
    | none => stale c ended xs
    | some o =>
      if seen x then (if ended then gain c o.1 o.2 else 0) + stale (next c o.1 o.2) (ended && isUse o) xs
      else stale c true xs

theorem charge_seen {xs : List α} (hstop : ∀ x ∈ xs, seen x = false → ∀ o, op x = some o → o.2 = .stop) (c : Option Live)
    (ended : Bool) :
    charge c ((xs.filter seen).filterMap op) =
      charge (if ended then none else c) (xs.filterMap op) + stale op seen c ended xs := by
  induction xs generalizing c ended with
  | nil => rfl
  | cons x xs ih =>
    rw [List.forall_mem_cons] at hstop
    replace ih := ih hstop.2
    cases hx : op x with
    | none =>
      rw [stale, hx, List.filterMap_cons_none hx]
      cases hs : seen x with
      | true => rw [List.filter_cons_of_pos hs, List.filterMap_cons_none hx, ih c ended]
      | false => rw [List.filter_cons_of_neg (by simp [hs]), ih c ended]
    | some o =>
      rw [stale, hx, List.filterMap_cons_some hx]
      cases hs : seen x with
      | true =>
        -- behind a use the cell still holds the old value, behind a write or a close it does not
        have hcell : (if ended && isUse o then none else next c o.1 o.2) = next (if ended then none else c) o.1 o.2 := by
          obtain ⟨t, _ | k | _⟩ := o <;> cases ended <;> rfl
        have hgain : gain (if ended then none else c) o.1 o.2 + (if ended then gain c o.1 o.2 else 0) = gain c o.1 o.2 := by
          obtain ⟨t, _ | k | _⟩ := o <;> cases ended <;> try rfl
          cases k <;> simp [gain]
        rw [List.filter_cons_of_pos hs, List.filterMap_cons_some hx, charge, charge, ih _ (ended && isUse o), hcell, ← hgain]
        simp only [↓reduceIte]
        omega
      | false =>
        obtain ⟨t, o⟩ := o
        obtain rfl : o = .stop := hstop.1 hs _ hx
        rw [List.filter_cons_of_neg (by simp [hs]), ih c true, charge]
        simp [gain, next]

end Unseen

/-! ### The elapsed time bounds the charge -/

private theorem charge_le_aux {lo T : Nat} {c : Option Live} (ht : Timed lo ops) (hT : ∀ o ∈ ops, o.1 ≤ T)
    (hlo : lo ≤ T) (hc : (c.map Live.anchor).getD lo ≤ lo) : charge c ops + (c.map Live.anchor).getD lo ≤ T := by
  induction ops generalizing lo c with
  | nil => simp only [charge]; omega
  | cons o ops ih =>
    obtain ⟨hle, ht'⟩ := timed_cons.1 ht
    have hT' : ∀ o ∈ ops, o.1 ≤ T := fun o ho => hT o (List.mem_cons_of_mem _ ho)
    have ho := hT o (List.mem_cons_self ..)
    -- what is left is charged from the new anchor on, which is not before the old one
    have key : ∀ c', (c'.map Live.anchor).getD o.1 ≤ o.1 →
        charge c' ops + (c'.map Live.anchor).getD o.1 ≤ T := fun c' hc' => ih ht' hT' ho hc'
    obtain ⟨t, _ | k | _⟩ := o
    · have := key (some ⟨t, t, false⟩) (by simp [Live.anchor])
      simp only [charge, gain, next, Option.map_some, Option.getD_some, Live.anchor] at this ⊢
      simp only [Bool.false_eq_true, ↓reduceIte] at this
      dsimp only at hle
      omega
    · cases c with
      | none =>
        have := key none (by simp)
        dsimp only at hle
        cases k <;> simp only [charge, gain, next, Option.map_none, Option.getD_none] at this ⊢ <;> omega
      | some l =>
        simp only [Option.map_some, Option.getD_some] at hc ⊢
        dsimp only at hle
        cases k with
        | true =>
          have hrest := key (some { l with last := t, used := l.used || true }) (Live.anchor_counted l t).le
          rw [Option.map_some, Option.getD_some, Live.anchor_counted] at hrest
          rw [charge_cons_counted]
          omega
        | false =>
          have hnext : (if l.used then t else l.anchor) ≤ t := by split <;> omega
          have hrest := key (some { l with last := t, used := l.used || false })
            ((Live.anchor_uncounted l t).le.trans hnext)
          rw [Option.map_some, Option.getD_some, Live.anchor_uncounted] at hrest
          rw [charge_cons_uncounted]
          split at hrest <;> omega
    · have := key none (by simp)
      simp only [charge, gain, next, Option.map_none, Option.getD_none] at this ⊢
      dsimp only at hle
      omega

private theorem anchor_next_le {T t : Nat} {c : Option Live} {o : Op} (hc : ∀ l, c = some l → l.anchor ≤ T) (ht : t ≤ T)
    {l : Live} (hl : next c t o = some l) : l.anchor ≤ T := by
  cases o with
  | start =>
    obtain rfl : ⟨t, t, false⟩ = l := Option.some.inj hl
    exact ht
  | use k =>
    obtain ⟨l₀, h₀, rfl⟩ := Option.map_eq_some_iff.1 hl
    have hold := hc l₀ h₀
    cases k with
    | true =>
      rw [Live.anchor_counted]
      exact ht
    | false =>
      rw [Live.anchor_uncounted]
      split
      · exact ht
      · exact hold
  | stop => cases hl

theorem anchor_after_le {T : Nat} (hT : ∀ o ∈ ops, o.1 ≤ T) {l : Live} (hl : after none ops = some l) :
    l.anchor ≤ T := by
  refine List.foldlRecOn (motive := fun c => ∀ l, c = some l → l.anchor ≤ T) ops (fun c o => next c o.1 o.2)
    (fun l hl => ?_) (fun c hc o ho l hl => ?_) l hl
  · cases hl
  · exact anchor_next_le hc (hT o ho) hl

theorem charge_le {T : Nat} (ht : Timed 0 ops) (hT : ∀ o ∈ ops, o.1 ≤ T) : charge none ops ≤ T := by
  have := charge_le_aux (c := none) ht hT (Nat.zero_le T) (by simp)
  simpa using this

/-! ### A machine that sees fewer uses -/

/-- The second machine holds the same value as the first and has charged no later use. -/
def Lags (c c' : Option Live) : Prop :=
  ∀ l, c = some l → l.birth ≤ l.last ∧
    ∃ l', c' = some l' ∧ l'.birth = l.birth ∧ (l'.used = true → l.used = true ∧ l'.last ≤ l.last)

def slack : Option Live → Option Live → Nat
  | some l, some l' => l.anchor - l'.anchor
  | _, _ => 0

theorem next_last_le {c : Option Live} {t : Nat} {o : Op} {l : Live} (hl : next c t o = some l) : l.last ≤ t := by
  cases o with
  | start => cases Option.some.inj hl; exact Nat.le_refl t
  | use k =>
    obtain ⟨l', -, rfl⟩ := Option.map_eq_some_iff.1 hl
    exact Nat.le_refl t
  | stop => cases hl

theorem lags_none (c' : Option Live) : Lags none c' := fun _ h => by cases h

theorem lags_start (c c' : Option Live) (t : Nat) : Lags (next c t .start) (next c' t .start) := by
  intro l hl
  cases Option.some.inj hl
  exact ⟨Nat.le_refl t, _, rfl, rfl, fun h => ⟨h, Nat.le_refl t⟩⟩

theorem Live.anchor_le_last {l : Live} (h : l.birth ≤ l.last) : l.anchor ≤ l.last := by
  rw [Live.anchor]
  split
  · exact Nat.le_refl _
  · exact h

theorem anchor_le_of_lags {l l' : Live} (hb : l.birth ≤ l.last) (hbb : l'.birth = l.birth)
    (hu : l'.used = true → l.used = true ∧ l'.last ≤ l.last) : l'.anchor ≤ l.anchor := by
  rw [Live.anchor, Live.anchor]
  by_cases h : l'.used = true
  · rw [if_pos h, if_pos (hu h).1]
    exact (hu h).2
  · rw [if_neg h, hbb]
    split
    · exact hb
    · exact Nat.le_refl _

theorem Lags.use {c c' : Option Live} {t : Nat} (h : Lags c c') (hc : c ≠ none) (ht : ∀ l, c = some l → l.last ≤ t)
    (k : Bool) :
    Lags (next c t (.use true)) (next c' t (.use k)) ∧
    gain c' t (.use k) + slack (next c t (.use true)) (next c' t (.use k)) ≤ gain c t (.use true) + slack c c' := by
  obtain ⟨l, rfl⟩ := Option.ne_none_iff_exists'.1 hc
  obtain ⟨hb, l', rfl, hbb, hu⟩ := h l rfl
  have hlt := ht l rfl
  constructor
  · intro m hm
    cases Option.some.inj hm
    exact ⟨Nat.le_trans hb hlt, _, rfl, hbb, fun _ => ⟨Bool.or_true _, Nat.le_refl t⟩⟩
  · have hle := Live.anchor_le_last hb
    have hlag := anchor_le_of_lags hb hbb hu
    cases k with
    | true =>
      show (t - l'.anchor) + (Live.anchor { l with last := t, used := l.used || true } -
        Live.anchor { l' with last := t, used := l'.used || true }) ≤ (t - l.anchor) + (l.anchor - l'.anchor)
      rw [Live.anchor_counted, Live.anchor_counted]
      omega
    | false =>
      show 0 + (Live.anchor { l with last := t, used := l.used || true } -
        Live.anchor { l' with last := t, used := l'.used || false }) ≤ (t - l.anchor) + (l.anchor - l'.anchor)
      rw [Live.anchor_counted, Live.anchor_uncounted]
      split <;> omega

theorem Lags.use_left {c c' : Option Live} {t : Nat} (h : Lags c c') (ht : ∀ l, c = some l → l.last ≤ t) :
    Lags (next c t (.use true)) c' ∧
    slack (next c t (.use true)) c' ≤ gain c t (.use true) + slack c c' := by
  cases c with
  | none => exact ⟨lags_none _, Nat.zero_le _⟩
  | some l =>
    obtain ⟨hb, l', rfl, hbb, hu⟩ := h l rfl
    have hlt := ht l rfl
    constructor
    · intro m hm
      cases Option.some.inj hm
      exact ⟨Nat.le_trans hb hlt, l', rfl, hbb, fun h => ⟨Bool.or_true _, Nat.le_trans (hu h).2 hlt⟩⟩
    · have hle := Live.anchor_le_last hb
      have hlag := anchor_le_of_lags hb hbb hu
      show Live.anchor { l with last := t, used := l.used || true } - l'.anchor ≤ (t - l.anchor) + (l.anchor - l'.anchor)
      rw [Live.anchor_counted]
      omega

/-! ### Machines that charge the same -/

def Agrees (c c' : Option Live) : Prop :=
  ∀ l, c = some l → ∃ l', c' = some l' ∧ l'.birth = l.birth ∧ l'.used = l.used ∧ (l.used = true → l'.last = l.last)

theorem agrees_none (c' : Option Live) : Agrees none c' := fun _ h => by cases h

theorem agrees_start (c c' : Option Live) (t : Nat) : Agrees (next c t .start) (next c' t .start) :=
  fun l hl => ⟨l, hl, rfl, rfl, fun _ => rfl⟩

theorem Agrees.use {c c' : Option Live} (h : Agrees c c') (hc : c ≠ none) (t : Nat) (k : Bool) :
    Agrees (next c t (.use k)) (next c' t (.use k)) ∧ gain c t (.use k) = gain c' t (.use k) := by
  obtain ⟨l, rfl⟩ := Option.ne_none_iff_exists'.1 hc
  obtain ⟨l', rfl, hb, hu, hlast⟩ := h l rfl
  constructor
  · intro m hm
    cases Option.some.inj hm
    exact ⟨_, rfl, hb, by simp [hu], fun _ => rfl⟩
  · cases k with
    | false => rfl
    | true => cases hl : l.used <;> simp [gain, Live.anchor, hb, hu, hl, hlast]

theorem Agrees.use_left {c c' : Option Live} (h : Agrees c c') (hc : ∀ l, c = some l → l.used = false) (t : Nat) :
    Agrees (next c t (.use false)) c' := by
  intro m hm
  obtain ⟨l, rfl, rfl⟩ := Option.map_eq_some_iff.1 hm
  obtain ⟨l', rfl, hb, hu, -⟩ := h l rfl
  exact ⟨l', rfl, hb, by simp [hu], fun h => by simp [hc l rfl] at h⟩

/-! ### Banks of cells -/

section Bank

variable {σ ε ι : Type} (step : σ → ε → σ) (op : σ → ε → ι → Option (Nat × Op))

def opsOf : σ → List ε → ι → List (Nat × Op)
  | _, [], _ => []
  | s, e :: es, i => (op s e i).toList ++ opsOf (step s e) es i

theorem opsOf_comap {κ : Type} (g : κ → ι) (s : σ) (es : List ε) (i : κ) :
    opsOf step (fun s e i => op s e (g i)) s es i = opsOf step op s es (g i) := by
  induction es generalizing s with
  | nil => rfl
  | cons e es ih => rw [opsOf, opsOf, ih]

variable {step op}

theorem cell_foldl (cell : σ → ι → Option Live)
    (hcell : ∀ s e i, cell (step s e) i = after (cell s i) (op s e i).toList) (s : σ) (es : List ε) (i : ι) :
    cell (es.foldl step s) i = after (cell s i) (opsOf step op s es i) := by
  induction es generalizing s with
  | nil => rfl
  | cons e es ih => rw [List.foldl_cons, ih, hcell, opsOf, after_append]

theorem ledger_foldl_on (S : Finset ι) (cell : σ → ι → Option Live) (ledger : σ → Nat) {es : List ε}
    (hcell : ∀ s e i, cell (step s e) i = after (cell s i) (op s e i).toList)
    (hledger : ∀ s, ∀ e ∈ es, ledger (step s e) = ledger s + ∑ i ∈ S, charge (cell s i) (op s e i).toList) (s : σ) :
    ledger (es.foldl step s) = ledger s + ∑ i ∈ S, charge (cell s i) (opsOf step op s es i) := by
  induction es generalizing s with
  | nil => simp [opsOf, charge]
  | cons e es ih =>
    have hrest := ih (fun s e he => hledger s e (List.mem_cons_of_mem _ he)) (step s e)
    rw [List.foldl_cons, hrest, hledger s e List.mem_cons_self, Nat.add_assoc, ← Finset.sum_add_distrib]
    simp only [opsOf, charge_append, hcell]

theorem ledger_foldl [Fintype ι] (cell : σ → ι → Option Live) (ledger : σ → Nat)
    (hcell : ∀ s e i, cell (step s e) i = after (cell s i) (op s e i).toList)
    (hledger : ∀ s e, ledger (step s e) = ledger s + ∑ i, charge (cell s i) (op s e i).toList)
    (s : σ) (es : List ε) :
    ledger (es.foldl step s) = ledger s + ∑ i, charge (cell s i) (opsOf step op s es i) :=
  ledger_foldl_on Finset.univ cell ledger hcell (fun s e _ => hledger s e) s

theorem sum_charge_eq_single [Fintype ι] [DecidableEq ι] (cell : ι → Option Live) (o : ι → Option (Nat × Op))
    (j : ι) (h : ∀ i, i ≠ j → o i = none) :
    ∑ i, charge (cell i) (o i).toList = charge (cell j) (o j).toList := by
  refine Finset.sum_eq_single j (fun i _ hi => ?_) (fun hj => absurd (Finset.mem_univ j) hj)
  rw [h i hi]
  rfl

theorem sum_charge_eq_zero [Fintype ι] (cell : ι → Option Live) (o : ι → Option (Nat × Op))
    (h : ∀ i, o i = none) : ∑ i, charge (cell i) (o i).toList = 0 :=
  Finset.sum_eq_zero fun i _ => by rw [h i]; rfl

variable {time : σ → Nat}

theorem timed_opsOf (hop : ∀ s e i x, op s e i = some x → x.1 = time s) (htime : ∀ s e, time s ≤ time (step s e))
    (s : σ) (es : List ε) (i : ι) :
    Timed (time s) (opsOf step op s es i) ∧ (∀ o ∈ opsOf step op s es i, o.1 ≤ time (es.foldl step s)) ∧
      time s ≤ time (es.foldl step s) := by
  induction es generalizing s with
  | nil => simp [opsOf, Timed]
  | cons e es ih =>
    obtain ⟨h1, h2, h3⟩ := ih (step s e)
    have hle := htime s e
    refine ⟨?_, ?_, Nat.le_trans hle h3⟩
    · cases ho : op s e i with
      | none => simpa only [opsOf, ho, Option.toList_none, List.nil_append] using h1.mono hle
      | some x =>
        simp only [opsOf, ho, Option.toList_some, List.singleton_append, timed_cons, hop s e i x ho, Nat.le_refl,
          true_and]
        exact h1.mono hle
    · intro o ho
      rcases List.mem_append.1 ho with ho | ho
      · rw [hop s e i o (Option.mem_toList.1 ho)]
        exact Nat.le_trans hle h3
      · exact h2 o ho

private theorem counted_opsOf (hcounted : ∀ s e i x, op s e i = some x → isUse x = true → isCounted x = true) (s : σ)
    (es : List ε) (i : ι) : ∀ o ∈ opsOf step op s es i, isUse o = true → isCounted o = true := by
  induction es generalizing s with
  | nil => simp [opsOf]
  | cons e es ih =>
    intro o ho
    rcases List.mem_append.1 ho with ho | ho
    · exact hcounted s e i o (Option.mem_toList.1 ho)
    · exact ih (step s e) o ho

theorem ledger_foldl_eq_total (S : Finset ι) (cell : σ → ι → Option Live) (ledger : σ → Nat) {es : List ε}
    (hcell : ∀ s e i, cell (step s e) i = after (cell s i) (op s e i).toList)
    (hledger : ∀ s, ∀ e ∈ es, ledger (step s e) = ledger s + ∑ i ∈ S, charge (cell s i) (op s e i).toList)
    (hop : ∀ s e i x, op s e i = some x → x.1 = time s) (htime : ∀ s e, time s ≤ time (step s e))
    (hcounted : ∀ s e i x, op s e i = some x → isUse x = true → isCounted x = true) {s : σ}
    (hs : ∀ i ∈ S, cell s i = none) :
    ledger (es.foldl step s) = ledger s + ∑ i ∈ S, total (opsOf step op s es i) := by
  rw [ledger_foldl_on S cell ledger hcell hledger s]
  congr 1
  refine Finset.sum_congr rfl fun i hi => ?_
  rw [hs i hi]
  exact charge_eq_total (timed_opsOf hop htime s es i).1 (counted_opsOf hcounted s es i)

theorem sum_charge_le [Fintype ι] (op : σ → ε → ι → Option (Nat × Op))
    (hop : ∀ s e i x, op s e i = some x → x.1 = time s) (htime : ∀ s e, time s ≤ time (step s e)) (s : σ) (es : List ε) :
    ∑ i, charge none (opsOf step op s es i) ≤ Fintype.card ι * time (es.foldl step s) := by
  have key : ∀ i ∈ Finset.univ, charge none (opsOf step op s es i) ≤ time (es.foldl step s) := by
    intro i _
    obtain ⟨h1, h2, -⟩ := timed_opsOf hop htime s es i
    exact charge_le (h1.mono (Nat.zero_le _)) h2
  simpa using Finset.sum_le_card_nsmul _ _ _ key

end Bank

end GemFI.Lifetime
