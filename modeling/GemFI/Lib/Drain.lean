import Mathlib.Algebra.Order.Ring.Nat
import Mathlib.Data.List.Perm.Subperm

/-!
# Draining a list with put-backs

A loop takes the elements of a list from the head and decides for each whether it is done with it or puts it back, to
the head of the list *after* the next element has been taken.  `Drains keep l t rest`: with the decisions `keep 0,
keep 1, …` the loop on `l` ends, has looked at the elements of `t` in this order and leaves `rest`.

* At most one element is left, and every other one has been done once (`Drains.perm`, `Drains.length_rest`).
* The loop looks at every element once exactly if it never puts one back while others remain (`Drains.length_eq_iff`).
* It never lets go of an element that it has put back exactly if it puts back one element only, and that one every
  second time until it is alone (`exists_drains_iff`).
-/

namespace GemFI.Drain

variable {α : Type}

def later (keep : Nat → Bool) : Nat → Bool := fun i => keep (i + 1)

inductive Drains : (Nat → Bool) → List α → List (α × Bool) → List α → Prop
  | nil (keep : Nat → Bool) : Drains keep [] [] []
  | last (keep : Nat → Bool) (x : α) : Drains keep [x] [(x, keep 0)] (if keep 0 then [x] else [])
  | put {keep : Nat → Bool} {x y : α} {l : List α} {t : List (α × Bool)} {rest : List α} (hk : keep 0 = true)
      (h : Drains (later keep) (y :: x :: l) t rest) : Drains keep (x :: y :: l) ((x, true) :: t) rest
  | done {keep : Nat → Bool} {x y : α} {l : List α} {t : List (α × Bool)} {rest : List α} (hk : keep 0 = false)
      (h : Drains (later keep) (y :: l) t rest) : Drains keep (x :: y :: l) ((x, false) :: t) rest

variable {keep : Nat → Bool} {l : List α} {t : List (α × Bool)} {rest : List α}

theorem Drains.length_rest (h : Drains keep l t rest) : rest.length ≤ 1 := by
  induction h with
  | nil => exact Nat.zero_le 1
  | last keep x => split <;> simp
  | put _ _ ih => exact ih
  | done _ _ ih => exact ih

theorem Drains.perm (h : Drains keep l t rest) : ((t.filter (!·.2)).map Prod.fst ++ rest).Perm l := by
  induction h with
  | nil => exact .refl _
  | last keep x => cases keep 0 <;> simp
  | put hk _ ih => exact (by simpa using ih : List.Perm _ _).trans (.swap ..)
  | done hk _ ih => simpa using ih

theorem Drains.mem (h : Drains keep l t rest) {p : α × Bool} (hp : p ∈ t) : p.1 ∈ l := by
  induction h with
  | nil => cases hp
  | last keep x => simp_all
  | put _ _ ih =>
    rcases List.mem_cons.1 hp with rfl | hp
    · exact List.mem_cons_self
    · exact (List.Perm.swap ..).mem_iff.1 (ih hp)
  | done _ _ ih =>
    rcases List.mem_cons.1 hp with rfl | hp
    · exact List.mem_cons_self
    · exact List.mem_cons_of_mem _ (ih hp)

theorem Drains.mem_rest (h : Drains keep l t rest) {x : α} (hx : x ∈ l) (hdone : (x, false) ∉ t) : x ∈ rest := by
  have hx' := h.perm.mem_iff.2 hx
  rcases List.mem_append.1 hx' with hx' | hx'
  · obtain ⟨⟨y, b⟩, hp, rfl⟩ := List.mem_map.1 hx'
    obtain ⟨hp, hb⟩ := List.mem_filter.1 hp
    have hb : b = false := by simpa using hb
    exact absurd (hb ▸ hp) hdone
  · exact hx'

/-! ### Looking at every element once -/

theorem Drains.length_eq_iff (h : Drains keep l t rest) :
    l.length ≤ t.length ∧ (t.length = l.length ↔ ∀ i < l.length - 1, keep i = false) := by
  induction h with
  | nil => simp
  | last => simp
  | put hk _ ih =>
    obtain ⟨hle, -⟩ := ih
    simp only [List.length_cons] at hle ⊢
    refine ⟨by omega, fun h => by omega, fun h => ?_⟩
    have := h 0 (by omega)
    rw [hk] at this
    cases this
  | done hk _ ih =>
    obtain ⟨hle, hiff⟩ := ih
    simp only [List.length_cons, Nat.add_sub_cancel] at hle hiff ⊢
    refine ⟨by omega, ?_⟩
    rw [Nat.add_left_inj, hiff]
    constructor
    · rintro h (_ | i) hi
      · exact hk
      · exact h i (by omega)
    · intro h i hi
      exact h (i + 1) (by omega)

theorem Drains.count_le_iff [DecidableEq α] (h : Drains keep l t rest) :
    (∀ x, (t.map Prod.fst).count x ≤ l.count x) → ∀ i < l.length - 1, keep i = false := by
  intro hcount
  have hsub : (t.map Prod.fst).Subperm l := List.subperm_ext_iff.2 fun x _ => hcount x
  have hlen := hsub.length_le
  rw [List.length_map] at hlen
  obtain ⟨hle, hiff⟩ := h.length_eq_iff
  exact hiff.1 (by omega)

theorem drains_of_last {init : List α} {x : α} (h : ∀ i < init.length, keep i = false) :
    Drains keep (init ++ [x]) (init.map (·, false) ++ [(x, keep init.length)]) (if keep init.length then [x] else []) := by
  induction init generalizing keep with
  | nil => exact .last keep x
  | cons y init ih =>
    have hk : keep 0 = false := h 0 (by simp)
    have hlater : ∀ i < init.length, later keep i = false := fun i hi => h (i + 1) (by simpa using hi)
    have hrest := ih hlater
    rcases init with _ | ⟨z, init⟩
    · exact .done hk hrest
    · exact .done hk hrest

theorem not_drains_of_keep (hk : ∀ i, keep i = true) (hl : 2 ≤ l.length) : ¬ Drains keep l t rest := by
  intro h
  induction h with
  | nil | last => simp at hl
  | put _ _ ih => exact ih (fun i => hk (i + 1)) (by simp)
  | done h0 => exact absurd (hk 0) (by simp [h0])

/-! ### Letting go of nothing that was put back -/

/-- The first of `m + 1` elements is put back every second time, and the others are done between. -/
def Alternates (keep : Nat → Bool) (m : Nat) : Prop :=
  (∀ i < m, keep (2 * i) = true ∧ keep (2 * i + 1) = false) ∧ keep (2 * m) = true

/-- Some elements are done, and then one is put back until it is alone. -/
def KeepsOne (keep : Nat → Bool) (n : Nat) : Prop :=
  (∀ i < n, keep i = false) ∨
  ∃ j < n, (∀ i < j, keep i = false) ∧ Alternates (fun i => keep (j + i)) (n - 1 - j)

theorem alternates_succ {m : Nat} :
    Alternates keep (m + 1) ↔ keep 0 = true ∧ keep 1 = false ∧ Alternates (later (later keep)) m := by
  have hshift : ∀ i, later (later keep) (2 * i) = keep (2 * (i + 1)) ∧
      later (later keep) (2 * i + 1) = keep (2 * (i + 1) + 1) := fun i => ⟨rfl, rfl⟩
  constructor
  · rintro ⟨h, hlast⟩
    obtain ⟨h0, h1⟩ := h 0 (by omega)
    refine ⟨h0, h1, fun i hi => ?_, ?_⟩
    · rw [(hshift i).1, (hshift i).2]
      exact h (i + 1) (by omega)
    · rw [(hshift m).1]
      exact hlast
  · rintro ⟨h0, h1, h, hlast⟩
    rw [(hshift m).1] at hlast
    refine ⟨?_, hlast⟩
    rintro (_ | i) hi
    · exact ⟨h0, h1⟩
    · have := h i (by omega)
      rwa [(hshift i).1, (hshift i).2] at this

theorem keepsOne_succ {n : Nat} :
    KeepsOne keep (n + 1) ↔ (keep 0 = false ∧ KeepsOne (later keep) n) ∨ Alternates keep n := by
  constructor
  · rintro (h | ⟨_ | j, hj, h, halt⟩)
    · exact .inl ⟨h 0 (by omega), .inl fun i hi => h (i + 1) (by omega)⟩
    · exact .inr (by simpa using halt)
    · refine .inl ⟨h 0 (by omega), .inr ⟨j, by omega, fun i hi => h (i + 1) (by omega), ?_⟩⟩
      have hn : n + 1 - 1 - (j + 1) = n - 1 - j := by omega
      rw [hn] at halt
      simpa only [later, Nat.add_right_comm] using halt
  · rintro (⟨h0, h | ⟨j, hj, h, halt⟩⟩ | halt)
    · refine .inl ?_
      rintro (_ | i) hi
      · exact h0
      · exact h i (by omega)
    · refine .inr ⟨j + 1, by omega, ?_, ?_⟩
      · rintro (_ | i) hi
        · exact h0
        · exact h i (by omega)
      · have hn : n + 1 - 1 - (j + 1) = n - 1 - j := by omega
        rw [hn]
        simpa only [later, Nat.add_right_comm] using halt
    · exact .inr ⟨0, by omega, fun i hi => absurd hi (Nat.not_lt_zero i), by simpa using halt⟩

def Clean (t : List (α × Bool)) : Prop := ∀ x, (x, true) ∈ t → (x, false) ∉ t

private theorem Clean.tail {p : α × Bool} (h : Clean (p :: t)) : Clean t := fun x hx hx' =>
  h x (List.mem_cons_of_mem _ hx) (List.mem_cons_of_mem _ hx')

private theorem Drains.not_both (h : Drains keep l t rest) {x y : α} (hne : x ≠ y) (hx : x ∈ l) (hy : y ∈ l)
    (hxt : (x, false) ∉ t) : (y, false) ∈ t := by
  by_contra hyt
  have hx' := h.mem_rest hx hxt
  have hy' := h.mem_rest hy hyt
  have hlen := h.length_rest
  rcases rest with _ | ⟨a, _ | ⟨b, rest⟩⟩
  · cases hx'
  · simp only [List.mem_singleton] at hx' hy'
    exact hne (hx'.trans hy'.symm)
  · simp at hlen

private theorem Drains.alternates {x : α} (h : Drains keep (x :: l) t rest) (hl : (x :: l).Nodup)
    (hx : (x, false) ∉ t) (ht : Clean t) : Alternates keep l.length := by
  induction hn : l.length using Nat.strong_induction_on generalizing keep l t with
  | _ n ih =>
    rcases h with _ | _ | ⟨hk, h⟩ | ⟨hk, h⟩
    · cases hk : keep 0
      · exact absurd (by simp [hk]) hx
      · subst hn
        exact ⟨fun i hi => absurd hi (Nat.not_lt_zero i), hk⟩
    · rename_i y l t
      have hxy : x ≠ y := fun hxy => (List.nodup_cons.1 hl).1 (hxy ▸ List.mem_cons_self)
      have hx' : (x, false) ∉ t := fun hx' => hx (List.mem_cons_of_mem _ hx')
      have hy := h.not_both hxy (by simp) (by simp) hx'
      rcases h with _ | _ | ⟨hk', h⟩ | ⟨hk', h⟩
      · exact absurd hy (ht.tail y List.mem_cons_self)
      · subst hn
        rw [List.length_cons, alternates_succ]
        refine ⟨hk, hk', ih l.length (by simp) h ?_ ?_ ht.tail.tail rfl⟩
        · simp only [List.nodup_cons, List.mem_cons, not_or] at hl ⊢
          exact ⟨hl.1.2, hl.2.2⟩
        · exact fun hx'' => hx' (List.mem_cons_of_mem _ hx'')
    · exact absurd List.mem_cons_self hx

private theorem Drains.keepsOne (h : Drains keep l t rest) (hl : l.Nodup) (ht : Clean t) : KeepsOne keep l.length := by
  induction h with
  | nil => exact .inl fun i hi => absurd hi (Nat.not_lt_zero i)
  | last keep x =>
    rw [List.length_singleton, keepsOne_succ]
    cases hk : keep 0
    · exact .inl ⟨rfl, .inl fun i hi => absurd hi (Nat.not_lt_zero i)⟩
    · exact .inr ⟨fun i hi => absurd hi (Nat.not_lt_zero i), hk⟩
  | @put keep x y l t rest hk h =>
    rw [List.length_cons, keepsOne_succ]
    exact .inr ((Drains.put hk h).alternates hl (ht x List.mem_cons_self) ht)
  | done hk _ ih =>
    rw [List.length_cons, keepsOne_succ]
    exact .inl ⟨hk, ih (List.nodup_cons.1 hl).2 ht.tail⟩

private theorem exists_drains_of_alternates {x : α} (h : Alternates keep l.length) :
    ∃ t, Drains keep (x :: l) t [x] ∧ ∀ p ∈ t, if p.2 then p.1 = x else p.1 ∈ l := by
  induction l generalizing keep with
  | nil =>
    have hk : keep 0 = true := h.2
    refine ⟨_, by simpa [hk] using Drains.last keep x, ?_⟩
    simp
  | cons y l ih =>
    obtain ⟨hk, hk', h⟩ := alternates_succ.1 h
    obtain ⟨t, ht, hmem⟩ := ih h
    refine ⟨(x, true) :: (y, false) :: t, .put hk (.done hk' ht), ?_⟩
    simp only [List.forall_mem_cons]
    refine ⟨by simp, by simp, fun p hp => ?_⟩
    have := hmem p hp
    cases hb : p.2 with
    | true => simpa [hb] using this
    | false => simpa [hb] using Or.inr (by simpa [hb] using this)

private theorem exists_drains_of_keepsOne (hl : l.Nodup) (h : KeepsOne keep l.length) :
    ∃ t rest, Drains keep l t rest ∧ Clean t := by
  induction l generalizing keep with
  | nil => exact ⟨[], [], .nil keep, fun x hx => by cases hx⟩
  | cons x l ih =>
    have hx := (List.nodup_cons.1 hl).1
    rcases keepsOne_succ.1 h with ⟨hk, h⟩ | h
    · rcases l with _ | ⟨y, l⟩
      · exact ⟨_, _, .last keep x, by simp [Clean, hk]⟩
      · obtain ⟨t, rest, ht, hclean⟩ := ih (List.nodup_cons.1 hl).2 h
        refine ⟨_, _, .done (x := x) hk ht, ?_⟩
        intro z hz hz'
        rcases List.mem_cons.1 hz with hz | hz
        · cases hz
        rcases List.mem_cons.1 hz' with hz' | hz'
        · cases hz'
          exact hx (ht.mem hz)
        · exact hclean z hz hz'
    · obtain ⟨t, ht, hmem⟩ := exists_drains_of_alternates (x := x) h
      refine ⟨t, [x], ht, fun z hz hz' => ?_⟩
      have h1 : z = x := by simpa using hmem _ hz
      have h2 : z ∈ l := by simpa using hmem _ hz'
      exact hx (h1 ▸ h2)

theorem exists_drains_iff (hl : l.Nodup) :
    (∃ t rest, Drains keep l t rest ∧ Clean t) ↔ KeepsOne keep l.length :=
  ⟨fun ⟨_, _, h, ht⟩ => h.keepsOne hl ht, exists_drains_of_keepsOne hl⟩

end GemFI.Drain
