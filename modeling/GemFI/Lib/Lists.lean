import Mathlib.Data.List.Sort

/-!
# Lists

General facts about lists that programs go through: a loop that fails nowhere, a count that stops at an event, a fold that
does not lose a difference; then the dictionary that counts its keys, and the order of two elements after a stable sort.
-/

namespace GemFI

theorem mapM_eq_some {α β : Type} {f : α → Option β} {g : α → β} {l : List α} (h : ∀ a ∈ l, f a = some (g a)) :
    l.mapM f = some (l.map g) := by
  induction l with
  | nil => rfl
  | cons a l ih =>
    rw [List.mapM_cons, h a List.mem_cons_self, ih fun b hb => h b (List.mem_cons_of_mem _ hb)]
    rfl

theorem exists_mapM_eq_some {α β : Type} {f : α → Option β} {P : β → Prop} {l : List α}
    (h : ∀ a ∈ l, ∃ b, f a = some b ∧ P b) : ∃ bs, l.mapM f = some bs ∧ ∀ b ∈ bs, P b := by
  induction l with
  | nil => exact ⟨[], rfl, by simp⟩
  | cons a l ih =>
    rw [List.forall_mem_cons] at h
    obtain ⟨⟨b, hb, hP⟩, hl⟩ := h
    obtain ⟨bs, hbs, hPs⟩ := ih hl
    exact ⟨b :: bs, by rw [List.mapM_cons, hb, hbs]; rfl, List.forall_mem_cons.2 ⟨hP, hPs⟩⟩

theorem countP_takeWhile_concat {α : Type} {stop p : α → Bool} {x : α} (hx : p x = true → stop x = false)
    (l : List α) :
    ((l ++ [x]).takeWhile fun y => !stop y).countP p =
      (l.takeWhile fun y => !stop y).countP p + if p x && !l.any stop then 1 else 0 := by
  induction l with
  | nil =>
    cases hp : p x with
    | true => simp [hp, hx hp]
    | false => cases hstop : stop x <;> simp [hp, hstop]
  | cons y l ih =>
    cases hstop : stop y with
    | true => simp [hstop]
    | false =>
      simp only [List.cons_append, List.takeWhile_cons, hstop, Bool.not_false, ↓reduceIte, List.countP_cons,
        List.any_cons, Bool.false_or, ih]
      omega

theorem foldl_ne_of_eq_off {α β : Type} {f : β → α → β} (hacc : ∀ a, Function.Injective fun b => f b a)
    (hnext : ∀ b, Function.Injective (f b)) {l l' : List α} (hlen : l.length = l'.length) {i : Nat}
    (hi : l[i]? ≠ l'[i]?) (hrest : ∀ j, j ≠ i → l[j]? = l'[j]?) (b : β) : l.foldl f b ≠ l'.foldl f b := by
  have hlt : i < l.length := by
    by_contra hge
    exact hi (by rw [List.getElem?_eq_none (by omega), List.getElem?_eq_none (by omega)])
  have hpre : l.take i = l'.take i := by
    refine List.ext_getElem? fun j => ?_
    by_cases hj : j < i
    · rw [List.getElem?_take_of_lt hj, List.getElem?_take_of_lt hj, hrest j (by omega)]
    · rw [List.getElem?_eq_none (by simp; omega), List.getElem?_eq_none (by simp; omega)]
  have hpost : l.drop (i + 1) = l'.drop (i + 1) := by
    refine List.ext_getElem? fun j => ?_
    rw [List.getElem?_drop, List.getElem?_drop, hrest _ (by omega)]
  have hsplit : ∀ (k : List α) (hk : i < k.length), k = k.take i ++ k[i] :: k.drop (i + 1) := by
    intro k hk
    rw [← List.drop_eq_getElem_cons hk, List.take_append_drop]
  have hfold : ∀ k : List α, Function.Injective fun b => k.foldl f b := by
    intro k
    induction k with
    | nil => exact fun _ _ h => h
    | cons a k ih => exact fun _ _ h => hacc a (ih h)
  intro heq
  rw [hsplit l hlt, hsplit l' (by omega), hpre, hpost, List.foldl_append, List.foldl_append, List.foldl_cons,
    List.foldl_cons] at heq
  have hat : l[i] = l'[i] := hnext _ (hfold _ heq)
  exact hi (by rw [List.getElem?_eq_getElem hlt, List.getElem?_eq_getElem (by omega), hat])

end GemFI

/-!
### Counting keys

A dictionary that is filled by `d[k] = d.get(k, 0) + 1` has the keys in the order in which they first appear, each with
the number of its appearances.
-/

namespace GemFI.Counter

variable {κ : Type} [DecidableEq κ]

def bump (k : κ) : List (κ × Nat) → List (κ × Nat)
  | [] => [(k, 1)]
  | (a, n) :: d => if a = k then (a, n + 1) :: d else (a, n) :: bump k d

def counts (ks : List κ) : List (κ × Nat) := ks.foldl (fun d k => bump k d) []

theorem mem_keys_bump {k a : κ} {d : List (κ × Nat)} : a ∈ (bump k d).map Prod.fst ↔ a = k ∨ a ∈ d.map Prod.fst := by
  induction d with
  | nil => simp [bump]
  | cons e d ih =>
    obtain ⟨b, n⟩ := e
    by_cases h : b = k
    · simp [bump, h]
    · rw [bump, if_neg h, List.map_cons, List.mem_cons, ih, List.map_cons, List.mem_cons]
      exact or_left_comm

theorem mem_keys_foldl {ks : List κ} {a : κ} {d : List (κ × Nat)} :
    a ∈ (ks.foldl (fun d k => bump k d) d).map Prod.fst ↔ a ∈ ks ∨ a ∈ d.map Prod.fst := by
  induction ks generalizing d with
  | nil => simp
  | cons k ks ih =>
    rw [List.foldl_cons, ih, mem_keys_bump, List.mem_cons, or_left_comm, or_assoc]

theorem mem_keys_counts {ks : List κ} {a : κ} : a ∈ (counts ks).map Prod.fst ↔ a ∈ ks := by
  rw [counts, mem_keys_foldl]
  simp

theorem counts_replicate (n : Nat) (k : κ) : counts (List.replicate (n + 1) k) = [(k, n + 1)] := by
  have hrun : ∀ n m, (List.replicate n k).foldl (fun d k => bump k d) [(k, m)] = [(k, m + n)] := by
    intro n
    induction n with
    | zero => intro m; rfl
    | succ n ih =>
      intro m
      rw [List.replicate_succ, List.foldl_cons, bump, if_pos rfl, ih, Nat.add_right_comm, Nat.add_assoc]
  rw [counts, List.replicate_succ, List.foldl_cons, bump, hrun, Nat.add_comm]

end GemFI.Counter

/-!
### The order of two elements after sorting

A stable sort puts `a` somewhere before `b` exactly if `a` may stand before `b`, and stood before it already if `b` may
stand before `a` as well (`pair_sublist_insertionSort_iff`).
-/

namespace GemFI.StableSort

variable {α : Type} {r : α → α → Prop} {a b : α} {l : List α}

theorem pair_sublist_or (ha : a ∈ l) (hb : b ∈ l) (hne : a ≠ b) : [a, b].Sublist l ∨ [b, a].Sublist l := by
  obtain ⟨s, t, rfl⟩ := List.append_of_mem ha
  rcases List.mem_append.1 hb with hs | ht
  · right
    exact (List.singleton_sublist.2 hs).append (List.singleton_sublist.2 List.mem_cons_self)
  · left
    have htail : b ∈ t := (List.mem_cons.1 ht).resolve_left (Ne.symm hne)
    exact ((List.singleton_sublist.2 htail).cons_cons a).trans (List.sublist_append_right s _)

variable [DecidableRel r]

theorem filter_insertionSort {p : α → Bool} (hp : ∀ x y, p x = true → p y = true → r x y) (l : List α) :
    (l.insertionSort r).filter p = l.filter p := by
  have hpair : (l.filter p).Pairwise r := by
    rw [List.pairwise_iff_forall_sublist]
    intro x y hxy
    have hmem := fun z hz => (List.mem_filter.1 (hxy.subset (a := z) hz)).2
    exact hp x y (hmem x (by simp)) (hmem y (by simp))
  have hsub : (l.filter p).Sublist ((l.insertionSort r).filter p) := by
    have hsort := (List.sublist_insertionSort hpair List.filter_sublist).filter p
    simpa only [List.filter_filter, Bool.and_self] using hsort
  exact (hsub.eq_of_length ((List.perm_insertionSort r l).filter p).length_eq.symm).symm

theorem pair_sublist_insertionSort_iff [Std.Total r] [IsTrans α r] (hne : a ≠ b) :
    [a, b].Sublist (l.insertionSort r) ↔ a ∈ l ∧ b ∈ l ∧ r a b ∧ (r b a → [a, b].Sublist l) := by
  have hsorted : ∀ {x y}, [x, y].Sublist (l.insertionSort r) → r x y :=
    List.pairwise_iff_forall_sublist.1 (List.pairwise_insertionSort r l)
  constructor
  · intro h
    have hmem := fun x hx => (List.mem_insertionSort r).1 (h.subset (a := x) hx)
    refine ⟨hmem a (by simp), hmem b (by simp), hsorted h, fun hba => ?_⟩
    -- the pair is among the elements that may stand where `a` stands, and these are not moved
    have hclass := filter_insertionSort (p := fun x => decide (r x a ∧ r a x)) (r := r) (fun x y hx hy => ?_) l
    · have hpair := h.filter fun x => decide (r x a ∧ r a x)
      have haa : r a a := (total_of r a a).elim id id
      rw [hclass, List.filter_cons_of_pos (by simpa using haa),
        List.filter_cons_of_pos (by simpa using ⟨hba, hsorted h⟩), List.filter_nil] at hpair
      exact hpair.trans List.filter_sublist
    · simp only [decide_eq_true_eq] at hx hy
      exact trans_of r hx.1 hy.2
  · rintro ⟨ha, hb, hab, hstable⟩
    by_cases hba : r b a
    · exact List.pair_sublist_insertionSort hab (hstable hba)
    · refine (pair_sublist_or ((List.mem_insertionSort r).2 ha) ((List.mem_insertionSort r).2 hb) hne).resolve_right ?_
      exact fun h => hba (hsorted h)

end GemFI.StableSort
