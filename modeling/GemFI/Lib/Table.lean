import Mathlib.Algebra.Order.BigOperators.Group.List
import Mathlib.Algebra.Order.Ring.Nat
import Mathlib.Data.List.AList
import Mathlib.Logic.Function.Basic

/-!
# Tables

A table holds one entry for each key.  The loop over a table updates the places that its keys have in a store, and as
different keys have different places, each place is updated by its own entry only (`Table.foldl_entries`).  `keySum f
m` adds up `f` over the values of a table; `keySum_insert` says what an insertion does to it, without subtraction.
-/

namespace GemFI.Table

variable {κ φ π β : Type} [DecidableEq π]

/-- The update of one entry: the value at the place of its key, if it has one. -/
def applyEntry (place : κ → Option π) (g : φ → β → β) (store : π → β) (e : Sigma fun _ : κ => φ) : π → β :=
  match place e.1 with
  | none => store
  | some x => Function.update store x (g e.2 (store x))

variable {place : κ → Option π} {g : φ → β → β} {store : π → β} {x : π}

theorem applyEntry_of_ne {e : Sigma fun _ : κ => φ} (h : place e.1 ≠ some x) : applyEntry place g store e x = store x := by
  cases hy : place e.1 with
  | none => simp [applyEntry, hy]
  | some y =>
    have hne : x ≠ y := fun heq => h (by rw [hy, heq])
    simp [applyEntry, hy, Function.update_of_ne hne]

theorem foldl_applyEntry_of_forall_ne {l : List (Sigma fun _ : κ => φ)} (h : ∀ e ∈ l, place e.1 ≠ some x) :
    l.foldl (applyEntry place g) store x = store x := by
  induction l generalizing store with
  | nil => rfl
  | cons e l ih =>
    rw [List.foldl_cons, ih fun e he => h e (List.mem_cons_of_mem _ he)]
    exact applyEntry_of_ne (h e List.mem_cons_self)

theorem foldl_applyEntry_of_mem (hinj : ∀ k k', place k = some x → place k' = some x → k = k')
    {l : List (Sigma fun _ : κ => φ)} (hl : l.NodupKeys) {k : κ} {f : φ} (hmem : ⟨k, f⟩ ∈ l)
    (hplace : place k = some x) : l.foldl (applyEntry place g) store x = g f (store x) := by
  induction l generalizing store with
  | nil => simp at hmem
  | cons e l ih =>
    rw [List.foldl_cons]
    obtain ⟨hnot, hl'⟩ := List.nodupKeys_cons.1 hl
    rcases List.mem_cons.1 hmem with heq | hmem
    · subst heq
      have hothers : ∀ e ∈ l, place e.1 ≠ some x := by
        intro e' he' hx
        have hkey := hinj _ _ hplace hx
        have hin : e'.1 ∈ l.keys := List.mem_map_of_mem he'
        rw [← hkey] at hin
        exact hnot hin
      rw [foldl_applyEntry_of_forall_ne hothers]
      simp [applyEntry, hplace]
    · have hne : place e.1 ≠ some x := by
        intro hx
        have hkey := hinj _ _ hx hplace
        have hin : k ∈ l.keys := List.mem_map_of_mem hmem
        rw [← hkey] at hin
        exact hnot hin
      rw [ih hl' hmem, applyEntry_of_ne hne]

theorem foldl_entries [DecidableEq κ] (t : AList fun _ : κ => φ)
    (hinj : ∀ k k', place k = some x → place k' = some x → k = k')
    {k : κ} (hplace : place k = some x) :
    t.entries.foldl (applyEntry place g) store x = (t.lookup k).elim (store x) fun f => g f (store x) := by
  cases hf : t.lookup k with
  | some f => exact foldl_applyEntry_of_mem hinj t.nodupKeys (AList.mem_lookup_iff.1 hf) hplace
  | none =>
    refine foldl_applyEntry_of_forall_ne fun e he hx => ?_
    have hkey := hinj _ _ hx hplace
    subst hkey
    have hsome : t.lookup e.1 = some e.2 := AList.mem_lookup_iff.2 he
    rw [hf] at hsome
    exact absurd hsome (by simp)

end GemFI.Table

/-! ### Sums over the values -/

namespace GemFI

variable {κ β : Type} [DecidableEq κ] (f : β → Nat)

def keySum (m : AList fun _ : κ => β) : Nat := (m.entries.map fun x => f x.2).sum

private theorem sum_kerase (k : κ) (l : List (Σ _ : κ, β)) :
    ((l.kerase k).map fun x => f x.2).sum + ((l.dlookup k).map f).getD 0 = (l.map fun x => f x.2).sum := by
  induction l with
  | nil => rfl
  | cons x l ih =>
    obtain ⟨k', v⟩ := x
    by_cases h : k = k'
    · subst h
      simp [List.kerase_cons_eq, Nat.add_comm]
    · rw [List.kerase_cons_ne h, List.dlookup_cons_ne _ _ h]
      simp only [List.map_cons, List.sum_cons]
      omega

theorem keySum_insert (m : AList fun _ : κ => β) (k : κ) (v : β) :
    keySum f (m.insert k v) + ((m.lookup k).map f).getD 0 = keySum f m + f v := by
  have h := sum_kerase f k m.entries
  simp only [keySum, AList.entries_insert, List.map_cons, List.sum_cons, AList.lookup] at h ⊢
  omega

variable {f}

theorem keySum_le {m : AList fun _ : κ => β} {n : Nat} (h : ∀ k v, m.lookup k = some v → f v ≤ n) :
    keySum f m ≤ m.keys.length * n := by
  have key : ∀ y ∈ m.entries.map fun x => f x.2, y ≤ n := by
    intro y hy
    obtain ⟨x, hx, rfl⟩ := List.mem_map.1 hy
    exact h x.1 x.2 (AList.mem_lookup_iff.2 hx)
  simpa [keySum, AList.keys, List.keys] using List.sum_le_card_nsmul _ n key

end GemFI
