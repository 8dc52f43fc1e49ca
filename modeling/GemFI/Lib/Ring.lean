import Mathlib.Data.List.GetD
import Mathlib.Logic.Function.Basic

/-!
# Ring buffers

A ring has a fixed number of slots and a cursor; writing changes the slot at the cursor and moves it on, so the slots are
used again in turn.  `back depth` is the slot that was written `depth` writes before the last one; `Holds` says which
values the slots have.
-/

namespace GemFI

structure Ring (α : Type) (cap : Nat) where
  slot : Nat → α
  next : Nat := 0

namespace Ring

variable {α : Type} {cap : Nat}

def write (r : Ring α cap) (f : α → α) : Ring α cap :=
  ⟨Function.update r.slot r.next (f (r.slot r.next)), (r.next + 1) % cap⟩

def back (r : Ring α cap) (depth : Int) : Nat := (((r.next : Int) - 1 - depth + cap) % cap).toNat

variable (r : Ring α cap)

theorem slot_write (f : α → α) (i : Nat) : (r.write f).slot i = if i = r.next then f (r.slot i) else r.slot i := by
  by_cases hi : i = r.next
  · rw [if_pos hi, hi]
    exact Function.update_self ..
  · rw [if_neg hi]
    exact Function.update_of_ne hi ..

theorem next_write_lt (f : α → α) (hcap : 0 < cap) : (r.write f).next < cap := Nat.mod_lt _ hcap

theorem back_lt (hcap : 0 < cap) (depth : Int) : r.back depth < cap := by
  have hnonneg := Int.emod_nonneg ((r.next : Int) - 1 - depth + cap) (by omega : (cap : Int) ≠ 0)
  have hlt := Int.emod_lt_of_pos ((r.next : Int) - 1 - depth + cap) (by omega : (0 : Int) < cap)
  unfold back
  omega

theorem back_write_succ (f : α → α) (depth : Int) : (r.write f).back (depth + 1) = r.back depth := by
  have hsame : (((r.next + 1) % cap : Nat) : Int) - 1 - (depth + 1) + cap =
      ((r.next : Int) + 1) % cap + (cap - depth - 2) := by
    rw [Int.natCast_emod, Int.natCast_add, Int.cast_ofNat_Int]
    omega
  have hmod : ((((r.next + 1) % cap : Nat) : Int) - 1 - (depth + 1) + cap) % cap =
      ((r.next : Int) - 1 - depth + cap) % cap := by
    rw [hsame, Int.emod_add_emod]
    congr 1
    omega
  exact congrArg Int.toNat hmod

theorem back_write_eq_iff (f : α → α) (hnext : r.next < cap) (depth : Int) :
    (r.write f).back depth = r.next ↔ (cap : Int) ∣ depth := by
  have hback : (r.write f).back depth = ((r.next - depth) % cap : Int).toNat := by
    have h := r.back_write_succ f (depth - 1)
    rw [Int.sub_add_cancel] at h
    rw [h, back, Int.add_emod_right]
    congr 2
    omega
  have hnonneg := Int.emod_nonneg ((r.next : Int) - depth) (by omega : (cap : Int) ≠ 0)
  have hown : (r.next : Int) % cap = r.next := Int.emod_eq_of_lt (by omega) (by omega)
  calc (r.write f).back depth = r.next
      ↔ (r.next - depth) % cap = (r.next : Int) := by rw [hback]; omega
    _ ↔ (r.next - depth) % cap = (r.next : Int) % cap := by rw [hown]
    _ ↔ (cap : Int) ∣ depth := by
      rw [Int.emod_eq_emod_iff_emod_sub_eq_zero, ← Int.dvd_iff_emod_eq_zero,
        show (r.next : Int) - depth - r.next = -depth by omega, Int.dvd_neg]

/-! ### The values in a ring -/

/-- The slots hold the values that have been written, the last one first, and then the value of an unused slot. -/
structure Holds (r : Ring α cap) (blank : α) (values : List α) : Prop where
  next_lt : r.next < cap
  slot_back : ∀ depth < cap, r.slot (r.back depth) = values.getD depth blank

theorem holds_nil (blank : α) (hcap : 0 < cap) : Holds (⟨fun _ => blank, 0⟩ : Ring α cap) blank [] :=
  ⟨hcap, fun _ _ => rfl⟩

theorem Holds.write {r : Ring α cap} {blank : α} {values : List α} (h : r.Holds blank values) (f : α → α) :
    (r.write f).Holds blank (f (r.slot r.next) :: values) := by
  refine ⟨r.next_write_lt f (by have := h.next_lt; omega), fun depth hdepth => ?_⟩
  cases depth with
  | zero =>
    have hback : (r.write f).back ((0 : Nat) : Int) = r.next := (r.back_write_eq_iff f h.next_lt 0).2 (Int.dvd_zero _)
    rw [hback, slot_write, if_pos rfl]
    rfl
  | succ depth =>
    have hne : r.back depth ≠ r.next := by
      rw [← r.back_write_succ f, ne_eq, r.back_write_eq_iff f h.next_lt]
      intro hdvd
      have := Int.le_of_dvd (by omega) hdvd
      omega
    have hback : (r.write f).back ((depth + 1 : Nat) : Int) = r.back depth := r.back_write_succ f depth
    rw [hback, slot_write, if_neg hne, h.slot_back depth (by omega)]
    rfl

theorem Holds.find_slots {r : Ring α cap} {blank : α} {values : List α} (h : r.Holds blank values) {p : α → Bool}
    (hblank : p blank = false) {start : Nat} {a : α}
    (hfind : ((List.range (cap - start)).map fun (j : Nat) => r.slot (r.back ((start : Int) + j))).find? p = some a) :
    (values.drop start).find? p = some a := by
  have hslot : ∀ j < cap - start, r.slot (r.back ((start : Int) + j)) = values.getD (start + j) blank := by
    intro j hj
    have := h.slot_back (start + j) (by omega)
    rwa [Int.natCast_add] at this
  rw [List.find?_eq_some_iff_getElem] at hfind ⊢
  obtain ⟨hpa, i, hi, hai, hbefore⟩ := hfind
  rw [List.length_map, List.length_range] at hi
  rw [List.getElem_map, List.getElem_range, hslot i hi] at hai
  have hlen : start + i < values.length := by
    by_contra hge
    rw [List.getD_eq_default _ _ (by omega)] at hai
    rw [← hai, hblank] at hpa
    cases hpa
  refine ⟨hpa, i, by rw [List.length_drop]; omega, ?_, fun j hj => ?_⟩
  · rw [List.getElem_drop, ← hai, List.getD_eq_getElem _ _ hlen]
  · have hno := hbefore j hj
    rw [List.getElem_map, List.getElem_range, hslot j (by omega), List.getD_eq_getElem _ _ (by omega)] at hno
    rwa [List.getElem_drop]

end Ring

end GemFI
