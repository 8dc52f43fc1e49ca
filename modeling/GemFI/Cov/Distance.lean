import GemFI.Cov.Analyzer
import Mathlib.Data.Nat.Log
import Mathlib.Order.Lattice.Nat

/-!
# The histograms of the distances

The cycles from a load to its first use, and from a write of a register to its first read, are counted over powers of
two.  Both histograms are documented with one scheme.  The loop of `renameDistSample` begins with the bucket 1 and
agrees with it; that of `loadOnUse` begins with the bucket 0, whose bound is `1 << 0`, and so counts the distance 1 as
the distance 0 (`histograms_agree_iff`).
-/

namespace GemFI.Cov

open CHAOSCov

/-- The bucket of the scheme.  The bucket 0 is for the distance 0, the bucket `b` is the one of the power `2 ^ b`, and
the last one is for the distances above `32768`.  The distance 1, for which there is no smaller power, is in the bucket
with the label `c1-2`. -/
def distanceBucket (dist : Nat) : Nat :=
  if dist = 0 then 0 else if dist ≤ 32768 then max 1 (Nat.clog 2 dist) else 16

theorem distanceBucket_lt (dist : Nat) : distanceBucket dist < 17 := by
  unfold distanceBucket
  split
  · omega
  · split
    · rename_i hle
      have hlog : Nat.clog 2 dist ≤ 15 := (Nat.clog_le_iff_le_pow (by omega)).2 hle
      omega
    · omega

/-! ### The loops -/

theorem growBucket_eq {dist fuel b : Nat} (hfuel : Nat.clog 2 dist ≤ b + fuel) :
    growBucket dist fuel b = max b (Nat.clog 2 dist) := by
  induction fuel generalizing b with
  | zero =>
    unfold growBucket
    omega
  | succ fuel ih =>
    unfold growBucket
    by_cases hlt : 2 ^ b < dist
    · have hmore : b < Nat.clog 2 dist := (Nat.lt_clog_iff_pow_lt (by omega)).2 hlt
      rw [if_pos hlt, ih (by omega)]
      omega
    · have hdone : Nat.clog 2 dist ≤ b := (Nat.clog_le_iff_le_pow (by omega)).2 (Nat.le_of_not_lt hlt)
      rw [if_neg hlt]
      omega

theorem renameDistBucket_eq (dist : Nat) : renameDistBucket dist = distanceBucket dist := by
  unfold renameDistBucket distanceBucket
  by_cases hzero : dist = 0
  · rw [if_pos hzero, if_pos hzero]
  · rw [if_neg hzero, if_neg hzero]
    by_cases hle : dist ≤ 32768
    · have hlog : Nat.clog 2 dist ≤ 15 := (Nat.clog_le_iff_le_pow (by omega)).2 hle
      rw [if_neg (by omega), if_pos hle, growBucket_eq (by omega)]
      exact if_neg (by omega)
    · rw [if_pos (by omega), if_neg hle]

theorem loadUseBucket_eq (dist : Nat) : loadUseBucket dist = if dist ≤ 32768 then Nat.clog 2 dist else 16 := by
  unfold loadUseBucket
  by_cases hle : dist ≤ 32768
  · have hlog : Nat.clog 2 dist ≤ 15 := (Nat.clog_le_iff_le_pow (by omega)).2 hle
    have hfind : (List.range 16).find? (fun i => decide (dist ≤ 2 ^ i)) = some (Nat.clog 2 dist) := by
      rw [List.find?_range_eq_some]
      refine ⟨decide_eq_true (Nat.le_pow_clog (by omega) dist), List.mem_range.2 (by omega), fun j hj => ?_⟩
      have hlt : 2 ^ j < dist := (Nat.lt_clog_iff_pow_lt (by omega)).1 hj
      simpa using hlt
    rw [hfind, if_pos hle]
    rfl
  · have hfind : (List.range 16).find? (fun i => decide (dist ≤ 2 ^ i)) = none := by
      rw [List.find?_eq_none]
      intro i hi
      have hpow : 2 ^ i ≤ 2 ^ 15 := Nat.pow_le_pow_right (by omega) (by have := List.mem_range.1 hi; omega)
      simp only [decide_eq_true_eq]
      omega
    rw [hfind, if_neg hle]
    rfl

theorem loadUseBucket_eq_iff (dist : Nat) : loadUseBucket dist = distanceBucket dist ↔ dist ≠ 1 := by
  rw [loadUseBucket_eq, distanceBucket]
  rcases Nat.lt_trichotomy dist 1 with hlt | rfl | hgt
  · obtain rfl : dist = 0 := by omega
    simp
  · simp
  · have hpos : 0 < Nat.clog 2 dist := Nat.clog_pos (by omega) hgt
    refine iff_of_true ?_ (by omega)
    rw [if_neg (by omega : dist ≠ 0)]
    split <;> omega

/-! ### The histograms -/

private theorem modify_succ_inj {hist : List Nat} {i j : Nat} (hi : i < hist.length) :
    hist.modify i (· + 1) = hist.modify j (· + 1) ↔ i = j := by
  refine ⟨fun h => ?_, fun h => by rw [h]⟩
  by_contra hne
  have hget := congrArg (·[i]?) h
  simp [hi, Ne.symm hne] at hget

/-- Histograms with the same counts have the same counts after a load use and a rename distance of `d` cycles, those of
the scheme, exactly if `d` is not 1. -/
theorem histograms_agree_iff {cfg : Config} (s t : CHAOSCov cfg) (q : Slot cfg) (d : Nat) (hroi : s.roi_active = true)
    (hmark : s.lu_state q ≠ 0) (hdist : (s.roi_cycles + 2 ^ 64 - s.lu_state q) % 2 ^ 64 = d)
    (hhist : s.lu_hist = t.rd_hist) (hlen : s.lu_hist.length = 17) :
    ((s.loadOnUse q).lu_hist = (t.renameDistSample d).rd_hist ∧
      (t.renameDistSample d).rd_hist = t.rd_hist.modify (distanceBucket d) (· + 1)) ↔ d ≠ 1 := by
  have hload : (s.loadOnUse q).lu_hist = s.lu_hist.modify (loadUseBucket d) (· + 1) := by
    unfold loadOnUse
    rw [if_neg (by simp [hroi])]
    dsimp only
    rw [if_neg hmark, hdist]
  have hrename : (t.renameDistSample d).rd_hist = t.rd_hist.modify (distanceBucket d) (· + 1) := by
    rw [renameDistSample, renameDistBucket_eq]
  have hbucket : distanceBucket d < t.rd_hist.length := by
    rw [← hhist, hlen]
    exact distanceBucket_lt d
  rw [hload, hrename, hhist, eq_comm, modify_succ_inj hbucket, eq_comm, loadUseBucket_eq_iff]
  exact and_iff_left rfl

/-- In cycle `now`, the value of every register has been loaded in cycle 1. -/
private def loadedInOne (now : Nat) : CHAOSCov tiny :=
  { fresh tiny with roi_active := true, roi_cycles := now, lu_state := fun _ => 1 }

/-- A distance of three cycles. -/
theorem histograms_agree_three :
    ((loadedInOne 4).loadOnUse ⟨.int, 0⟩).lu_hist = ((fresh tiny).renameDistSample 3).rd_hist :=
  ((histograms_agree_iff (loadedInOne 4) (fresh tiny) ⟨.int, 0⟩ 3 rfl (by decide) (by decide) rfl rfl).2 (by decide)).1

/-- A distance of one cycle is counted in the bucket 0 by `loadOnUse`, and in the bucket 1 by `renameDistSample`. -/
theorem distance_one_disagrees :
    ((loadedInOne 2).loadOnUse ⟨.int, 0⟩).lu_hist = 1 :: List.replicate 16 0 ∧
    ((fresh tiny).renameDistSample 1).rd_hist = 0 :: 1 :: List.replicate 15 0 ∧
    distanceBucket 1 = 1 := by
  decide

end GemFI.Cov
