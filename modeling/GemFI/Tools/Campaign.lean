import GemFI.Tools.RunOne
import Mathlib.Algebra.Order.Field.Rat
import Mathlib.Data.List.AList

/-!
# The statistics of a campaign cell

For each cell the campaign counts the classes of its runs, and the classes of the read trace.  The table of the
classes grows with every label it meets, but the number of valid runs is summed over the six classes that it started
with; so a run with another label is counted in the total and nowhere else (`conserved_iff`).  The table of the read
trace does not grow; a run that hangs after a read is not counted in it (`reads_gt0_iff`).  From the results of the
runners to the row of the cell: `row_of_results`.

The numbers are those before they are rounded for the table of results; the bounds of the confidence intervals and the
name of the first run are left out.
-/

namespace GemFI.Tools

abbrev Dict := AList fun _ : String => Nat

namespace Dict

def get (d : Dict) (c : String) : Nat := (d.lookup c).getD 0

def bump (d : Dict) (c : String) : Dict := d.insert c (d.get c + 1)

def zeros (keys : List String) : Dict := keys.foldr (fun c d => d.insert c 0) ∅

theorem get_bump (d : Dict) (c k : String) : (d.bump k).get c = d.get c + if k = c then 1 else 0 := by
  unfold bump get
  by_cases h : k = c
  · rw [← h, AList.lookup_insert, Option.getD_some, if_pos rfl]
  · rw [AList.lookup_insert_ne (Ne.symm h), if_neg h]
    rfl

theorem get_zeros (keys : List String) (c : String) : (zeros keys).get c = 0 := by
  unfold get zeros
  induction keys with
  | nil => rfl
  | cons k keys ih =>
    rw [List.foldr_cons]
    by_cases h : c = k
    · rw [h, AList.lookup_insert]
      rfl
    · rw [AList.lookup_insert_ne h]
      exact ih

theorem mem_zeros {keys : List String} {c : String} : c ∈ zeros keys ↔ c ∈ keys := by
  unfold zeros
  induction keys with
  | nil => simp
  | cons k keys ih => rw [List.foldr_cons, AList.mem_insert, ih, List.mem_cons]

theorem mem_bump {d : Dict} {c k : String} : c ∈ d.bump k ↔ c = k ∨ c ∈ d := AList.mem_insert _

end Dict

def CLASSES : List String := ["SimulatorError", "Hang", "Crash", "Inactive", "Masked", "SDC"]

def RT4_CLASSES : List String := ["Benign", "Masked", "SDC", "Crash"]

structure Tally where
  counts : Dict := .zeros CLASSES
  rt4_counts : Dict := .zeros RT4_CLASSES
  reads_list : List Int := []

namespace Tally

def step (t : Tally) (r : RunOne) : Tally where
  counts := t.counts.bump r.cls
  rt4_counts := if r.rt4 ∈ t.rt4_counts then t.rt4_counts.bump r.rt4 else t.rt4_counts
  reads_list := if 0 ≤ r.reads then t.reads_list ++ [r.reads] else t.reads_list

def ofRuns (runs : List RunOne) : Tally := runs.foldl step {}

def n_valid (t : Tally) : Nat :=
  ((CLASSES.filter fun c => c ∉ ["Inactive", "SimulatorError"]).map t.counts.get).sum

end Tally

def wilsonPoint (k n : Nat) : ℚ := if n = 0 then 0 else k / n

structure Row where
  n_total : Nat
  n_valid : Nat
  SDC : Nat
  Crash : Nat
  Hang : Nat
  Inactive : Nat
  Masked : Nat
  SimulatorError : Nat
  P_SDC : ℚ
  P_DUE : ℚ
  P_escape : ℚ
  Reachability : ℚ
  RT_Benign : Nat
  RT_Masked : Nat
  RT_SDC : Nat
  RT_Crash : Nat
  P_SDC_given_reads_gt0 : Option ℚ
  reads_median : Option Int
  deriving DecidableEq, Repr

def rowOf (runs : List RunOne) : Row :=
  let t := Tally.ofRuns runs
  let n_total := runs.length
  let c := t.counts.get
  let rt := t.rt4_counts.get
  { n_total := n_total, n_valid := t.n_valid, SDC := c "SDC", Crash := c "Crash", Hang := c "Hang"
    Inactive := c "Inactive", Masked := c "Masked", SimulatorError := c "SimulatorError"
    P_SDC := wilsonPoint (c "SDC") t.n_valid
    P_DUE := wilsonPoint (c "Crash" + c "Hang") t.n_valid
    P_escape := if t.n_valid = 0 then 0 else c "SDC" / t.n_valid
    Reachability := if 0 < n_total - c "SimulatorError" then t.n_valid / (n_total - c "SimulatorError" : Nat) else 0
    RT_Benign := rt "Benign", RT_Masked := rt "Masked", RT_SDC := rt "SDC", RT_Crash := rt "Crash"
    P_SDC_given_reads_gt0 :=
      if 0 < rt "SDC" + rt "Crash" + rt "Masked" then some (rt "SDC" / (rt "SDC" + rt "Crash" + rt "Masked" : Nat))
      else none
    reads_median := (t.reads_list.mergeSort (· ≤ ·))[t.reads_list.length / 2]? }

/-! ### The tables count the runs -/

namespace Tally

variable (runs : List RunOne)

theorem foldl_counts (t : Tally) (c : String) :
    (runs.foldl step t).counts.get c = t.counts.get c + runs.countP fun r => r.cls = c := by
  induction runs generalizing t with
  | nil => rfl
  | cons r runs ih =>
    rw [List.foldl_cons, ih, List.countP_cons, step, Dict.get_bump]
    simp only [decide_eq_true_eq]
    omega

theorem counts_get (c : String) : (ofRuns runs).counts.get c = runs.countP fun r => r.cls = c := by
  rw [ofRuns, foldl_counts, Dict.get_zeros, Nat.zero_add]

theorem foldl_rt4_counts (t : Tally) (hkeys : ∀ k, k ∈ t.rt4_counts ↔ k ∈ RT4_CLASSES) {c : String}
    (hc : c ∈ RT4_CLASSES) :
    (runs.foldl step t).rt4_counts.get c = t.rt4_counts.get c + runs.countP fun r => r.rt4 = c := by
  induction runs generalizing t with
  | nil => rfl
  | cons r runs ih =>
    have hstep : (step t r).rt4_counts.get c = t.rt4_counts.get c + (if r.rt4 = c then 1 else 0) ∧
        ∀ k, k ∈ (step t r).rt4_counts ↔ k ∈ RT4_CLASSES := by
      unfold step
      dsimp only
      by_cases hmem : r.rt4 ∈ t.rt4_counts
      · rw [if_pos hmem, Dict.get_bump]
        refine ⟨rfl, fun k => ?_⟩
        rw [Dict.mem_bump, hkeys]
        refine or_iff_right_of_imp ?_
        rintro rfl
        exact (hkeys _).1 hmem
      · -- a label that is not in the table is not the one that is counted
        have hne : r.rt4 ≠ c := by
          rintro rfl
          exact hmem ((hkeys _).2 hc)
        rw [if_neg hmem, if_neg hne]
        exact ⟨rfl, hkeys⟩
    rw [List.foldl_cons, ih _ hstep.2, hstep.1, List.countP_cons]
    simp only [decide_eq_true_eq]
    omega

theorem rt4_counts_get {c : String} (hc : c ∈ RT4_CLASSES) :
    (ofRuns runs).rt4_counts.get c = runs.countP fun r => r.rt4 = c := by
  rw [ofRuns, foldl_rt4_counts runs {} (fun k => Dict.mem_zeros) hc, Dict.get_zeros, Nat.zero_add]

theorem sum_countP (keys : List String) (h : keys.Nodup) (runs : List RunOne) :
    (keys.map fun c => runs.countP fun r => r.cls = c).sum = runs.countP fun r => r.cls ∈ keys := by
  induction keys with
  | nil => simp
  | cons k keys ih =>
    obtain ⟨hk, hkeys⟩ := List.nodup_cons.1 h
    rw [List.map_cons, List.sum_cons, ih hkeys]
    clear ih h
    induction runs with
    | nil => rfl
    | cons r runs ih =>
      simp only [List.countP_cons, decide_eq_true_eq, List.mem_cons] at ih ⊢
      by_cases hr : r.cls = k
      · have hnot : r.cls ∉ keys := hr ▸ hk
        simp only [hr, true_or, if_true] at hnot ⊢
        rw [if_neg hnot]
        omega
      · simp only [hr, false_or, if_false]
        omega

theorem n_valid_eq : (ofRuns runs).n_valid = runs.countP fun r => r.cls ∈ ["Hang", "Crash", "Masked", "SDC"] := by
  have hkeys : (CLASSES.filter fun c => c ∉ ["Inactive", "SimulatorError"]) = ["Hang", "Crash", "Masked", "SDC"] := by
    simp [CLASSES]
  have hget : (ofRuns runs).counts.get = fun c => runs.countP fun r => r.cls = c := funext fun c => counts_get runs c
  rw [n_valid, hkeys, hget]
  exact sum_countP _ (by simp) runs

theorem total_eq :
    (ofRuns runs).n_valid + (ofRuns runs).counts.get "Inactive" + (ofRuns runs).counts.get "SimulatorError" =
      runs.countP fun r => r.cls ∈ CLASSES := by
  have hsum := sum_countP CLASSES (by simp [CLASSES]) runs
  have hvalid := sum_countP ["Hang", "Crash", "Masked", "SDC"] (by simp) runs
  rw [n_valid_eq, counts_get, counts_get, ← hsum, ← hvalid]
  simp only [CLASSES, List.map_cons, List.map_nil, List.sum_cons, List.sum_nil]
  omega

end Tally

def RunOne.landed (r : RunOne) : Bool := r.cls ∉ ["Inactive", "SimulatorError", "Unknown"]

/-- No run is lost, and the estimate is the share of the silent data corruptions among the runs with a fault, just if the
runs have only labels of the six classes. -/
theorem conserved_iff (runs : List RunOne) :
    ((rowOf runs).n_valid + (rowOf runs).Inactive + (rowOf runs).SimulatorError = (rowOf runs).n_total ∧
      (rowOf runs).P_SDC = (runs.countP fun r => r.cls = "SDC" : ℕ) / (runs.countP RunOne.landed : ℕ)) ↔
    ∀ r ∈ runs, r.cls ∈ CLASSES := by
  have htotal : (rowOf runs).n_valid + (rowOf runs).Inactive + (rowOf runs).SimulatorError =
      runs.countP fun r => r.cls ∈ CLASSES := Tally.total_eq runs
  have hall : (runs.countP fun r => r.cls ∈ CLASSES) = runs.length ↔ ∀ r ∈ runs, r.cls ∈ CLASSES := by
    rw [List.countP_eq_length]
    simp only [decide_eq_true_eq]
  rw [htotal, show (rowOf runs).n_total = runs.length from rfl, hall]
  refine and_iff_left_of_imp fun hclasses => ?_
  have hlanded : runs.countP RunOne.landed = (Tally.ofRuns runs).n_valid := by
    rw [Tally.n_valid_eq]
    refine List.countP_congr fun r hr => ?_
    have hclass := hclasses r hr
    simp only [CLASSES, List.mem_cons, List.not_mem_nil, or_false] at hclass
    rcases hclass with h | h | h | h | h | h <;> simp [RunOne.landed, h]
  have hrow : (rowOf runs).P_SDC = wilsonPoint ((Tally.ofRuns runs).counts.get "SDC") (Tally.ofRuns runs).n_valid := rfl
  rw [hrow, Tally.counts_get, hlanded, wilsonPoint]
  split
  · rename_i hzero
    rw [hzero]
    simp
  · rfl

/-- A run that ends in a silent data corruption, and one in which the fault is corrected. -/
theorem corrected_not_conserved :
    let runs : List RunOne := [{ cls := "SDC" }, { cls := "Corrected" }]
    (rowOf runs).n_total = 2 ∧ (rowOf runs).n_valid + (rowOf runs).Inactive + (rowOf runs).SimulatorError = 1 ∧
    (rowOf runs).P_SDC = 1 ∧ runs.countP RunOne.landed = 2 := by
  decide +kernel

/-- From what the runners find to the row of the campaign: each class has the runs that the runners put there, and those
whose fault is contained, corrected or latent are in the total only. -/
theorem row_of_results (rs : List (RunnerResult × RunnerOutput)) :
    let row := rowOf (rs.map fun p => run_one (p.2.stdout p.1) p.2.stderr)
    let found := (rs.map fun p => p.1.cls).count
    row.SDC = found .SDC ∧ row.Crash = found .Crash ∧ row.Hang = found .Hang ∧ row.Masked = found .Masked ∧
    row.Inactive = found .Inactive ∧ row.SimulatorError = found .SimulatorError ∧
    row.n_valid = found .SDC + found .Crash + found .Hang + found .Masked ∧
    row.n_total = row.n_valid + row.Inactive + row.SimulatorError +
      found .DetectedContained + found .Corrected + found .Latent := by
  intro row found
  have hname : ∀ c d : Category, c.name = d.name ↔ c = d := by
    intro c d
    cases c <;> cases d <;> decide
  have hget : ∀ c : Category, (Tally.ofRuns (rs.map fun p => run_one (p.2.stdout p.1) p.2.stderr)).counts.get c.name =
      found c := by
    intro c
    rw [Tally.counts_get, List.countP_map]
    show _ = (rs.map fun p => p.1.cls).count c
    rw [List.count_eq_countP, List.countP_map]
    refine List.countP_congr fun p _ => ?_
    simp [run_one_result, hname]
  have hvalid : row.n_valid = found .SDC + found .Crash + found .Hang + found .Masked := by
    have hkeys : (CLASSES.filter fun c => c ∉ ["Inactive", "SimulatorError"]) =
        [Category.Hang, .Crash, .Masked, .SDC].map Category.name := by simp [CLASSES, Category.name]
    show Tally.n_valid _ = _
    rw [Tally.n_valid, hkeys]
    simp only [List.map_cons, List.map_nil, hget, List.sum_cons, List.sum_nil]
    omega
  have hall : ∀ l : List Category, l.length = l.count .SDC + l.count .Crash + l.count .Hang + l.count .Masked +
      l.count .Inactive + l.count .SimulatorError + l.count .DetectedContained + l.count .Corrected + l.count .Latent := by
    intro l
    induction l with
    | nil => rfl
    | cons c l ih =>
      rw [List.length_cons, ih]
      cases c <;> simp <;> omega
  have htotal : row.n_total = _ := (List.length_map _).trans ((List.length_map _).symm.trans (hall (rs.map fun p => p.1.cls)))
  have hinactive : row.Inactive = found .Inactive := hget .Inactive
  have herror : row.SimulatorError = found .SimulatorError := hget .SimulatorError
  refine ⟨hget .SDC, hget .Crash, hget .Hang, hget .Masked, hinactive, herror, hvalid, ?_⟩
  rw [htotal, hvalid, hinactive, herror]

/-! ### The read trace -/

def readRuns (runs : List RunOne) (classes : List String) : Nat :=
  runs.countP fun r => 0 < r.reads ∧ r.cls ∈ classes

/-- The share of the silent data corruptions among the runs in which the fault was read and whose class is an outcome of
the fault. -/
def sdcShare (runs : List RunOne) : Option ℚ :=
  if 0 < readRuns runs ["SDC", "Crash", "Hang", "Masked", "Latent"] then
    some (readRuns runs ["SDC"] / readRuns runs ["SDC", "Crash", "Hang", "Masked", "Latent"])
  else none

theorem rt4_eq_iff {r : RunOne} :
    (r.rt4 = "SDC" ↔ 0 < r.reads ∧ r.cls ∈ ["SDC"]) ∧ (r.rt4 = "Crash" ↔ 0 < r.reads ∧ r.cls ∈ ["Crash"]) ∧
    (r.rt4 = "Masked" ↔ 0 < r.reads ∧ r.cls ∈ ["Masked", "Latent"]) := by
  unfold RunOne.rt4
  by_cases hneg : r.reads < 0
  · have hnot : ¬0 < r.reads := by omega
    simp [hneg, hnot]
  · by_cases hzero : r.reads = 0
    · simp [hzero]
    · have hpos : 0 < r.reads := by omega
      rw [if_neg hneg, if_neg hzero]
      simp only [hpos, true_and]
      by_cases hsame : r.cls ∈ ["SDC", "Crash", "Hang", "SimulatorError"]
      · rw [if_pos hsame]
        simp only [List.mem_cons, List.not_mem_nil, or_false] at hsame
        rcases hsame with h | h | h | h <;> simp [h]
      · rw [if_neg hsame]
        simp only [List.mem_cons, List.not_mem_nil, or_false, not_or] at hsame
        by_cases hmasked : r.cls ∈ ["Masked", "Latent"]
        · rw [if_pos hmasked]
          simp only [List.mem_cons, List.not_mem_nil, or_false] at hmasked
          rcases hmasked with h | h <;> simp [h]
        · rw [if_neg hmasked]
          simp only [List.mem_cons, List.not_mem_nil, or_false, not_or] at hmasked
          simp [hsame, hmasked]

theorem rt4_counts_reads (runs : List RunOne) :
    (Tally.ofRuns runs).rt4_counts.get "SDC" = readRuns runs ["SDC"] ∧
    (Tally.ofRuns runs).rt4_counts.get "Crash" = readRuns runs ["Crash"] ∧
    (Tally.ofRuns runs).rt4_counts.get "Masked" = readRuns runs ["Masked", "Latent"] := by
  have hcount : ∀ {c : String} {classes : List String}, c ∈ RT4_CLASSES →
      (∀ r : RunOne, r.rt4 = c ↔ 0 < r.reads ∧ r.cls ∈ classes) →
      (Tally.ofRuns runs).rt4_counts.get c = readRuns runs classes := by
    intro c classes hc hiff
    rw [Tally.rt4_counts_get runs hc, readRuns]
    refine List.countP_congr fun r _ => ?_
    simp only [decide_eq_true_eq]
    exact hiff r
  exact ⟨hcount (by simp [RT4_CLASSES]) fun _ => rt4_eq_iff.1, hcount (by simp [RT4_CLASSES]) fun _ => rt4_eq_iff.2.1,
    hcount (by simp [RT4_CLASSES]) fun _ => rt4_eq_iff.2.2⟩

theorem readRuns_append (runs : List RunOne) {classes classes' : List String} (h : classes.Disjoint classes') :
    readRuns runs (classes ++ classes') = readRuns runs classes + readRuns runs classes' := by
  unfold readRuns
  induction runs with
  | nil => rfl
  | cons r runs ih =>
    simp only [List.countP_cons, List.mem_append, decide_eq_true_eq] at ih ⊢
    by_cases hl : r.cls ∈ classes
    · have hr : r.cls ∉ classes' := fun hr => h hl hr
      simp only [hl, hr, true_or, and_true, and_false, if_false]
      omega
    · simp only [hl, false_or, and_false, if_false]
      omega

theorem share_eq_iff (s d h : Nat) :
    ((if 0 < d then some ((s : ℚ) / d) else none) = if 0 < d + h then some ((s : ℚ) / (d + h : ℕ)) else none) ↔
      h = 0 ∨ (0 < d ∧ s = 0) := by
  by_cases hd : 0 < d
  · rw [if_pos hd, if_pos (by omega), Option.some_inj]
    have hd' : (d : ℚ) ≠ 0 := by exact_mod_cast hd.ne'
    have hsum : ((d + h : ℕ) : ℚ) ≠ 0 := by exact_mod_cast (by omega : d + h ≠ 0)
    rw [div_eq_div_iff hd' hsum]
    norm_cast
    constructor
    · intro heq
      rw [Nat.mul_add] at heq
      have hzero : s * h = 0 := by omega
      rcases Nat.mul_eq_zero.1 hzero with h0 | h0
      · exact .inr ⟨hd, h0⟩
      · exact .inl h0
    · rintro (h0 | ⟨-, h0⟩)
      · rw [h0, Nat.add_zero]
      · rw [h0, Nat.zero_mul, Nat.zero_mul]
  · rw [if_neg hd]
    by_cases hh : 0 < d + h
    · rw [if_pos hh]
      simp only [reduceCtorEq, false_iff, not_or, not_and]
      exact ⟨by omega, fun h' => absurd h' hd⟩
    · rw [if_neg hh]
      simp only [true_iff]
      exact .inl (by omega)

/-- The estimate of the row is this share just if no run hangs after a read, or if it is 0 in any case. -/
theorem reads_gt0_iff (runs : List RunOne) :
    (rowOf runs).P_SDC_given_reads_gt0 = sdcShare runs ↔
      readRuns runs ["Hang"] = 0 ∨ (0 < readRuns runs ["SDC", "Crash", "Masked", "Latent"] ∧ readRuns runs ["SDC"] = 0) := by
  obtain ⟨hsdc, hcrash, hmasked⟩ := rt4_counts_reads runs
  have hpart : readRuns runs ["SDC", "Crash", "Masked", "Latent"] =
      readRuns runs ["SDC"] + readRuns runs ["Crash"] + readRuns runs ["Masked", "Latent"] := by
    rw [← readRuns_append runs (by simp), ← readRuns_append runs (by simp)]
    rfl
  have hall : readRuns runs ["SDC", "Crash", "Hang", "Masked", "Latent"] =
      readRuns runs ["SDC", "Crash", "Masked", "Latent"] + readRuns runs ["Hang"] := by
    rw [← readRuns_append runs (by simp)]
    refine List.countP_congr fun r _ => ?_
    simp only [List.mem_append, List.mem_cons, List.not_mem_nil, or_false, decide_eq_true_eq]
    tauto
  rw [← share_eq_iff, sdcShare, hall, hpart]
  unfold rowOf
  dsimp only
  rw [hsdc, hcrash, hmasked]

/-- A run that ends in a silent data corruption, and one that hangs, both after a read. -/
theorem hang_not_counted :
    let runs : List RunOne := [{ cls := "SDC", reads := 1 }, { cls := "Hang", reads := 1 }]
    (rowOf runs).P_SDC_given_reads_gt0 = some 1 ∧ sdcShare runs = some (1 / 2) := by
  decide +kernel

end GemFI.Tools
