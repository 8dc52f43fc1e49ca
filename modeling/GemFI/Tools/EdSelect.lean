import GemFI.Lib.Submodular
import Mathlib.Algebra.Order.Field.Rat
import Mathlib.Data.List.AList
import Mathlib.Data.Fintype.Basic

/-!
# The sequence selector ed_select

`greedy_select` picks sequences from a pool one after the other, each time the one whose coverage adds the most to the
weighted coverage of the sequences it has.  A quota on a unit makes the gain of a candidate 0 if the unit to which it
adds the most has been picked that often; the loop ends when no candidate has a positive gain.

Without quotas the objective of the picks is at least `1 - (1 - 1/k)^k` of the best (`greedy_select_approx`).  With
quotas the loop may end early with a candidate that still adds something: it does so exactly where all candidates that
add something are over their quotas (`stops_early_iff`).

Numbers are rational.  The tables of the units are functions, `None` for the quotas is the table without entries, and
the command line is left out.
-/

namespace GemFI.Tools

open SetFunction

inductive EdUnit where
  | IFU | OoO | IEX | LSU | FSU | MMU | L2C
  deriving DecidableEq, Repr

def UNITS : List EdUnit := [.IFU, .OoO, .IEX, .LSU, .FSU, .MMU, .L2C]

theorem nodup_UNITS : UNITS.Nodup := by decide

theorem mem_UNITS (u : EdUnit) : u ∈ UNITS := by cases u <;> decide

instance : Fintype EdUnit := ⟨⟨UNITS, nodup_UNITS⟩, mem_UNITS⟩

abbrev Coverage := EdUnit → ℚ

abbrev Pool (ν : Type) := AList fun _ : ν => Coverage

/-! ### The scan -/

def gains (w_rho cov_selected cov : Coverage) : Coverage := fun u => w_rho u * cov_selected u * cov u

def top_u (gains : Coverage) : EdUnit := UNITS.foldl (fun top u => if gains top < gains u then u else top) .IFU

def total (gains : Coverage) : ℚ := (UNITS.map gains).sum

def quotaReached (quotas : EdUnit → Option Int) (picked_per_unit : EdUnit → Nat) (u : EdUnit) : Bool :=
  (quotas u).any fun q => decide (q ≤ (picked_per_unit u : Int))

structure Best (ν : Type) where
  pick : Option (ν × EdUnit) := none
  gain : ℚ := -1

variable {ν : Type} [DecidableEq ν]

structure Selection (ν : Type) where
  selected : List (ν × EdUnit × ℚ) := []
  cov_selected : Coverage := fun _ => 1
  picked_per_unit : EdUnit → Nat := fun _ => 0
  remaining : Pool ν

namespace Selection

def names (s : Selection ν) : List ν := s.selected.map (·.1)

def trueGain (w_rho : Coverage) (s : Selection ν) (cov : Coverage) : ℚ := total (gains w_rho s.cov_selected cov)

def overQuota (w_rho : Coverage) (quotas : EdUnit → Option Int) (s : Selection ν) (cov : Coverage) : Bool :=
  quotaReached quotas s.picked_per_unit (top_u (gains w_rho s.cov_selected cov))

def softGain (w_rho : Coverage) (quotas : EdUnit → Option Int) (s : Selection ν) (cov : Coverage) : ℚ :=
  if s.overQuota w_rho quotas cov then 0 else s.trueGain w_rho cov

def consider (w_rho : Coverage) (quotas : EdUnit → Option Int) (s : Selection ν) (best : Best ν)
    (c : Σ _ : ν, Coverage) : Best ν :=
  if best.gain < s.softGain w_rho quotas c.2 then
    ⟨some (c.1, top_u (gains w_rho s.cov_selected c.2)), s.softGain w_rho quotas c.2⟩
  else best

def scan (w_rho : Coverage) (quotas : EdUnit → Option Int) (s : Selection ν) : Best ν :=
  s.remaining.entries.foldl (s.consider w_rho quotas) {}

end Selection

/-! ### The loop -/

def covOf (pool : Pool ν) (name : ν) : Coverage := (pool.lookup name).getD fun _ => 0

/-- One round; `none` if no candidate is left or none has a positive gain. -/
def round (pool : Pool ν) (w_rho : Coverage) (quotas : EdUnit → Option Int) (s : Selection ν) : Option (Selection ν) :=
  let best := s.scan w_rho quotas
  match best.pick with
  | none => none
  | some (name, unit) =>
    if best.gain ≤ 0 then none
    else some
      { selected := s.selected ++ [(name, unit, best.gain)]
        cov_selected := fun u => s.cov_selected u * (1 - covOf pool name u)
        picked_per_unit := Function.update s.picked_per_unit unit (s.picked_per_unit unit + 1)
        remaining := s.remaining.erase name }

/-- The loop: a round adds one sequence, so `k` rounds are those with fewer than `k` sequences. -/
def rounds (pool : Pool ν) (w_rho : Coverage) (quotas : EdUnit → Option Int) : Nat → Selection ν → Selection ν
  | 0, s => s
  | n + 1, s =>
    match round pool w_rho quotas s with
    | none => s
    | some s' => rounds pool w_rho quotas n s'

def selection (pool : Pool ν) (k : Nat) (w_rho : Coverage) (quotas : EdUnit → Option Int) : Selection ν :=
  rounds pool w_rho quotas k { remaining := pool }

def greedy_select (pool : Pool ν) (k : Nat) (w_rho : Coverage) (quotas : EdUnit → Option Int) :
    List (ν × EdUnit × ℚ) × Coverage :=
  ((selection pool k w_rho quotas).selected, (selection pool k w_rho quotas).cov_selected)

def objective (pool : Pool ν) (w_rho : Coverage) (T : Finset ν) : ℚ :=
  ∑ u, w_rho u * (1 - ∏ S ∈ T, (1 - covOf pool S u))

/-! ### The scan finds the largest gain -/

theorem total_eq_sum (g : Coverage) : total g = ∑ u, g u := rfl

section Scan

variable (w_rho : Coverage) (quotas : EdUnit → Option Int)

/-- The best of the candidates seen so far; none is the best while no gain is above -1. -/
structure IsBest (s : Selection ν) (seen : List (Σ _ : ν, Coverage)) (best : Best ν) : Prop where
  pick : best = {} ∨
    ∃ c ∈ seen, best = ⟨some (c.1, top_u (gains w_rho s.cov_selected c.2)), s.softGain w_rho quotas c.2⟩
  largest : ∀ c ∈ seen, s.softGain w_rho quotas c.2 ≤ best.gain

omit [DecidableEq ν] in
theorem IsBest.consider {s : Selection ν} {seen : List (Σ _ : ν, Coverage)} {best : Best ν}
    (h : IsBest w_rho quotas s seen best) (c : Σ _ : ν, Coverage) :
    IsBest w_rho quotas s (seen ++ [c]) (s.consider w_rho quotas best c) := by
  unfold Selection.consider
  split
  · rename_i hlt
    refine ⟨.inr ⟨c, by simp, rfl⟩, fun c' hc' => ?_⟩
    rcases List.mem_append.1 hc' with hold | hnew
    · exact (h.largest c' hold).trans hlt.le
    · rw [List.mem_singleton.1 hnew]
  · rename_i hlt
    refine ⟨?_, fun c' hc' => ?_⟩
    · rcases h.pick with hnone | ⟨c', hc', heq⟩
      · exact .inl hnone
      · exact .inr ⟨c', List.mem_append_left _ hc', heq⟩
    · rcases List.mem_append.1 hc' with hold | hnew
      · exact h.largest c' hold
      · rw [List.mem_singleton.1 hnew]
        exact not_lt.1 hlt

omit [DecidableEq ν] in
theorem scan_isBest (s : Selection ν) : IsBest w_rho quotas s s.remaining.entries (s.scan w_rho quotas) := by
  have hfold : ∀ (cs seen : List (Σ _ : ν, Coverage)) (best : Best ν), IsBest w_rho quotas s seen best →
      IsBest w_rho quotas s (seen ++ cs) (cs.foldl (s.consider w_rho quotas) best) := by
    intro cs
    induction cs with
    | nil =>
      intro seen best h
      rwa [List.append_nil]
    | cons c cs ih =>
      intro seen best h
      have hrest := ih (seen ++ [c]) _ (h.consider w_rho quotas c)
      rwa [List.append_assoc] at hrest
  exact hfold _ [] {} ⟨.inl rfl, fun c hc => absurd hc List.not_mem_nil⟩

end Scan

/-! ### Rounds -/

section Rounds

variable {pool : Pool ν} {w_rho : Coverage} {quotas : EdUnit → Option Int}

theorem round_pick {s s' : Selection ν} (h : round pool w_rho quotas s = some s') :
    ∃ c ∈ s.remaining.entries, 0 < s.softGain w_rho quotas c.2 ∧
      (∀ c' ∈ s.remaining.entries, s.softGain w_rho quotas c'.2 ≤ s.softGain w_rho quotas c.2) ∧
      s' =
        { selected := s.selected ++ [(c.1, top_u (gains w_rho s.cov_selected c.2), s.softGain w_rho quotas c.2)]
          cov_selected := fun u => s.cov_selected u * (1 - covOf pool c.1 u)
          picked_per_unit := Function.update s.picked_per_unit (top_u (gains w_rho s.cov_selected c.2))
            (s.picked_per_unit (top_u (gains w_rho s.cov_selected c.2)) + 1)
          remaining := s.remaining.erase c.1 } := by
  obtain ⟨hpick, hlargest⟩ := scan_isBest w_rho quotas s
  rcases hpick with hnone | ⟨c, hc, hbest⟩
  · simp [round, hnone] at h
  · simp only [round, hbest] at h
    split at h
    · cases h
    · rename_i hpos
      cases h
      rw [hbest] at hlargest
      exact ⟨c, hc, not_le.1 hpos, hlargest, rfl⟩

theorem round_eq_some {s s' : Selection ν} (h : round pool w_rho quotas s = some s') :
    ∃ c ∈ s.remaining.entries, 0 < s.softGain w_rho quotas c.2 ∧
      (∀ c' ∈ s.remaining.entries, s.softGain w_rho quotas c'.2 ≤ s.softGain w_rho quotas c.2) ∧
      s'.names = s.names ++ [c.1] ∧ s'.selected.length = s.selected.length + 1 ∧
      s'.cov_selected = (fun u => s.cov_selected u * (1 - covOf pool c.1 u)) ∧
      s'.remaining = s.remaining.erase c.1 := by
  obtain ⟨c, hc, hpos, hlargest, rfl⟩ := round_pick h
  exact ⟨c, hc, hpos, hlargest, by simp [Selection.names], by simp, rfl, rfl⟩

theorem round_eq_none_iff {s : Selection ν} :
    round pool w_rho quotas s = none ↔ ∀ c ∈ s.remaining.entries, s.softGain w_rho quotas c.2 ≤ 0 := by
  obtain ⟨hpick, hlargest⟩ := scan_isBest w_rho quotas s
  constructor
  · intro h c hc
    refine (hlargest c hc).trans ?_
    rcases hpick with hnone | ⟨c, -, hbest⟩
    · rw [hnone]
      norm_num
    · simp only [round, hbest] at h
      split at h
      · rename_i hle
        rwa [hbest]
      · cases h
  · intro h
    rcases hround : round pool w_rho quotas s with _ | s'
    · rfl
    · obtain ⟨c, hc, hpos, -⟩ := round_eq_some hround
      exact absurd (h c hc) (not_le.2 hpos)

variable (pool w_rho quotas)

theorem rounds_invariant {I : Selection ν → Prop} (hstep : ∀ s s', I s → round pool w_rho quotas s = some s' → I s')
    (n : Nat) {s : Selection ν} (h0 : I s) : I (rounds pool w_rho quotas n s) := by
  induction n generalizing s with
  | zero => exact h0
  | succ n ih =>
    unfold rounds
    rcases hround : round pool w_rho quotas s with _ | s'
    · exact h0
    · exact ih (hstep s s' h0 hround)

theorem rounds_end (n : Nat) (s : Selection ν) :
    (rounds pool w_rho quotas n s).selected.length = s.selected.length + n ∨
      (rounds pool w_rho quotas n s).selected.length < s.selected.length + n ∧
        round pool w_rho quotas (rounds pool w_rho quotas n s) = none := by
  induction n generalizing s with
  | zero => exact .inl rfl
  | succ n ih =>
    unfold rounds
    rcases hround : round pool w_rho quotas s with _ | s'
    · exact .inr ⟨by simp, hround⟩
    · obtain ⟨-, -, -, -, -, hlength, -⟩ := round_eq_some hround
      have hrest := ih s'
      rw [hlength] at hrest
      dsimp only
      rwa [Nat.add_right_comm, Nat.add_assoc] at hrest

end Rounds

/-! ### The picks are greedy -/

section Greedy

variable (pool : Pool ν) (w_rho : Coverage)

structure Tracks (s : Selection ν) : Prop where
  covered : ∀ u, s.cov_selected u = missed (fun S => covOf pool S u) s.names.toFinset
  remaining : ∀ S, s.remaining.lookup S = if S ∈ s.names then none else pool.lookup S

variable {pool w_rho}

theorem Tracks.entry {s : Selection ν} (h : Tracks pool s) {c : Σ _ : ν, Coverage} (hc : c ∈ s.remaining.entries) :
    c.1 ∉ s.names ∧ covOf pool c.1 = c.2 := by
  have hlookup : s.remaining.lookup c.1 = some c.2 := AList.mem_lookup_iff.2 hc
  rw [h.remaining] at hlookup
  split at hlookup
  · cases hlookup
  · rename_i hnew
    exact ⟨hnew, by rw [covOf, hlookup, Option.getD_some]⟩

theorem Tracks.trueGain_eq {s : Selection ν} (h : Tracks pool s) {c : Σ _ : ν, Coverage}
    (hc : c ∈ s.remaining.entries) :
    s.trueGain w_rho c.2 = gain (objective pool w_rho) s.names.toFinset c.1 := by
  obtain ⟨hnew, hcov⟩ := h.entry hc
  have hnot : c.1 ∉ s.names.toFinset := fun hmem => hnew (List.mem_toFinset.1 hmem)
  rw [Selection.trueGain, total_eq_sum]
  refine (Finset.sum_congr rfl fun u _ => ?_).trans
    (gain_coverage w_rho (fun u S => covOf pool S u) hnot).symm
  rw [gains, h.covered u, ← hcov]

theorem Tracks.round {quotas : EdUnit → Option Int} {s s' : Selection ν} (h : Tracks pool s)
    (hround : round pool w_rho quotas s = some s') : Tracks pool s' := by
  obtain ⟨c, hc, -, -, hnames, -, hcov, hremaining⟩ := round_eq_some hround
  obtain ⟨hnew, -⟩ := h.entry hc
  constructor
  · intro u
    have hset : s'.names.toFinset = insert c.1 s.names.toFinset := by
      rw [hnames, List.toFinset_append, List.toFinset_cons, List.toFinset_nil, Finset.union_comm]
      rfl
    rw [hset, missed_insert _ fun hmem => hnew (List.mem_toFinset.1 hmem), ← h.covered u, hcov]
  · intro S
    rw [hremaining, hnames]
    by_cases hS : S = c.1
    · rw [hS, AList.lookup_erase, if_pos (by simp)]
    · rw [AList.lookup_erase_ne hS, h.remaining]
      simp [hS]

theorem tracks_start : Tracks pool { remaining := pool } := by
  constructor
  · intro u
    simp [Selection.names, missed]
  · intro S
    simp [Selection.names]

theorem Tracks.mem_remaining {s : Selection ν} (h : Tracks pool s) {S : ν} (hS : S ∈ pool) (hnew : S ∉ s.names) :
    ⟨S, covOf pool S⟩ ∈ s.remaining.entries := by
  obtain ⟨cov, hcov⟩ := Option.isSome_iff_exists.1 (AList.lookup_isSome.2 hS)
  refine AList.mem_lookup_iff.1 ?_
  rw [h.remaining, if_neg hnew, covOf, hcov]
  rfl

theorem objective_submodular (hw : ∀ u, 0 ≤ w_rho u) (hA : ∀ c ∈ pool.entries, ∀ u, 0 ≤ c.2 u ∧ c.2 u ≤ 1) :
    Submodular (objective pool w_rho) := by
  refine coverage_submodular hw fun u S => ?_
  rw [covOf]
  rcases hlookup : pool.lookup S with _ | cov
  · simp
  · exact hA ⟨S, cov⟩ (AList.mem_lookup_iff.1 hlookup) u

omit [DecidableEq ν] in
theorem softGain_none (s : Selection ν) (cov : Coverage) :
    s.softGain w_rho (fun _ => none) cov = s.trueGain w_rho cov := rfl

theorem Tracks.largest (hf : Submodular (objective pool w_rho)) {s s' : Selection ν} (h : Tracks pool s)
    (hround : Tools.round pool w_rho (fun _ => none) s = some s') :
    ∃ S, s'.names = s.names ++ [S] ∧ ∀ S' ∈ pool.keys.toFinset,
      gain (objective pool w_rho) s.names.toFinset S' ≤ gain (objective pool w_rho) s.names.toFinset S := by
  obtain ⟨c, hc, -, hlargest, hnames, -⟩ := round_eq_some hround
  refine ⟨c.1, hnames, fun S' hS' => ?_⟩
  by_cases hold : S' ∈ s.names
  · rw [gain_of_mem _ (List.mem_toFinset.2 hold)]
    exact hf.gain_nonneg _ _
  · have hc' := h.mem_remaining (AList.mem_keys.2 (List.mem_toFinset.1 hS')) hold
    have hle := hlargest _ hc'
    rwa [softGain_none, softGain_none, h.trueGain_eq hc, h.trueGain_eq hc'] at hle

variable (k : Nat)

theorem selection_greedy (hf : Submodular (objective pool w_rho)) :
    Tracks pool (selection pool k w_rho fun _ => none) ∧
    Greedy (objective pool w_rho) pool.keys.toFinset ∅ (selection pool k w_rho fun _ => none).names := by
  refine rounds_invariant pool w_rho (fun _ => none)
    (I := fun s => Tracks pool s ∧ Greedy (objective pool w_rho) pool.keys.toFinset ∅ s.names) ?_ k
    ⟨tracks_start, trivial⟩
  rintro s s' ⟨htracks, hgreedy⟩ hround
  obtain ⟨S, hnames, hlargest⟩ := htracks.largest hf hround
  refine ⟨htracks.round hround, ?_⟩
  rw [hnames]
  refine hgreedy.snoc ?_
  rwa [Finset.empty_union]

theorem selection_done (hf : Submodular (objective pool w_rho)) :
    (selection pool k w_rho fun _ => none).names.length = k ∨
      ∀ S ∈ pool.keys.toFinset,
        gain (objective pool w_rho) (selection pool k w_rho fun _ => none).names.toFinset S ≤ 0 := by
  obtain ⟨htracks, -⟩ := selection_greedy k hf
  rcases rounds_end pool w_rho (fun _ => none) k { remaining := pool } with hlength | ⟨-, hstop⟩
  · left
    rw [Selection.names, List.length_map]
    exact hlength.trans (Nat.zero_add k)
  · right
    intro S hS
    by_cases hold : S ∈ (selection pool k w_rho fun _ => none).names
    · rw [gain_of_mem _ (List.mem_toFinset.2 hold)]
    · have hc := htracks.mem_remaining (AList.mem_keys.2 (List.mem_toFinset.1 hS)) hold
      rw [← htracks.trueGain_eq hc]
      exact round_eq_none_iff.1 hstop _ hc

end Greedy

/-- The objective of the sequences that `greedy_select` returns without quotas is at least `1 - (1 - 1/k)^k` of that of
any `k` sequences of the pool. -/
theorem greedy_select_approx (pool : Pool ν) (w_rho : Coverage) (hw : ∀ u, 0 ≤ w_rho u)
    (hA : ∀ c ∈ pool.entries, ∀ u, 0 ≤ c.2 u ∧ c.2 u ≤ 1) (k : Nat) (hk : 1 ≤ k) (T : Finset ν)
    (hT : ∀ S ∈ T, S ∈ pool) (hcard : T.card ≤ k) :
    (1 - (1 - 1 / (k : ℚ)) ^ k) * objective pool w_rho T ≤
      objective pool w_rho ((greedy_select pool k w_rho fun _ => none).1.map (·.1)).toFinset := by
  have hf := objective_submodular hw hA
  have hsub : T ⊆ pool.keys.toFinset := fun S hS => List.mem_toFinset.2 (AList.mem_keys.1 (hT S hS))
  exact (selection_greedy k hf).2.approx hf hsub hk hcard (coverage_empty _ _) (selection_done k hf)

def covers (unit : EdUnit) (a : ℚ) : Coverage := fun u => if u = unit then a else 0

def threeSequences : Pool String :=
  ((AList.insert "c" (covers .LSU (1 / 4)) ∅).insert "b" (covers .IEX (1 / 2))).insert "a" (covers .IEX (1 / 2))

/-- With equal weights and two picks the selector takes `a` and `b`, here compared with `a` and `c`. -/
theorem greedy_select_approx_three :
    (greedy_select threeSequences 2 (fun _ => 1) fun _ => none).1.map (·.1) = ["a", "b"] ∧
    (1 - (1 - 1 / ((2 : Nat) : ℚ)) ^ 2) * objective threeSequences (fun _ => 1) {"a", "c"} ≤
      objective threeSequences (fun _ => 1)
        ((greedy_select threeSequences 2 (fun _ => 1) fun _ => none).1.map (·.1)).toFinset :=
  ⟨by decide +kernel, greedy_select_approx threeSequences (fun _ => 1) (by decide +kernel) (by decide +kernel) 2
    (by decide) {"a", "c"} (by decide +kernel) (by decide +kernel)⟩

/-! ### Quotas -/

theorem rounds_succ (pool : Pool ν) (w_rho : Coverage) (quotas : EdUnit → Option Int) (n : Nat) (s : Selection ν) :
    rounds pool w_rho quotas (n + 1) s =
      (round pool w_rho quotas (rounds pool w_rho quotas n s)).getD (rounds pool w_rho quotas n s) := by
  induction n generalizing s with
  | zero => rcases hround : round pool w_rho quotas s with _ | s' <;> simp [rounds, hround]
  | succ n ih =>
    rcases hround : round pool w_rho quotas s with _ | s'
    · simp [rounds, hround]
    · simpa [rounds, hround] using ih s'

theorem rounds_stop {pool : Pool ν} {w_rho : Coverage} {quotas : EdUnit → Option Int} {n k : Nat} {s : Selection ν}
    (hnone : round pool w_rho quotas (rounds pool w_rho quotas n s) = none) (hle : n ≤ k) :
    rounds pool w_rho quotas k s = rounds pool w_rho quotas n s := by
  induction k, hle using Nat.le_induction with
  | base => rfl
  | succ k _ ih => rw [rounds_succ, ih, hnone, Option.getD_none]

/-- If a candidate that is left has a gain other than 0, then one within its quota adds to the objective. -/
def Selection.CanPick (w_rho : Coverage) (quotas : EdUnit → Option Int) (s : Selection ν) : Prop :=
  (∃ c ∈ s.remaining.entries, s.trueGain w_rho c.2 ≠ 0) →
    ∃ c ∈ s.remaining.entries, s.overQuota w_rho quotas c.2 = false ∧ 0 < s.trueGain w_rho c.2

omit [DecidableEq ν] in
theorem softGain_pos_iff {w_rho : Coverage} {quotas : EdUnit → Option Int} {s : Selection ν} {cov : Coverage} :
    0 < s.softGain w_rho quotas cov ↔ s.overQuota w_rho quotas cov = false ∧ 0 < s.trueGain w_rho cov := by
  unfold Selection.softGain
  split <;> simp_all

/-- The loop ends early only if no candidate that is left adds anything: this holds exactly if before each round a
candidate that adds something is within its quota, or all gains are 0. -/
theorem stops_early_iff (pool : Pool ν) (k : Nat) (w_rho : Coverage) (quotas : EdUnit → Option Int) :
    ((greedy_select pool k w_rho quotas).1.length < k →
      ∀ c ∈ (selection pool k w_rho quotas).remaining.entries, (selection pool k w_rho quotas).trueGain w_rho c.2 = 0) ↔
    ∀ n < k, (rounds pool w_rho quotas n { remaining := pool }).CanPick w_rho quotas := by
  constructor
  · rintro h n hn ⟨c, hc, hgain⟩
    rcases hround : round pool w_rho quotas (rounds pool w_rho quotas n { remaining := pool }) with _ | s'
    · -- the loop has ended before round `n`, with at most `n` picks
      have hstop : selection pool k w_rho quotas = rounds pool w_rho quotas n { remaining := pool } :=
        rounds_stop hround hn.le
      have hshort : (selection pool k w_rho quotas).selected.length < k := by
        rw [hstop]
        rcases rounds_end pool w_rho quotas n { remaining := pool } with hlen | ⟨hlen, -⟩ <;>
          simp only [List.length_nil] at hlen <;> omega
      exact absurd (hstop ▸ h hshort c (hstop ▸ hc)) hgain
    · obtain ⟨c', hc', hpos, -⟩ := round_eq_some hround
      exact ⟨c', hc', softGain_pos_iff.1 hpos⟩
  · intro h hshort c hc
    change (selection pool k w_rho quotas).selected.length < k at hshort
    obtain ⟨n, rfl⟩ : ∃ n, k = n + 1 := ⟨k - 1, by omega⟩
    have hnone : round pool w_rho quotas (rounds pool w_rho quotas n { remaining := pool }) = none := by
      rcases rounds_end pool w_rho quotas n { remaining := pool } with hlen | ⟨-, hnone⟩
      · rcases hround : round pool w_rho quotas (rounds pool w_rho quotas n { remaining := pool }) with _ | s'
        · rfl
        · obtain ⟨-, -, -, -, -, hlength, -⟩ := round_eq_some hround
          rw [selection, rounds_succ, hround, Option.getD_some, hlength, hlen] at hshort
          simp at hshort
      · exact hnone
    have hstop : selection pool (n + 1) w_rho quotas = rounds pool w_rho quotas n { remaining := pool } :=
      rounds_stop hnone (Nat.le_succ n)
    by_contra hgain
    obtain ⟨c', hc', hpick⟩ := h n (Nat.lt_succ_self n) ⟨c, hstop ▸ hc, hstop ▸ hgain⟩
    exact absurd (round_eq_none_iff.1 hnone c' hc') (not_le.2 (softGain_pos_iff.2 hpick))

/-- With a quota of one for each unit, the selector ends after `a` and `c`, though `b` still adds to the objective. -/
theorem quota_stops_early :
    let s := selection threeSequences 3 (fun _ => 1) fun _ => some 1
    (greedy_select threeSequences 3 (fun _ => 1) fun _ => some 1).1.map (·.1) = ["a", "c"] ∧
    ¬((greedy_select threeSequences 3 (fun _ => 1) fun _ => some 1).1.length < 3 →
      ∀ c ∈ s.remaining.entries, s.trueGain (fun _ => 1) c.2 = 0) := by
  decide +kernel

end GemFI.Tools
