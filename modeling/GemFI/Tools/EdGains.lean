import GemFI.Tools.EdScore

/-!
# The gains and the objective of a selection

The loop of the selector keeps the part of each unit that no pick covers, so the gains that it reports for its picks
add up to the objective (`Accounts`), and without quotas each pick adds at most what the pick before it added
(`Ordered`).

The objective of a single sequence is its weighted coverage.  The score that `ed_score` gives to it cuts the coverage
of each unit at its ceiling, so the two agree only if nothing of weight lies above a ceiling
(`objective_eq_score_iff`).
-/

namespace GemFI.Tools

open SetFunction

variable {ν : Type} [DecidableEq ν]

namespace Selection

def pickGains (s : Selection ν) : List ℚ := s.selected.map (·.2.2)

end Selection

section Gains

variable {pool : Pool ν} {w_rho : Coverage} {quotas : EdUnit → Option Int} {s s' : Selection ν}

omit [DecidableEq ν] in
theorem softGain_of_pos {cov : Coverage} (h : 0 < s.softGain w_rho quotas cov) :
    s.softGain w_rho quotas cov = s.trueGain w_rho cov := by
  unfold Selection.softGain at h ⊢
  split at h
  · exact absurd h (lt_irrefl 0)
  · rename_i hquota
    rw [if_neg hquota]

theorem round_gain (hround : round pool w_rho quotas s = some s') :
    ∃ c ∈ s.remaining.entries,
      (∀ c' ∈ s.remaining.entries, s.softGain w_rho quotas c'.2 ≤ s.trueGain w_rho c.2) ∧
      s'.names = s.names ++ [c.1] ∧ s'.pickGains = s.pickGains ++ [s.trueGain w_rho c.2] ∧
      s'.remaining = s.remaining.erase c.1 := by
  obtain ⟨c, hc, hpos, hlargest, rfl⟩ := round_pick hround
  rw [softGain_of_pos hpos] at hlargest
  refine ⟨c, hc, hlargest, by simp [Selection.names], ?_, rfl⟩
  simp [Selection.pickGains, softGain_of_pos hpos]

/-! ### The gains add up -/

variable (pool w_rho)

/-- The books of the loop: the picks are different sequences of the pool, and the gains add up to their objective. -/
structure Accounts (s : Selection ν) : Prop where
  tracks : Tracks pool s
  nodup : s.names.Nodup
  mem : ∀ S ∈ s.names, S ∈ pool
  gains : s.pickGains.sum = objective pool w_rho s.names.toFinset

variable {pool w_rho}

theorem accounts_start : Accounts pool w_rho { remaining := pool } := by
  refine ⟨tracks_start, List.nodup_nil, fun S hS => absurd hS List.not_mem_nil, ?_⟩
  simp [Selection.pickGains, Selection.names, objective]

theorem Tracks.mem_pool (h : Tracks pool s) {c : Σ _ : ν, Coverage} (hc : c ∈ s.remaining.entries) : c.1 ∈ pool := by
  have hlookup : s.remaining.lookup c.1 = some c.2 := AList.mem_lookup_iff.2 hc
  rw [h.remaining, if_neg (h.entry hc).1] at hlookup
  exact AList.lookup_isSome.1 (by rw [hlookup]; rfl)

theorem Accounts.round (h : Accounts pool w_rho s) (hround : round pool w_rho quotas s = some s') :
    Accounts pool w_rho s' := by
  obtain ⟨c, hc, -, hnames, hgains, -⟩ := round_gain hround
  obtain ⟨hnew, -⟩ := h.tracks.entry hc
  refine ⟨h.tracks.round hround, ?_, ?_, ?_⟩
  · rw [hnames, ← List.concat_eq_append]
    exact h.nodup.concat hnew
  · intro S hS
    rw [hnames, List.mem_append, List.mem_singleton] at hS
    rcases hS with hold | rfl
    · exact h.mem S hold
    · exact h.tracks.mem_pool hc
  · have hset : s'.names.toFinset = insert c.1 s.names.toFinset := by
      rw [hnames, List.toFinset_append, List.toFinset_cons, List.toFinset_nil, Finset.union_comm]
      rfl
    rw [hgains, List.sum_append, List.sum_singleton, h.gains, h.tracks.trueGain_eq hc, ← insert_eq_add_gain, hset]

variable (pool w_rho quotas)

theorem selection_accounts (k : Nat) : Accounts pool w_rho (selection pool k w_rho quotas) :=
  rounds_invariant pool w_rho quotas (fun _ _ h hround => h.round hround) k accounts_start

variable {pool w_rho quotas}

theorem Accounts.cov_selected (h : Accounts pool w_rho s) (u : EdUnit) :
    s.cov_selected u = (s.names.map fun S => 1 - covOf pool S u).prod := by
  rw [h.tracks.covered u, missed, List.prod_toFinset _ h.nodup]

theorem Accounts.sum_pickGains (h : Accounts pool w_rho s) :
    s.pickGains.sum = ∑ u, w_rho u * (1 - s.cov_selected u) := by
  rw [h.gains, objective]
  refine Finset.sum_congr rfl fun u _ => ?_
  rw [h.tracks.covered u, missed]

/-! ### The gains decrease -/

variable (w_rho)

/-- The gains decrease, and no candidate that is left adds more than any of the picks did. -/
structure Ordered (s : Selection ν) : Prop where
  sorted : s.pickGains.Pairwise (· ≥ ·)
  left : ∀ g ∈ s.pickGains, ∀ c ∈ s.remaining.entries, s.trueGain w_rho c.2 ≤ g

variable {w_rho}

theorem Tracks.trueGain_round_le (hf : Submodular (objective pool w_rho)) (h : Tracks pool s)
    (hround : Tools.round pool w_rho quotas s = some s') {c : Σ _ : ν, Coverage} (hc : c ∈ s'.remaining.entries) :
    c ∈ s.remaining.entries ∧ s'.trueGain w_rho c.2 ≤ s.trueGain w_rho c.2 := by
  obtain ⟨d, -, -, hnames, -, hremaining⟩ := round_gain hround
  have hold : c ∈ s.remaining.entries := by
    rw [hremaining] at hc
    exact (List.kerase_sublist _ _).subset hc
  refine ⟨hold, ?_⟩
  rw [(h.round hround).trueGain_eq hc, h.trueGain_eq hold]
  refine hf.gain_anti (fun S hS => ?_) c.1
  rw [List.mem_toFinset] at hS ⊢
  rw [hnames]
  exact List.mem_append_left _ hS

theorem Ordered.round (hf : Submodular (objective pool w_rho)) (htracks : Tracks pool s) (h : Ordered w_rho s)
    (hround : Tools.round pool w_rho (fun _ => none) s = some s') : Ordered w_rho s' := by
  obtain ⟨d, hd, hlargest, -, hgains, -⟩ := round_gain hround
  simp only [softGain_none] at hlargest
  constructor
  · rw [hgains, List.pairwise_append]
    refine ⟨h.sorted, List.pairwise_singleton _ _, fun g hg g' hg' => ?_⟩
    rw [List.mem_singleton.1 hg']
    exact h.left g hg d hd
  · intro g hg c hc
    obtain ⟨hold, hle⟩ := htracks.trueGain_round_le hf hround hc
    rw [hgains, List.mem_append, List.mem_singleton] at hg
    rcases hg with hg | rfl
    · exact hle.trans (h.left g hg c hold)
    · exact hle.trans (hlargest c hold)

theorem selection_ordered (hf : Submodular (objective pool w_rho)) (k : Nat) :
    Ordered w_rho (selection pool k w_rho fun _ => none) := by
  have hinvariant := rounds_invariant pool w_rho (fun _ => none)
    (I := fun s => Tracks pool s ∧ Ordered w_rho s)
    (fun s s' h hround => ⟨h.1.round hround, h.2.round hf h.1 hround⟩) k
    ⟨tracks_start, List.Pairwise.nil, fun g hg => absurd hg List.not_mem_nil⟩
  exact hinvariant.2

end Gains

/-- The selector returns different sequences of the pool with the part of each unit that they leave, the gains add up to
what they cover, and without quotas the gains decrease. -/
theorem greedy_select_gains (pool : Pool ν) (w_rho : Coverage) (hw : ∀ u, 0 ≤ w_rho u)
    (hA : ∀ c ∈ pool.entries, ∀ u, 0 ≤ c.2 u ∧ c.2 u ≤ 1) (k : Nat) (quotas : EdUnit → Option Int) :
    let r := greedy_select pool k w_rho quotas
    (r.1.map (·.1)).Nodup ∧ (∀ S ∈ r.1.map (·.1), S ∈ pool) ∧
    (∀ u, r.2 u = (r.1.map fun pick => 1 - covOf pool pick.1 u).prod) ∧
    (r.1.map (·.2.2)).sum = ∑ u, w_rho u * (1 - r.2 u) ∧
    ((greedy_select pool k w_rho fun _ => none).1.map (·.2.2)).Pairwise (· ≥ ·) := by
  have h := selection_accounts pool w_rho quotas k
  refine ⟨h.nodup, h.mem, fun u => ?_, h.sum_pickGains, (selection_ordered (objective_submodular hw hA) k).sorted⟩
  refine (h.cov_selected u).trans ?_
  rw [Selection.names, List.map_map]
  rfl

/-- Three picks without quotas, with the gains 1/2, 1/4 and 1/4. -/
theorem greedy_select_gains_three :
    ((greedy_select threeSequences 3 (fun _ => 1) fun _ => none).1.map (·.2.2)) = [1 / 2, 1 / 4, 1 / 4] ∧
    ((greedy_select threeSequences 3 (fun _ => 1) fun _ => none).1.map (·.2.2)).Pairwise (· ≥ ·) := by
  obtain ⟨-, -, -, -, hsorted⟩ := greedy_select_gains threeSequences (fun _ => 1) (by decide +kernel)
    (by decide +kernel) 3 fun _ => none
  exact ⟨by decide +kernel, hsorted⟩

/-! ### The objective of the selector -/

def wRho (prof : CpuProfile) : Coverage := fun u => prof.weights u * prof.rho_initial u

structure EdSelection (ν : Type) where
  selected : List (ν × EdUnit × ℚ)
  total_cov : Coverage
  obj : ℚ

def ed_select (prof : CpuProfile) (pool : Pool ν) (k : Nat) (quota_share : ℚ) : EdSelection ν :=
  let quotas : EdUnit → Option Int := fun _ => some (k * quota_share : ℚ).ceil
  let result := greedy_select pool k (wRho prof) quotas
  let total_cov : Coverage := fun u => 1 - result.2 u
  ⟨result.1, total_cov, (UNITS.map fun u => wRho prof u * total_cov u).sum⟩

theorem ed_select_obj (prof : CpuProfile) (pool : Pool ν) (k : Nat) (quota_share : ℚ) :
    (ed_select prof pool k quota_share).obj =
      objective pool (wRho prof) ((ed_select prof pool k quota_share).selected.map (·.1)).toFinset := by
  have h := selection_accounts pool (wRho prof) (fun _ => some (k * quota_share : ℚ).ceil) k
  exact h.sum_pickGains.symm.trans h.gains

def overCeiling (prof : CpuProfile) (cov : Coverage) : ℚ :=
  ∑ u, wRho prof u * (cov u - min (cov u) (prof.ceiling u))

theorem objective_singleton (prof : CpuProfile) (pool : Pool ν) (S : ν) :
    objective pool (wRho prof) {S} = weightedSum prof (covOf pool S) + overCeiling prof (covOf pool S) := by
  have hscore : weightedSum prof (covOf pool S) = ∑ u, wRho prof u * min (covOf pool S u) (prof.ceiling u) := rfl
  rw [objective, hscore, overCeiling, ← Finset.sum_add_distrib]
  refine Finset.sum_congr rfl fun u _ => ?_
  rw [Finset.prod_singleton]
  ring

theorem overCeiling_eq_zero_iff {prof : CpuProfile} (hw : ∀ u, 0 ≤ wRho prof u) (cov : Coverage) :
    overCeiling prof cov = 0 ↔ ∀ u, wRho prof u = 0 ∨ cov u ≤ prof.ceiling u := by
  have hnonneg : ∀ u, 0 ≤ wRho prof u * (cov u - min (cov u) (prof.ceiling u)) := fun u =>
    mul_nonneg (hw u) (sub_nonneg.2 (min_le_left _ _))
  rw [overCeiling, Finset.sum_eq_zero_iff_of_nonneg fun u _ => hnonneg u]
  simp only [Finset.mem_univ, true_implies, mul_eq_zero, sub_eq_zero, left_eq_inf]

/-- The objective of one sequence is its score exactly if the weighted coverage above the ceilings is 0.  So it is for
the objective that is printed when one sequence has been selected, and for the score of a file of statistics.  If no
weight is negative, this is to say that no unit with a weight is covered above its ceiling. -/
theorem objective_eq_score_iff (prof : CpuProfile) (pool : Pool ν) (S : ν) :
    (objective pool (wRho prof) {S} = weightedSum prof (covOf pool S) ↔ overCeiling prof (covOf pool S) = 0) ∧
    (∀ k quota_share, (ed_select prof pool k quota_share).selected.map (·.1) = [S] →
      ((ed_select prof pool k quota_share).obj = weightedSum prof (covOf pool S) ↔
        overCeiling prof (covOf pool S) = 0)) ∧
    (∀ text, read_coverage text = some (covOf pool S) →
      (ed_score text prof = some (objective pool (wRho prof) {S}) ↔ overCeiling prof (covOf pool S) = 0)) ∧
    ((∀ u, 0 ≤ wRho prof u) →
      (overCeiling prof (covOf pool S) = 0 ↔ ∀ u, wRho prof u = 0 ∨ covOf pool S u ≤ prof.ceiling u)) := by
  have hiff : objective pool (wRho prof) {S} = weightedSum prof (covOf pool S) ↔
      overCeiling prof (covOf pool S) = 0 := by
    rw [objective_singleton, add_eq_left]
  refine ⟨hiff, fun k quota_share hone => ?_, fun text hread => ?_, fun hw => overCeiling_eq_zero_iff hw _⟩
  · rw [ed_select_obj, hone]
    exact hiff
  · rw [ed_score_eq, hread, Option.map_some, Option.some_inj, eq_comm]
    exact hiff

/-- A sequence that covers half of the memory management unit, whose ceiling is 1/5, has the objective 1/2 and the score
1/5. -/
theorem objective_above_ceiling :
    let pool : Pool String := AList.insert "s" (covers .MMU (1 / 2)) ∅
    let prof := onlyUnit .MMU (1 / 5)
    (∀ u, 0 ≤ covOf pool "s" u) ∧ (ed_select prof pool 1 (2 / 5)).selected = [("s", .MMU, 1 / 2)] ∧
    (ed_select prof pool 1 (2 / 5)).obj = 1 / 2 ∧ weightedSum prof (covOf pool "s") = 1 / 5 := by
  decide +kernel

end GemFI.Tools
