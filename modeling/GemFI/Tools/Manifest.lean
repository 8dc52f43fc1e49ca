import GemFI.Tools.EdProfile

/-!
# The seeds of a campaign

The manifest of a run gets its seed from the ordinal of the cell and the number of the repetition: a cell has a range
of 1000 seeds, so two runs have different seeds as long as no cell has more than 1000 repetitions
(`run_seeds_differ_iff`).  The manifests of the replays are numbered from 1000 on, so they take the seeds of the next
cell: with two cells and one repetition there are two manifests with one seed (`seeds_differ_iff`).  Of a manifest the
names and the seeds are kept.
-/

namespace GemFI.Tools

variable {V : Type}

structure CampaignFile (V : Type) where
  campaign_id : String
  axes : List (String × List V)
  rng_master_seed : Option Int := none

abbrev Cell (V : Type) := List (String × V)

def expand_cells : List (String × List V) → List (Cell V)
  | [] => [[]]
  | (key, vals) :: axes => vals.flatMap fun v => (expand_cells axes).map ((key, v) :: ·)

structure CampaignManifest where
  campaign_id : String
  run_id : String
  master_seed : Int
  selection_seed : Int
  deriving DecidableEq, Repr

def threeDigits (n : Nat) : String := String.ofList (List.replicate (3 - (toString n).length) '0') ++ toString n

def gen_manifest (camp : CampaignFile V) (cell_ordinal rep : Nat) : CampaignManifest :=
  let base := camp.rng_master_seed.getD 20260825
  { campaign_id := camp.campaign_id
    run_id := camp.campaign_id ++ "-c" ++ threeDigits cell_ordinal ++ "-r" ++ toString rep
    master_seed := base
    selection_seed := base + cell_ordinal * 1000 + rep }

structure Task where
  ci : Nat
  rep : Nat
  manifest : CampaignManifest
  deriving DecidableEq, Repr

structure CampaignArgs where
  n_per_cell : Int := 100
  replay_frac : ℚ := 5 / 100
  max_cells : Int := 0

namespace CampaignArgs

def cells (args : CampaignArgs) (camp : CampaignFile V) : List (Cell V) :=
  if 0 < args.max_cells then (expand_cells camp.axes).take args.max_cells.toNat else expand_cells camp.axes

def n_replay (args : CampaignArgs) : Int := max 1 (truncate (args.replay_frac * args.n_per_cell))

end CampaignArgs

def tasksOf (camp : CampaignFile V) (n_cells : Nat) (reps : List Nat) : List Task :=
  (List.range n_cells).flatMap fun ci => reps.map fun rep => ⟨ci, rep, gen_manifest camp ci rep⟩

def all_tasks (args : CampaignArgs) (camp : CampaignFile V) : List Task :=
  tasksOf camp (args.cells camp).length (List.range args.n_per_cell.toNat)

def replays (args : CampaignArgs) (camp : CampaignFile V) : List Task :=
  tasksOf camp (args.cells camp).length ((List.range args.n_replay.toNat).map (1000 + ·))

def manifests (args : CampaignArgs) (camp : CampaignFile V) : List Task := all_tasks args camp ++ replays args camp

/-! ### Seeds and repetitions -/

/-- Two of the manifests have the same seed only if they have the same cell and the same repetition. -/
def SeedsDiffer (tasks : List Task) : Prop :=
  ∀ t ∈ tasks, ∀ t' ∈ tasks, t.manifest.selection_seed = t'.manifest.selection_seed → t.ci = t'.ci ∧ t.rep = t'.rep

theorem mem_tasksOf {camp : CampaignFile V} {n_cells : Nat} {reps : List Nat} {t : Task} :
    t ∈ tasksOf camp n_cells reps ↔ t.ci < n_cells ∧ t.rep ∈ reps ∧ t.manifest = gen_manifest camp t.ci t.rep := by
  simp only [tasksOf, List.mem_flatMap, List.mem_range, List.mem_map]
  constructor
  · rintro ⟨ci, hci, rep, hrep, rfl⟩
    exact ⟨hci, hrep, rfl⟩
  · rintro ⟨hci, hrep, hmanifest⟩
    exact ⟨t.ci, hci, t.rep, hrep, by rw [← hmanifest]⟩

theorem seedsDiffer_tasksOf (camp : CampaignFile V) (n_cells : Nat) (reps : List Nat) :
    SeedsDiffer (tasksOf camp n_cells reps) ↔
      ∀ r ∈ reps, ∀ r' ∈ reps, ∀ d, 0 < d → d < n_cells → r ≠ r' + d * 1000 := by
  constructor
  · intro h r hr r' hr' d hpos hd heq
    -- the later repetition of cell 0 has the seed of the earlier one of cell `d`
    have hsame := h ⟨0, r, gen_manifest camp 0 r⟩ (mem_tasksOf.2 ⟨hpos.trans hd, hr, rfl⟩)
      ⟨d, r', gen_manifest camp d r'⟩ (mem_tasksOf.2 ⟨hd, hr', rfl⟩) (by simp only [gen_manifest]; omega)
    have hzero : 0 = d := hsame.1
    omega
  · intro h t ht t' ht' hseed
    obtain ⟨hci, hrep, hm⟩ := mem_tasksOf.1 ht
    obtain ⟨hci', hrep', hm'⟩ := mem_tasksOf.1 ht'
    rw [hm, hm'] at hseed
    simp only [gen_manifest] at hseed
    rcases Nat.lt_trichotomy t.ci t'.ci with hlt | heq | hgt
    · exact absurd (by omega) (h t.rep hrep t'.rep hrep' (t'.ci - t.ci) (by omega) (by omega))
    · exact ⟨heq, by omega⟩
    · exact absurd (by omega) (h t'.rep hrep' t.rep hrep (t.ci - t'.ci) (by omega) (by omega))

theorem run_seeds_differ_iff (args : CampaignArgs) (camp : CampaignFile V) :
    SeedsDiffer (all_tasks args camp) ↔ (args.cells camp).length ≤ 1 ∨ args.n_per_cell ≤ 1000 := by
  rw [all_tasks, seedsDiffer_tasksOf]
  simp only [List.mem_range]
  constructor
  · intro h
    by_contra hmany
    exact h 1000 (by omega) 0 (by omega) 1 (by omega) (by omega) (by omega)
  · intro h r hr r' hr' d hpos hd
    omega

theorem mem_manifests (args : CampaignArgs) (camp : CampaignFile V) (t : Task) :
    t ∈ manifests args camp ↔ t ∈ tasksOf camp (args.cells camp).length
      (List.range args.n_per_cell.toNat ++ (List.range args.n_replay.toNat).map (1000 + ·)) := by
  simp only [manifests, all_tasks, replays, List.mem_append, mem_tasksOf]
  tauto

/-- The seeds of all manifests differ exactly if there is at most one cell, or there are no runs and at most 1000
replays. -/
theorem seeds_differ_iff (args : CampaignArgs) (camp : CampaignFile V) :
    (∀ t ∈ manifests args camp, ∀ t' ∈ manifests args camp,
      t.manifest.selection_seed = t'.manifest.selection_seed → t.ci = t'.ci ∧ t.rep = t'.rep) ↔
    (args.cells camp).length ≤ 1 ∨ args.n_per_cell ≤ 0 ∧ args.n_replay ≤ 1000 := by
  have hreplay : 1 ≤ args.n_replay := le_max_left _ _
  simp only [mem_manifests]
  refine (seedsDiffer_tasksOf camp _ _).trans ?_
  simp only [List.mem_append, List.mem_range, List.mem_map]
  constructor
  · intro h
    by_contra hmany
    by_cases hruns : args.n_per_cell ≤ 0
    · -- more than 1000 replays of two cells
      exact h 2000 (.inr ⟨1000, by omega, rfl⟩) 1000 (.inr ⟨0, by omega, rfl⟩) 1 (by omega) (by omega) (by omega)
    · -- the first replay of a cell and the first run of the next
      exact h 1000 (.inr ⟨0, by omega, rfl⟩) 0 (.inl (by omega)) 1 (by omega) (by omega) (by omega)
  · intro h r hr r' hr' d hpos hd
    rcases hr with hr | ⟨i, hi, rfl⟩
    · omega
    · rcases hr' with hr' | ⟨j, hj, rfl⟩
      · omega
      · omega

/-- Two cells with one run each: the replay of the first has the seed of the run of the second. -/
theorem replay_seed_of_next_cell :
    let camp : CampaignFile Nat := { campaign_id := "pilot", axes := [("bit", [0, 1])] }
    let args : CampaignArgs := { n_per_cell := 1 }
    ∃ t ∈ manifests args camp, ∃ t' ∈ manifests args camp,
      t.manifest.selection_seed = t'.manifest.selection_seed ∧ (t.ci, t.rep) = (0, 1000) ∧ (t'.ci, t'.rep) = (1, 0) := by
  decide +kernel

end GemFI.Tools
