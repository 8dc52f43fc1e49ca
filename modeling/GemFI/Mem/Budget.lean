import GemFI.Lib.Run
import GemFI.Mem.CHAOSCache

/-!
# The fault budget of CHAOSCache

Every attack charges the budget with `corruption_size` at its end, also when it injected nothing, when the faults were
counted already, and when the partner sector got as many faults again.  So the budget counter tells the truth at every
point of a run exactly if every attack meets `Charged` (`budget_counter_truthful_iff`).
-/

namespace GemFI.Mem

open CHAOSCache

variable {cfg : CacheConfig}

/-! ### What the handlers count -/

def CacheConfig.EmptyMasks (cfg : CacheConfig) : Prop := cfg.fault_mask = 0#8 ∧ cfg.bits_to_change ≤ 0

/-- `n` faults more are injected, and `k` of them are counted on the budget already. -/
structure Counts (s t : CHAOSCache cfg) (n k : Nat) : Prop where
  injected : t.numFaultsInjected = s.numFaultsInjected + n
  counted : t.faults_injected_count = s.faults_injected_count + BitVec.ofNat 64 k
  stopped : t.stopped = s.stopped
  attackEvent : t.attackEvent = s.attackEvent

theorem Counts.of_eq {s t : CHAOSCache cfg} (hinjected : t.numFaultsInjected = s.numFaultsInjected)
    (hcounted : t.faults_injected_count = s.faults_injected_count) (hstopped : t.stopped = s.stopped)
    (hevent : t.attackEvent = s.attackEvent) : Counts s t 0 0 :=
  ⟨hinjected, by rw [hcounted, BitVec.add_zero], hstopped, hevent⟩

variable (s : CHAOSCache cfg)

theorem Counts.refl : Counts s s 0 0 := .of_eq rfl rfl rfl rfl

theorem Counts.trans {s t u : CHAOSCache cfg} {n k m j : Nat} (h : Counts s t n k) (h' : Counts t u m j) :
    Counts s u (n + m) (k + j) where
  injected := by rw [h'.injected, h.injected, Nat.add_assoc]
  counted := by rw [h'.counted, h.counted, BitVec.add_assoc, BitVec.ofNat_add]
  stopped := h'.stopped.trans h.stopped
  attackEvent := h'.attackEvent.trans h.attackEvent

private theorem countFault_counts (key : Nat × Nat) (ty : FaultType) (mask : BitVec 8) :
    Counts s (countFault s key ty mask) 0 0 := by
  cases ty <;> exact .of_eq rfl rfl rfl rfl

private theorem countOutcome_counts (o : Outcome) : Counts s (countOutcome s o) 0 0 := by
  cases o <;> exact .of_eq rfl rfl rfl rfl

private theorem store_counts (cache : Cache cfg.toGeometry) :
    Counts s { s with cache := cache, numFaultsInjected := s.numFaultsInjected + 1 } 1 0 :=
  ⟨rfl, (BitVec.add_zero _).symm, rfl, rfl⟩

private theorem corruptPartner_counts (q : Pos cfg.toGeometry) (addr off : Nat) (ty : FaultType) (mask : BitVec 8) :
    Counts s (corruptPartner s q addr off ty mask) 1 0 :=
  ⟨rfl, (BitVec.add_zero _).symm, rfl, rfl⟩

variable (blk : Pos cfg.toGeometry) (partner : Option (Pos cfg.toGeometry)) (ty : FaultType)

private theorem corruptByte_counts (mask : BitVec 8) (off : Nat) :
    Counts s (corruptByte s blk partner ty mask off) (if partner = none then 1 else 2) 0 := by
  have h := (countFault_counts s (s.cache.regenerateBlkAddr blk, off) ty mask).trans
    (countOutcome_counts _ (outcome cfg.protection_model mask))
  rcases partner with _ | q
  · exact h.trans (store_counts _ _)
  · exact (h.trans (store_counts _ _)).trans (corruptPartner_counts ..)

private theorem corruptField_counts (mask : BitVec 8) (off : Nat) : Counts s (corruptField s blk mask off) 1 1 := by
  unfold corruptField
  exact ⟨rfl, rfl, rfl, rfl⟩

private theorem drawMask_eq_zero_iff (cfg : CacheConfig) (rng : Rng) :
    (drawMask cfg cfg.bits_to_change rng).1 = 0#8 ↔ cfg.EmptyMasks := by
  unfold drawMask CacheConfig.EmptyMasks
  split
  · rename_i hne
    simp [hne]
  · rename_i heq
    rw [not_not] at heq
    simp [heq, Rng.generateRandomMask_eq_zero_iff]

private theorem corruptOnce_counts :
    (cfg.EmptyMasks → Counts s (corruptOnce s blk partner ty) 0 0) ∧
    (¬cfg.EmptyMasks → cfg.target_field ≠ .data → Counts s (corruptOnce s blk partner ty) 1 1) ∧
    (¬cfg.EmptyMasks → cfg.target_field = .data →
      Counts s (corruptOnce s blk partner ty) (if partner = none then 1 else 2) 0) := by
  have hmask := drawMask_eq_zero_iff cfg s.rng
  obtain ⟨s', hs'⟩ : ∃ s' : CHAOSCache cfg, s' = { s with
    rng := (drawOffset cfg (drawMask cfg cfg.bits_to_change s.rng).2).2 } := ⟨_, rfl⟩
  have hrng : Counts s s' 0 0 := by
    rw [hs']
    exact .of_eq rfl rfl rfl rfl
  refine ⟨fun he => ?_, fun hne hfield => ?_, fun hne hfield => ?_⟩
  · rw [corruptOnce, if_pos (hmask.2 he), ← hs']
    exact hrng
  · rw [corruptOnce, if_neg fun hz => hne (hmask.1 hz), if_pos hfield, ← hs']
    simpa using hrng.trans (corruptField_counts s' blk _ _)
  · rw [corruptOnce, if_neg fun hz => hne (hmask.1 hz), if_neg (not_not.2 hfield), ← hs']
    simpa using hrng.trans (corruptByte_counts s' blk partner ty _ _)

private theorem corruptBytes_counts (rounds : Nat) (s : CHAOSCache cfg) :
    (cfg.EmptyMasks → Counts s (corruptBytes blk partner ty rounds s) 0 0) ∧
    (¬cfg.EmptyMasks → cfg.target_field ≠ .data → Counts s (corruptBytes blk partner ty rounds s) rounds rounds) ∧
    (¬cfg.EmptyMasks → cfg.target_field = .data →
      Counts s (corruptBytes blk partner ty rounds s) (rounds * if partner = none then 1 else 2) 0) := by
  induction rounds generalizing s with
  | zero =>
    refine ⟨fun _ => Counts.refl s, fun _ _ => Counts.refl s, fun _ _ => ?_⟩
    rw [Nat.zero_mul]
    exact Counts.refl s
  | succ rounds ih =>
    obtain ⟨h1, h2, h3⟩ := corruptOnce_counts s blk partner ty
    obtain ⟨i1, i2, i3⟩ := ih (corruptOnce s blk partner ty)
    refine ⟨fun he => (h1 he).trans (i1 he), fun hne hfield => ?_, fun hne hfield => ?_⟩
    · have h := (h2 hne hfield).trans (i2 hne hfield)
      rwa [Nat.add_comm] at h
    · have h := (h3 hne hfield).trans (i3 hne hfield)
      rwa [Nat.add_comm, ← Nat.succ_mul] at h

private theorem counted_counts : Counts s (counted s) 1 1 := ⟨rfl, rfl, rfl, rfl⟩

private theorem injectMetadataFault_counts : ∃ n ≤ 1, Counts s (injectMetadataFault s blk) n n := by
  have halias : ∀ count : CHAOSCache cfg → CHAOSCache cfg, (∀ t, Counts t (count t) 0 0) →
      ∃ n ≤ 1, Counts s (registerAlias s blk count) n n := by
    intro count hcount
    unfold registerAlias
    split
    · exact ⟨0, by omega, .of_eq rfl rfl rfl rfl⟩
    · rename_i w rng _
      obtain ⟨t, ht⟩ : ∃ t : CHAOSCache cfg, t = { s with
        rng := rng, tag_alias := some ⟨blk.1, blk.2, w, (s.cache.entry blk).map (·.tag)⟩ } := ⟨_, rfl⟩
      have hst : Counts s t 0 0 := by
        rw [ht]
        exact .of_eq rfl rfl rfl rfl
      rw [← ht]
      exact ⟨1, by omega, (hst.trans (hcount t)).trans (counted_counts _)⟩
  unfold injectMetadataFault
  split
  · exact halias _ fun t => .of_eq rfl rfl rfl rfl
  · exact halias _ fun t => .of_eq rfl rfl rfl rfl
  · exact ⟨1, by omega, rfl, rfl, rfl, rfl⟩
  · exact ⟨1, by omega, rfl, rfl, rfl, rfl⟩
  · split
    · exact ⟨1, by omega, rfl, rfl, rfl, rfl⟩
    · exact ⟨0, by omega, Counts.refl s⟩
  · unfold clearPermission
    dsimp only
    split
    · exact ⟨0, by omega, .of_eq rfl rfl rfl rfl⟩
    · exact ⟨1, by omega, rfl, rfl, rfl, rfl⟩
  · exact ⟨0, by omega, Counts.refl s⟩

/-- The data path with masks that are not empty: the faults are not counted before the end of the attack. -/
def CacheConfig.DataFaults (cfg : CacheConfig) : Prop := cfg.target_field = .data ∧ ¬cfg.EmptyMasks

private theorem attackBlock_counts (first : Pos cfg.toGeometry) (rest : List (Pos cfg.toGeometry)) :
    (cfg.DataFaults → Counts s (attackBlock s first rest)
      (cfg.corruption_size.toNat * if findPartner s (chooseBlock s first rest).1 = none then 1 else 2) 0) ∧
    (¬cfg.DataFaults → ∃ n, (n ≤ 1 ∨ n ≤ cfg.corruption_size.toNat) ∧ Counts s (attackBlock s first rest) n n) := by
  obtain ⟨s', hs'⟩ : ∃ s' : CHAOSCache cfg, s' = { s with
    rng := (cfg.fault_type_enum.choose cfg.random_fault_distribution (chooseBlock s first rest).2).2 } := ⟨_, rfl⟩
  have hrng : Counts s s' 0 0 := by
    rw [hs']
    exact .of_eq rfl rfl rfl rfl
  unfold attackBlock
  dsimp only
  rw [← hs']
  obtain ⟨h1, h2, h3⟩ := corruptBytes_counts (chooseBlock s first rest).1
    (findPartner s (chooseBlock s first rest).1)
    (cfg.fault_type_enum.choose cfg.random_fault_distribution (chooseBlock s first rest).2).1
    cfg.corruption_size.toNat s'
  constructor
  · rintro ⟨hfield, hmasks⟩
    rw [hfield, if_neg (by simp [isMetadata]), if_neg (by simp)]
    simpa using hrng.trans (h3 hmasks hfield)
  · intro hnot
    by_cases hmeta : isMetadata cfg.target_field
    · rw [if_pos hmeta]
      obtain ⟨n, hn, hcounts⟩ := injectMetadataFault_counts s' (chooseBlock s first rest).1
      exact ⟨n, Or.inl hn, by simpa using hrng.trans hcounts⟩
    · rw [if_neg hmeta]
      by_cases hvictim : cfg.target_field = .victim
      · rw [if_pos hvictim]
        exact ⟨0, Or.inl (by omega), hrng⟩
      · rw [if_neg hvictim]
        by_cases hmasks : cfg.EmptyMasks
        · exact ⟨0, Or.inl (by omega), hrng.trans (h1 hmasks)⟩
        · have hfield : cfg.target_field ≠ .data := fun hfield => hnot ⟨hfield, hmasks⟩
          exact ⟨_, Or.inr (Nat.le_refl _), by simpa using hrng.trans (h2 hmasks hfield)⟩

def partnerOfChoice (s : CHAOSCache cfg) : Option (Option (Pos cfg.toGeometry)) :=
  match s.cache.validBlocks with
  | [] => none
  | first :: rest => some (findPartner s (chooseBlock s first rest).1)

private theorem injectFault_counts (now : Nat) :
    ∃ t, injectFault s now = reschedule t now ∧
    ((cfg.DataFaults ∧ ∃ partner, partnerOfChoice s = some partner ∧
      Counts s t (cfg.corruption_size.toNat * if partner = none then 1 else 2) 0) ∨
    (¬(cfg.DataFaults ∧ partnerOfChoice s ≠ none) ∧
      ∃ n, (n ≤ 1 ∨ n ≤ cfg.corruption_size.toNat) ∧ Counts s t n n)) := by
  unfold injectFault partnerOfChoice
  rcases s.cache.validBlocks with _ | ⟨first, rest⟩
  · exact ⟨s, rfl, Or.inr ⟨by simp, 0, Or.inl (by omega), Counts.refl s⟩⟩
  · obtain ⟨h1, h2⟩ := attackBlock_counts s first rest
    refine ⟨attackBlock s first rest, rfl, ?_⟩
    by_cases hdata : cfg.DataFaults
    · exact Or.inl ⟨hdata, _, rfl, h1 hdata⟩
    · exact Or.inr ⟨fun h => hdata h.1, h2 hdata⟩

private theorem reschedule_spec (hevent : s.attackEvent = none) (now : Nat) :
    (reschedule s now).numFaultsInjected = s.numFaultsInjected ∧
    (reschedule s now).faults_injected_count = s.faults_injected_count + BitVec.ofInt 64 cfg.corruption_size ∧
    (reschedule s now).stopped = (s.stopped || decide (cfg.max_faults ≠ 0 ∧
      cfg.max_faults ≤ s.faults_injected_count + BitVec.ofInt 64 cfg.corruption_size)) ∧
    ((reschedule s now).attackEvent ≠ none → ¬(cfg.max_faults ≠ 0 ∧
      cfg.max_faults ≤ s.faults_injected_count + BitVec.ofInt 64 cfg.corruption_size)) := by
  unfold reschedule scheduleAttack
  dsimp only
  split
  · rename_i hbudget
    refine ⟨rfl, rfl, ?_, fun h => absurd hevent h⟩
    rw [decide_eq_true hbudget, Bool.or_true]
  · rename_i hbudget
    rw [decide_eq_false hbudget, Bool.or_false]
    split
    · split
      · exact ⟨rfl, rfl, rfl, fun _ => hbudget⟩
      · exact ⟨rfl, rfl, rfl, fun _ => hbudget⟩
    · exact ⟨rfl, rfl, rfl, fun _ => hbudget⟩

private theorem checkPermanent_counts : Counts s (checkPermanent s) 0 0 := by
  unfold checkPermanent
  refine List.foldlRecOn (motive := fun t => Counts s t 0 0) s.permanent_faults.entries reapplyEntry
    (Counts.refl s) fun t ht entry _ => ?_
  have hentry : Counts t (reapplyEntry t entry) 0 0 := by
    unfold reapplyEntry
    split
    · exact Counts.refl t
    · split
      · exact Counts.refl t
      · exact .of_eq rfl rfl rfl rfl
  exact ht.trans hentry

private theorem writeback_counts (now : Nat) (payload : List (BitVec 8)) :
    Counts s (chaosCorruptWriteback s now payload).2 0 0 ∨
    (Counts s (chaosCorruptWriteback s now payload).2 1 1 ∧ cfg.target_field = .victim ∧
      ¬(cfg.max_faults ≠ 0 ∧ cfg.max_faults ≤ s.faults_injected_count)) := by
  obtain ⟨rng, hrng | ⟨hfault, hfield, hbudget⟩⟩ := chaosCorruptWriteback_spec s now payload
  · rw [hrng]
    exact Or.inl (.of_eq rfl rfl rfl rfl)
  · rw [hfault]
    exact Or.inr ⟨⟨rfl, rfl, rfl, rfl⟩, hfield, hbudget⟩

/-! ### Runs -/

/-- The budget counter is the number of the faults injected, which is within the budget, and an attack that found the
budget used up was right. -/
structure Truthful (s : CHAOSCache cfg) : Prop where
  equal : s.faults_injected_count.toNat = s.numFaultsInjected
  within : s.numFaultsInjected ≤ cfg.max_faults.toNat
  used : s.stopped = true → cfg.max_faults.toNat ≤ s.numFaultsInjected

/-- The attack charges the budget with what it injects: the size is 0, or data bytes are corrupted, with masks that are
not empty, in a block without a resident partner, and the budget has room for all of them. -/
def Charged (s : CHAOSCache cfg) : Event cfg → Prop
  | .attack => s.attackEvent ≠ none → cfg.corruption_size = 0 ∨
      (cfg.DataFaults ∧ 0 < cfg.corruption_size ∧ partnerOfChoice s = some none ∧
        (s.faults_injected_count.toNat : Int) + cfg.corruption_size ≤ cfg.max_faults.toNat)
  | _ => True

/-- When an attack is scheduled, the budget is not used up; for the victim field none is. -/
structure Scheduled (s : CHAOSCache cfg) : Prop where
  victim : cfg.target_field = .victim → s.attackEvent = none
  room : s.attackEvent ≠ none → s.faults_injected_count < cfg.max_faults

private theorem toNat_charge (c : BitVec 64) (k : Nat) (i : Int) :
    ((c + BitVec.ofNat 64 k + BitVec.ofInt 64 i).toNat : Int) = (c.toNat + k + i) % 2 ^ 64 := by
  rw [BitVec.toNat_add, BitVec.toNat_add, BitVec.toNat_ofInt, BitVec.toNat_ofNat]
  push_cast
  omega

private theorem reschedule_truthful_iff {s t : CHAOSCache cfg} (h : Truthful s)
    (hroom : s.faults_injected_count < cfg.max_faults) (hevent : s.attackEvent = none) {n k : Nat}
    (hc : Counts s t n k) (now : Nat) :
    Truthful (reschedule t now) ↔
      ((s.numFaultsInjected : Int) + k + cfg.corruption_size) % 2 ^ 64 = s.numFaultsInjected + n ∧
      s.numFaultsInjected + n ≤ cfg.max_faults.toNat := by
  obtain ⟨hnum, hcount, hstop, -⟩ := reschedule_spec t (hc.attackEvent.trans hevent) now
  rw [hc.injected] at hnum
  rw [hc.counted] at hcount
  rw [hc.stopped] at hstop
  have hcharge := toNat_charge s.faults_injected_count k cfg.corruption_size
  rw [← hcount, h.equal] at hcharge
  have hrunning : s.stopped = false := by
    by_contra hne
    have hused := h.used (by simpa using hne)
    have hlt : s.faults_injected_count.toNat < cfg.max_faults.toNat := hroom
    rw [h.equal] at hlt
    omega
  constructor
  · intro ht
    have hequal := ht.equal
    have hwithin := ht.within
    rw [hnum] at hequal hwithin
    refine ⟨?_, hwithin⟩
    rw [← hcharge, hequal]
    push_cast
    rfl
  · rintro ⟨hequal, hwithin⟩
    rw [← hcharge] at hequal
    have hequal' : (reschedule t now).faults_injected_count.toNat = (reschedule t now).numFaultsInjected := by
      rw [hnum]
      exact_mod_cast hequal
    refine ⟨hequal', by rw [hnum]; exact hwithin, fun hused => ?_⟩
    rw [hstop, hrunning, Bool.false_or, hc.counted, ← hcount] at hused
    have hle : cfg.max_faults.toNat ≤ (reschedule t now).faults_injected_count.toNat := (of_decide_eq_true hused).2
    rwa [hequal'] at hle

private theorem attack_truthful_iff {s : CHAOSCache cfg} (h : Truthful s)
    (hroom : s.faults_injected_count < cfg.max_faults) (hevent : s.attackEvent = none) (now : Nat) :
    Truthful (injectFault s now) ↔ cfg.corruption_size = 0 ∨
      (cfg.DataFaults ∧ 0 < cfg.corruption_size ∧ partnerOfChoice s = some none ∧
        (s.faults_injected_count.toNat : Int) + cfg.corruption_size ≤ cfg.max_faults.toNat) := by
  obtain ⟨t, ht, hcases⟩ := injectFault_counts s now
  have hsize := cfg.corruption_size_int
  have hmax := cfg.max_faults.isLt
  have hlt : s.faults_injected_count.toNat < cfg.max_faults.toNat := hroom
  rw [h.equal] at hlt ⊢
  rw [ht]
  rcases hcases with ⟨hdata, partner, hpartner, hcounts⟩ | ⟨hnot, n, hn, hcounts⟩
  · rw [reschedule_truthful_iff h hroom hevent hcounts, hpartner]
    rcases partner with _ | q
    · simp only [hdata, ↓reduceIte, true_and]
      omega
    · have hne : ¬(some (some q) : Option (Option (Pos cfg.toGeometry))) = some none := by simp
      simp only [hne, false_and, and_false, or_false, reduceCtorEq, ↓reduceIte]
      omega
  · rw [reschedule_truthful_iff h hroom hevent hcounts]
    have hnone : ¬(cfg.DataFaults ∧ 0 < cfg.corruption_size ∧ partnerOfChoice s = some none ∧
        (s.numFaultsInjected : Int) + cfg.corruption_size ≤ cfg.max_faults.toNat) := by
      rintro ⟨hdata, -, hpartner, -⟩
      exact hnot ⟨hdata, by simp [hpartner]⟩
    rw [or_iff_left hnone]
    omega

private theorem step_counts {e : Event cfg} (he : e ≠ .attack) :
    Counts s (step s e) 0 0 ∨ (Counts s (step s e) 1 1 ∧ cfg.target_field = .victim ∧
      ¬(cfg.max_faults ≠ 0 ∧ cfg.max_faults ≤ s.faults_injected_count)) := by
  cases e with
  | attack => exact absurd rfl he
  | check =>
    unfold step
    cases s.periodicCheck with
    | none => exact Or.inl (Counts.refl s)
    | some now =>
      have hs : Counts s { s with periodicCheck := none } 0 0 := .of_eq rfl rfl rfl rfl
      exact Or.inl (hs.trans (checkPermanent_counts _))
  | writeback now payload => exact writeback_counts s now payload
  | fill blk key data =>
    by_cases hfill : s.cache.CanFill blk key
    · simp only [step, hfill, ↓reduceDIte]
      exact Or.inl (.of_eq rfl rfl rfl rfl)
    · simp only [step, hfill, ↓reduceDIte]
      exact Or.inl (Counts.refl s)
  | invalidate blk => exact Or.inl (.of_eq rfl rfl rfl rfl)
  | setCoherence blk dirty writable readable => exact Or.inl (.of_eq rfl rfl rfl rfl)
  | store blk off value => exact Or.inl (.of_eq rfl rfl rfl rfl)

private theorem scheduled_step (hmax : cfg.max_faults ≠ 0) {s : CHAOSCache cfg} (h : Scheduled s) (e : Event cfg) :
    Scheduled (step s e) := by
  by_cases he : e = .attack
  · subst he
    unfold step
    cases hevent : s.attackEvent with
    | none => exact h
    | some now =>
      constructor
      · intro hvictim
        rw [h.victim hvictim] at hevent
        exact absurd hevent (by simp)
      · intro hnext
        obtain ⟨t, ht, hcases⟩ := injectFault_counts { s with attackEvent := none } now
        have htevent : t.attackEvent = none := by
          rcases hcases with ⟨-, partner, -, hcounts⟩ | ⟨-, n, -, hcounts⟩
          · exact hcounts.attackEvent
          · exact hcounts.attackEvent
        obtain ⟨-, hcount, -, hopen⟩ := reschedule_spec t htevent now
        dsimp only at hnext ⊢
        rw [ht] at hnext ⊢
        rw [hcount]
        exact BitVec.not_le.1 fun hle => hopen hnext ⟨hmax, hle⟩
  · rcases step_counts s he with hc | ⟨hc, hvictim, -⟩
    · constructor
      · intro hvictim
        rw [hc.attackEvent, h.victim hvictim]
      · intro hnext
        rw [hc.attackEvent] at hnext
        rw [hc.counted]
        simpa using h.room hnext
    · have hnone : (step s e).attackEvent = none := by rw [hc.attackEvent, h.victim hvictim]
      exact ⟨fun _ => hnone, fun hnext => absurd hnone hnext⟩

private theorem truthful_step_iff (hmax : cfg.max_faults ≠ 0) {s : CHAOSCache cfg} (h : Truthful s)
    (hsched : Scheduled s) (e : Event cfg) : Truthful (step s e) ↔ Charged s e := by
  by_cases he : e = .attack
  · subst he
    unfold step Charged
    cases hevent : s.attackEvent with
    | none => simp [h]
    | some now =>
      have hroom := hsched.room (by simp [hevent])
      have hs : Truthful ({ s with attackEvent := none } : CHAOSCache cfg) := ⟨h.equal, h.within, h.used⟩
      simp only [ne_eq, reduceCtorEq, not_false_eq_true, forall_const]
      exact attack_truthful_iff hs hroom rfl now
  · have hcharged : Charged s e := by
      cases e <;> trivial
    refine iff_of_true ?_ hcharged
    rcases step_counts s he with hc | ⟨hc, -, hbudget⟩
    · refine ⟨?_, ?_, ?_⟩
      · rw [hc.counted, hc.injected]
        simpa using h.equal
      · rw [hc.injected]
        exact h.within
      · rw [hc.stopped, hc.injected]
        exact h.used
    · have hlt : s.faults_injected_count.toNat < cfg.max_faults.toNat :=
        BitVec.not_le.1 fun hle => hbudget ⟨hmax, hle⟩
      have hbound := cfg.max_faults.isLt
      have hequal := h.equal
      refine ⟨?_, ?_, ?_⟩
      · rw [hc.counted, hc.injected, BitVec.toNat_add, BitVec.toNat_ofNat]
        omega
      · rw [hc.injected]
        omega
      · rw [hc.stopped, hc.injected]
        intro hstop
        have hused := h.used hstop
        omega

private theorem truthful_run_iff (hmax : cfg.max_faults ≠ 0) {s : CHAOSCache cfg} (h : Truthful s)
    (hsched : Scheduled s) (es : List (Event cfg)) :
    Along step (fun s e => Truthful (step s e)) s es ↔ Along step Charged s es := by
  induction es generalizing s with
  | nil => exact Iff.rfl
  | cons e es ih =>
    have hstep := truthful_step_iff hmax h hsched e
    have hsched' := scheduled_step hmax hsched e
    constructor
    · rintro ⟨htruth, hrest⟩
      exact ⟨hstep.1 htruth, (ih htruth hsched').1 hrest⟩
    · rintro ⟨hcharged, hrest⟩
      have htruth := hstep.2 hcharged
      exact ⟨htruth, (ih htruth hsched').2 hrest⟩

private theorem init_spec (cfg : CacheConfig) (cache : Cache cfg.toGeometry) (draw : Nat → Nat) :
    (init cfg cache draw).faults_injected_count = 0 ∧ (init cfg cache draw).numFaultsInjected = 0 ∧
    (init cfg cache draw).stopped = false ∧
    (cfg.target_field = .victim → (init cfg cache draw).attackEvent = none) := by
  by_cases hvictim : cfg.target_field = .victim <;>
    simp [init, scheduleAttack, scheduleCheckPermanentFault, hvictim]

/-- For every configuration with a budget, every cache content and every stream of draws: the budget counter tells the
truth in every state of a run exactly if every attack of the run is charged with what it injects. -/
theorem budget_counter_truthful_iff (cfg : CacheConfig) (hmax : cfg.max_faults ≠ 0) (cache : Cache cfg.toGeometry)
    (draw : Nat → Nat) (es : List (Event cfg)) :
    Along step (fun s e => Truthful (step s e)) (init cfg cache draw) es ↔
    Along step Charged (init cfg cache draw) es := by
  obtain ⟨hcount, hnum, hstop, hvictim⟩ := init_spec cfg cache draw
  refine truthful_run_iff hmax ⟨?_, ?_, ?_⟩ ⟨hvictim, fun _ => ?_⟩ es
  · rw [hcount, hnum]
    rfl
  · rw [hnum]
    exact Nat.zero_le _
  · rw [hstop]
    simp
  · rw [hcount]
    have hne : cfg.max_faults.toNat ≠ 0 := fun hzero => hmax (BitVec.eq_of_toNat_eq hzero)
    exact Nat.pos_of_ne_zero hne

instance : Decidable cfg.EmptyMasks := inferInstanceAs (Decidable (_ ∧ _))

instance : Decidable cfg.DataFaults := inferInstanceAs (Decidable (_ ∧ _))

instance (s : CHAOSCache cfg) (e : Event cfg) : Decidable (Charged s e) := by
  rcases e
  case attack =>
    exact inferInstanceAs (Decidable (s.attackEvent ≠ none → cfg.corruption_size = 0 ∨
      (cfg.DataFaults ∧ 0 < cfg.corruption_size ∧ partnerOfChoice s = some none ∧
        (s.faults_injected_count.toNat : Int) + cfg.corruption_size ≤ cfg.max_faults.toNat)))
  all_goals exact .isTrue trivial

/-- An attack on a cache with one line is charged with its one fault. -/
theorem budget_counter_truthful_iff_fill :
    let es : List (Event oneBlock) := [.fill (⟨0, by decide⟩, ⟨0, by decide⟩) ⟨0, false⟩ fun _ => 0, .attack]
    oneBlock.max_faults ≠ 0 ∧ (run (init oneBlock (.empty _) fun _ => 0) es).numFaultsInjected = 1 ∧
    Along step (fun s e => Truthful (step s e)) (init oneBlock (.empty _) fun _ => 0) es :=
  ⟨by decide, by decide, (budget_counter_truthful_iff oneBlock (by decide) (.empty _) (fun _ => 0) _).2 (by decide)⟩

/-- An attack on an empty cache injects nothing and uses up the budget: no attack will come any more. -/
theorem empty_cache_uses_budget :
    let s := run (init oneBlock (.empty _) fun _ => 0) [.attack]
    s.numFaultsInjected = 0 ∧ s.faults_injected_count = 1 ∧ s.stopped = true ∧ s.attackEvent = none := by
  decide

end GemFI.Mem
