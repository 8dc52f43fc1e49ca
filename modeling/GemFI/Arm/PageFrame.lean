import GemFI.Arm.CHAOSArmTLB
import GemFI.Lib.Run

/-!
# Wrong page frames

A counted fault in the page frame number is meant to leave a wrong frame, or an entry that the parity has thrown away;
what escapes the parity is meant to have at least two wrong bits.  That holds exactly if the fault changes the frame
(`pfn_fault_iff`).  An offset and a bit flip always do; another entry may have the same frame, and the bits of a
stuck-at fault may have their value already.
-/

namespace GemFI.Arm

open Mem (Rng FaultType)

/-! ### Faults that change the frame -/

/-- The fault changes the frame, by its kind.  The type `Random` is never drawn. -/
def PfnFault.Changes : PfnFault → BitVec 64 → Prop
  | .mappedPage donor_pfn, pfn => donor_pfn ≠ pfn
  | .offset _ _, _ => True
  | .masked .BitFlip _ _, _ => True
  | .masked .StuckAtZero mask _, pfn => pfn &&& mask ≠ 0
  | .masked .StuckAtOne mask _, pfn => ~~~pfn &&& mask ≠ 0
  | .masked .Random _ _, _ => False

theorem and_not_eq_self_iff (x mask : BitVec 64) : x &&& ~~~mask = x ↔ x &&& mask = 0 := by
  constructor
  · intro h
    rw [← h, BitVec.and_assoc, BitVec.and_comm (~~~mask), BitVec.and_not_self]
    exact BitVec.and_zero
  · intro h
    calc x &&& ~~~mask = (x &&& mask) ||| (x &&& ~~~mask) := by rw [h, BitVec.ofNat_eq_ofNat, BitVec.zero_or]
      _ = x &&& (mask ||| ~~~mask) := BitVec.and_or_distrib_left.symm
      _ = x := by rw [BitVec.or_not_self, BitVec.and_allOnes]

theorem or_eq_self_iff (x mask : BitVec 64) : x ||| mask = x ↔ ~~~x &&& mask = 0 := by
  rw [← and_not_eq_self_iff, ← BitVec.not_or, BitVec.not_inj]

theorem xor_ne_self {x mask : BitVec 64} (hmask : mask ≠ 0) : x ^^^ mask ≠ x := by
  intro h
  apply hmask
  calc mask = x ^^^ (x ^^^ mask) := by rw [← BitVec.xor_assoc, BitVec.xor_self, BitVec.zero_xor]
    _ = 0 := by rw [h, BitVec.xor_self, BitVec.ofNat_eq_ofNat]

theorem add_ne_self {x offset : BitVec 64} (hoffset : offset ≠ 0) : x + offset ≠ x := by
  intro h
  apply hoffset
  calc offset = x + offset - x := by rw [BitVec.add_comm, BitVec.add_sub_cancel]
    _ = 0 := by rw [h, BitVec.sub_self, BitVec.ofNat_eq_ofNat]

theorem PfnFault.apply_ne_iff (fault : PfnFault) (pfn : BitVec 64) : fault.apply pfn ≠ pfn ↔ fault.Changes pfn := by
  cases fault with
  | mappedPage donor_pfn => exact Iff.rfl
  | offset pfn_offset hoffset => exact iff_of_true (add_ne_self hoffset) trivial
  | masked chosen mask hmask =>
    cases chosen with
    | BitFlip => exact iff_of_true (xor_ne_self hmask) trivial
    | StuckAtZero => exact not_congr (and_not_eq_self_iff pfn mask)
    | StuckAtOne => exact not_congr (or_eq_self_iff pfn mask)
    | Random => exact iff_of_false (fun h => h rfl) id

theorem ones_xor_eq_zero_iff (x y : BitVec 64) : ones (x ^^^ y) = 0 ↔ x = y := by
  rw [ones_eq_zero_iff]
  exact BitVec.xor_eq_zero_iff

namespace CHAOSArmTLB

variable {cfg : TlbConfig}

/-! ### What a call does -/

/-- The fault is in the page frame number: that is where every text goes that names no other field. -/
def OnPfn (cfg : TlbConfig) : Prop := cfg.target_field = .pfn ∨ cfg.target_field = .other

instance (cfg : TlbConfig) : Decidable (OnPfn cfg) := inferInstanceAs (Decidable (_ ∨ _))

/-- The fault that the call puts into the page frame number of the entry, if there is one. -/
def pfnFault (s : CHAOSArmTLB cfg) (table : List TlbEntry) (self : Nat) (entry : TlbEntry) (now : Nat) :
    Option PfnFault :=
  if (gate s now).1 then (choosePfnFault (gate s now).2 table self entry).1 else none

variable (s : CHAOSArmTLB cfg)

theorem applyProtectionModel_cases (entry : TlbEntry) (old_pfn new_pfn : BitVec 64) :
    (cfg.protection_model ≠ .ParityInterleaved ∧
      applyProtectionModel s entry old_pfn new_pfn = (true, entry, s)) ∨
    (cfg.protection_model = .ParityInterleaved ∧ ones (old_pfn ^^^ new_pfn) = 1 ∧
      applyProtectionModel s entry old_pfn new_pfn = (false, { entry with pfn := old_pfn }.invalidate,
        { s with numParityDetectedInvalidated := s.numParityDetectedInvalidated + 1 })) ∨
    (cfg.protection_model = .ParityInterleaved ∧ ones (old_pfn ^^^ new_pfn) ≠ 1 ∧
      applyProtectionModel s entry old_pfn new_pfn = (true, entry,
        { s with numParitySilentEscape := s.numParitySilentEscape + 1 })) := by
  unfold applyProtectionModel
  by_cases hparity : cfg.protection_model = .ParityInterleaved
  · by_cases hone : ones (old_pfn ^^^ new_pfn) = 1
    · exact .inr (.inl ⟨hparity, hone, (if_neg (not_not_intro hparity)).trans (if_pos hone)⟩)
    · exact .inr (.inr ⟨hparity, hone, (if_neg (not_not_intro hparity)).trans (if_neg hone)⟩)
  · exact .inl ⟨hparity, if_pos hparity⟩

theorem countType_frame (fault : PfnFault) :
    (countType s fault).numFaultsInjected = s.numFaultsInjected ∧
    (countType s fault).faults_injected_count = s.faults_injected_count ∧
    (countType s fault).numParityDetectedInvalidated = s.numParityDetectedInvalidated ∧
    (countType s fault).numParitySilentEscape = s.numParitySilentEscape := by
  unfold countType
  split <;> exact ⟨rfl, rfl, rfl, rfl⟩

theorem corruptPfn_cases (entry : TlbEntry) (fault : PfnFault) :
    let r := corruptPfn s entry fault
    r.2.numFaultsInjected = s.numFaultsInjected + 1 ∧ r.2.faults_injected_count = s.faults_injected_count + 1 ∧
    ((cfg.protection_model ≠ .ParityInterleaved ∧ r.1 = { entry with pfn := fault.apply entry.pfn } ∧
        r.2.numParityDetectedInvalidated = s.numParityDetectedInvalidated ∧
        r.2.numParitySilentEscape = s.numParitySilentEscape) ∨
      (cfg.protection_model = .ParityInterleaved ∧ ones (entry.pfn ^^^ fault.apply entry.pfn) = 1 ∧
        r.1 = entry.invalidate ∧ r.2.numParityDetectedInvalidated = s.numParityDetectedInvalidated + 1 ∧
        r.2.numParitySilentEscape = s.numParitySilentEscape) ∨
      (cfg.protection_model = .ParityInterleaved ∧ ones (entry.pfn ^^^ fault.apply entry.pfn) ≠ 1 ∧
        r.1 = { entry with pfn := fault.apply entry.pfn } ∧
        r.2.numParityDetectedInvalidated = s.numParityDetectedInvalidated ∧
        r.2.numParitySilentEscape = s.numParitySilentEscape + 1)) := by
  intro r
  obtain ⟨hinjected, hcount, hdetected, hescape⟩ := countType_frame s fault
  have hr : r = (applyProtectionModel (countInjected (countType s fault))
      { entry with pfn := fault.apply entry.pfn } entry.pfn (fault.apply entry.pfn)).2 := rfl
  rcases applyProtectionModel_cases (countInjected (countType s fault))
      { entry with pfn := fault.apply entry.pfn } entry.pfn (fault.apply entry.pfn) with
    ⟨hparity, h⟩ | ⟨hparity, hone, h⟩ | ⟨hparity, hone, h⟩ <;> rw [hr, h]
  · exact ⟨congrArg (· + 1) hinjected, congrArg (· + 1) hcount, .inl ⟨hparity, rfl, hdetected, hescape⟩⟩
  · exact ⟨congrArg (· + 1) hinjected, congrArg (· + 1) hcount,
      .inr (.inl ⟨hparity, hone, rfl, congrArg (· + 1) hdetected, hescape⟩)⟩
  · exact ⟨congrArg (· + 1) hinjected, congrArg (· + 1) hcount,
      .inr (.inr ⟨hparity, hone, rfl, hdetected, congrArg (· + 1) hescape⟩)⟩

theorem gate_cases (now : Nat) :
    (∃ rng, gate s now = (false, { s with rng := rng })) ∨
    (Open s now ∧ ∃ rng, gate s now = (true, { s with rng := rng })) := by
  rcases Mem.gate_outcomes (Open s now) (cfg.uniform s.rng.next.1 < cfg.probability) s
    { s with rng := s.rng.next.2 } with h | h | ⟨hopen, h⟩
  · exact .inl ⟨s.rng, h⟩
  · exact .inl ⟨_, h⟩
  · exact .inr ⟨hopen, _, h⟩

variable {entry : TlbEntry} {table : List TlbEntry}

theorem maybeCorrupt_pfn (hfield : OnPfn cfg) (s : CHAOSArmTLB cfg) {self : Nat} (hentry : table[self]? = some entry) (now : Nat) :
    (pfnFault s table self entry now = none ∧
      ∃ rng, maybeCorrupt s table self now = (table, { s with rng := rng })) ∨
    (Open s now ∧ ∃ fault, pfnFault s table self entry now = some fault ∧ ∃ rng,
      let r := corruptPfn { s with rng := rng } entry fault
      maybeCorrupt s table self now = (table.set self r.1, r.2)) := by
  have hself : table.set self entry = table := by
    obtain ⟨hlt, rfl⟩ := List.getElem?_eq_some_iff.1 hentry
    exact List.set_getElem_self hlt
  have hcorrupt : ∀ t : CHAOSArmTLB cfg, corruptEntry t table self entry = corruptFrame t table self entry := by
    intro t
    unfold corruptEntry
    rcases hfield with h | h <;> rw [h]
  unfold maybeCorrupt pfnFault
  rw [hentry]
  rcases gate_cases s now with ⟨rng, hgate⟩ | ⟨hopen, rng, hgate⟩
  · rw [hgate]
    exact .inl ⟨rfl, rng, rfl⟩
  · rw [hgate]
    dsimp only
    rw [hcorrupt, corruptFrame]
    rcases choosePfnFault ({ s with rng := rng } : CHAOSArmTLB cfg) table self entry with ⟨_ | fault, rng'⟩
    · exact .inl ⟨rfl, rng', Prod.ext hself rfl⟩
    · exact .inr ⟨hopen, fault, rfl, rng', rfl⟩

/-! ### One fault -/

/-- What a fault in the page frame number is to leave behind: an entry that is valid with another frame, or, if the parity
finds a single wrong bit, the entry as it was, but invalid.  An escape from the parity has two wrong bits or more. -/
def Meant (s : CHAOSArmTLB cfg) (table : List TlbEntry) (self now : Nat) (entry : TlbEntry) (fault : PfnFault) :
    Prop :=
  let r := maybeCorrupt s table self now
  ∃ entry', r.1[self]? = some entry' ∧
    ((entry'.valid = true ∧ entry'.pfn ≠ entry.pfn) ∨
      (cfg.protection_model = .ParityInterleaved ∧ ones (entry.pfn ^^^ fault.apply entry.pfn) = 1 ∧
        entry' = entry.invalidate)) ∧
    (r.2.numParitySilentEscape ≠ s.numParitySilentEscape → 2 ≤ ones (entry.pfn ^^^ entry'.pfn))

theorem meant_iff (hfield : OnPfn cfg) {s : CHAOSArmTLB cfg} {self now : Nat} (hentry : table[self]? = some entry) (hvalid : entry.valid = true) {fault : PfnFault}
    (hfault : pfnFault s table self entry now = some fault) :
    Meant s table self now entry fault ↔ fault.Changes entry.pfn := by
  have hlt := (List.getElem?_eq_some_iff.1 hentry).1
  have hzero := ones_xor_eq_zero_iff entry.pfn (fault.apply entry.pfn)
  rw [← PfnFault.apply_ne_iff]
  rcases maybeCorrupt_pfn hfield s hentry now with ⟨hnone, -⟩ | ⟨-, fault', hfault', rng, hr⟩
  · rw [hnone] at hfault
    exact absurd hfault (Option.some_ne_none _).symm
  rw [hfault] at hfault'
  obtain rfl := Option.some.inj hfault'
  unfold Meant
  rw [hr]
  simp only [List.getElem?_set_self hlt, Option.some.injEq, exists_eq_left']
  obtain ⟨-, -, ⟨hparity, hafter, -, hescape⟩ | ⟨hparity, hone, hafter, -, hescape⟩ |
    ⟨hparity, hone, hafter, -, hescape⟩⟩ := corruptPfn_cases ({ s with rng := rng } : CHAOSArmTLB cfg) entry fault
  · rw [hafter, hescape]
    simp [hvalid, hparity]
  · have hchanges : fault.apply entry.pfn ≠ entry.pfn := by
      intro hsame
      rw [hzero.2 hsame.symm] at hone
      exact absurd hone (by decide)
    rw [hafter, hescape]
    simp [hparity, hone, hchanges]
  · have hbits : fault.apply entry.pfn ≠ entry.pfn → 2 ≤ ones (entry.pfn ^^^ fault.apply entry.pfn) := by
      intro hne
      have hpos : ones (entry.pfn ^^^ fault.apply entry.pfn) ≠ 0 := fun h => hne (hzero.1 h).symm
      omega
    rw [hafter, hescape]
    constructor
    · rintro ⟨⟨-, hne⟩ | ⟨-, hone', -⟩, -⟩
      · exact hne
      · exact absurd hone' hone
    · intro hne
      exact ⟨.inl ⟨hvalid, hne⟩, fun _ => hbits hne⟩

/-- A call that counts a fault in the page frame number of a valid entry has put in a fault, and the fault leaves behind
what it is meant to exactly if it changes the frame. -/
theorem pfn_fault_iff (hfield : OnPfn cfg) (s : CHAOSArmTLB cfg) (table : List TlbEntry) (self now : Nat)
    (entry : TlbEntry) (hentry : table[self]? = some entry) (hvalid : entry.valid = true)
    (hcount : (maybeCorrupt s table self now).2.numFaultsInjected ≠ s.numFaultsInjected) :
    ∃ fault, pfnFault s table self entry now = some fault ∧
      (Meant s table self now entry fault ↔ fault.Changes entry.pfn) := by
  rcases maybeCorrupt_pfn hfield s hentry now with ⟨-, rng, hr⟩ | ⟨-, fault, hfault, -⟩
  · rw [hr] at hcount
    exact absurd rfl hcount
  · exact ⟨fault, hfault, meant_iff hfield hentry hvalid hfault⟩

theorem pfnFault_changes (hmode : ¬(cfg.pfn_select_mode = .mapped_page ∧ cfg.target_field = .pfn))
    (hkind : (cfg.pfn_offset ≠ 0 ∧ cfg.target_field = .pfn) ∨ cfg.fault_type_enum = .BitFlip) {s : CHAOSArmTLB cfg} {self now : Nat} {fault : PfnFault}
    (hfault : pfnFault s table self entry now = some fault) (pfn : BitVec 64) : fault.Changes pfn := by
  unfold pfnFault choosePfnFault at hfault
  rw [if_neg hmode] at hfault
  split at hfault
  case isFalse => exact absurd hfault (Option.some_ne_none _).symm
  by_cases hoffset : cfg.pfn_offset ≠ 0 ∧ cfg.target_field = .pfn
  · rw [dif_pos hoffset] at hfault
    obtain rfl := Option.some.inj hfault
    trivial
  · have hflip : cfg.fault_type_enum = .BitFlip := hkind.resolve_left hoffset
    have hchosen : ∀ rng, cfg.fault_type_enum.choose cfg.random_fault_distribution rng = (.BitFlip, rng) := by
      intro rng
      rw [hflip]
      rfl
    rw [dif_neg hoffset] at hfault
    dsimp only at hfault
    rw [hchosen] at hfault
    split at hfault
    · exact absurd hfault (Option.some_ne_none _).symm
    · obtain rfl := Option.some.inj hfault
      trivial

def everyHit (fault_type : FaultType) (fault_mask : BitVec 64) (mode : PfnSelectMode) : TlbConfig where
  probability := 1
  fault_type_enum := fault_type
  fault_mask := fault_mask
  num_bits_to_change := 1
  target_field := .pfn
  pfn_offset := 0
  pfn_select_mode := mode
  protection_model := .ParityInterleaved
  first_tick := 0
  last_tick := 0
  max_faults := 0
  uniform := fun _ => 0
  random_fault_distribution := Mem.firstType

def page (pfn : BitVec 64) : TlbEntry := ⟨pfn, 0xfff, 0, 0, 0, 0, false, true⟩

/-- Two bits of the frame are flipped. -/
theorem pfn_fault_flip :
    (page 4).valid = true ∧
    ∃ fault, pfnFault (init (everyHit .BitFlip 3 .bit_flip) id) [page 4] 0 (page 4) 0 = some fault ∧
      (Meant (init (everyHit .BitFlip 3 .bit_flip) id) [page 4] 0 0 (page 4) fault ↔ fault.Changes (page 4).pfn) :=
  ⟨rfl, pfn_fault_iff (.inl rfl) _ _ _ _ _ rfl rfl (by decide +kernel)⟩

/-- A bit that is stuck at its own value, and an entry that gets its own frame from an alias, are counted as faults that
have escaped the parity, although nothing has changed. -/
theorem unchanged_frame_escapes :
    (let r := maybeCorrupt (init (everyHit .StuckAtZero 1 .bit_flip) id) [page 4] 0 0
     r.1 = [page 4] ∧ r.2.numFaultsInjected = 1 ∧ r.2.numParitySilentEscape = 1) ∧
    (let r := maybeCorrupt (init (everyHit .BitFlip 1 .mapped_page) id) [page 4, page 4] 0 0
     r.1 = [page 4, page 4] ∧ r.2.numFaultsInjected = 1 ∧ r.2.numParitySilentEscape = 1) := by
  decide +kernel

/-! ### Counters -/

theorem maybeCorrupt_field (hfield : ¬OnPfn cfg) (s : CHAOSArmTLB cfg) (table : List TlbEntry) (self now : Nat) :
    (∃ rng, maybeCorrupt s table self now = (table, { s with rng := rng })) ∨
    (Open s now ∧ ∃ rng entry',
      maybeCorrupt s table self now = (table.set self entry', countInjected { s with rng := rng })) := by
  have hcorrupt : ∀ (t : CHAOSArmTLB cfg) (entry : TlbEntry), ∃ rng entry',
      corruptEntry t table self entry = (entry', countInjected { t with rng := rng }) := by
    intro t entry
    unfold corruptEntry
    cases h : cfg.target_field with
    | pfn => exact absurd (.inl h) hfield
    | other => exact absurd (.inr h) hfield
    | _ => exact ⟨_, _, rfl⟩
  unfold maybeCorrupt
  rcases table[self]? with _ | entry
  · exact .inl ⟨s.rng, rfl⟩
  rcases gate_cases s now with ⟨rng, hgate⟩ | ⟨hopen, rng, hgate⟩
  · rw [hgate]
    exact .inl ⟨rng, rfl⟩
  · obtain ⟨rng', entry', hr⟩ := hcorrupt { s with rng := rng } entry
    rw [hgate]
    refine .inr ⟨hopen, rng', entry', ?_⟩
    dsimp only
    rw [hr]
    rfl

/-- The two counters of the faults agree and stay in the budget, and the parity has found every fault in the page frame
number or let it escape. -/
structure Accounted (s : CHAOSArmTLB cfg) : Prop where
  count : s.faults_injected_count = s.numFaultsInjected
  budget : cfg.max_faults = 0 ∨ s.faults_injected_count ≤ cfg.max_faults
  parity : s.numParityDetectedInvalidated + s.numParitySilentEscape =
    if OnPfn cfg ∧ cfg.protection_model = .ParityInterleaved then s.numFaultsInjected else 0

theorem accounted_init (draw : Nat → Nat) : Accounted (init cfg draw) := ⟨rfl, .inr (Nat.zero_le _), (ite_self 0).symm⟩

theorem accounted_corruptPfn (hfield : OnPfn cfg) {s : CHAOSArmTLB cfg} (h : Accounted s) {now : Nat}
    (hopen : Open s now) (entry : TlbEntry) (fault : PfnFault) : Accounted (corruptPfn s entry fault).2 := by
  have hbudget : cfg.max_faults = 0 ∨ s.faults_injected_count + 1 ≤ cfg.max_faults := hopen.2.2.2
  have hsum := h.parity
  obtain ⟨hinjected, hcount, hcases⟩ := corruptPfn_cases s entry fault
  refine ⟨by rw [hcount, hinjected, h.count], by rwa [hcount], ?_⟩
  rcases hcases with ⟨hparity, -, hdetected, hescape⟩ | ⟨hparity, -, -, hdetected, hescape⟩ |
    ⟨hparity, -, -, hdetected, hescape⟩
  · rw [if_neg fun hand => hparity hand.2] at hsum ⊢
    rw [hdetected, hescape, hsum]
  · rw [if_pos ⟨hfield, hparity⟩] at hsum ⊢
    omega
  · rw [if_pos ⟨hfield, hparity⟩] at hsum ⊢
    omega

theorem accounted_maybeCorrupt {s : CHAOSArmTLB cfg} (h : Accounted s) (table : List TlbEntry) (self now : Nat) :
    Accounted (maybeCorrupt s table self now).2 := by
  by_cases hfield : OnPfn cfg
  · rcases hentry : table[self]? with _ | entry
    · have hnull : maybeCorrupt s table self now = (table, s) := by rw [maybeCorrupt, hentry]
      rw [hnull]
      exact h
    · rcases maybeCorrupt_pfn hfield s hentry now with ⟨-, rng, hr⟩ | ⟨hopen, fault, -, rng, hr⟩
      · rw [hr]
        exact ⟨h.count, h.budget, h.parity⟩
      · rw [hr]
        have hs : Accounted ({ s with rng := rng } : CHAOSArmTLB cfg) := ⟨h.count, h.budget, h.parity⟩
        have hopen' : Open ({ s with rng := rng } : CHAOSArmTLB cfg) now := hopen
        exact accounted_corruptPfn hfield hs hopen' entry fault
  · rcases maybeCorrupt_field hfield s table self now with ⟨rng, hr⟩ | ⟨hopen, rng, entry', hr⟩
    · rw [hr]
      exact ⟨h.count, h.budget, h.parity⟩
    · have hsum := h.parity
      rw [if_neg fun hand => hfield hand.1] at hsum
      rw [hr]
      refine ⟨congrArg (· + 1) h.count, hopen.2.2.2, ?_⟩
      rw [if_neg fun hand => hfield hand.1]
      exact hsum

end CHAOSArmTLB

/-! ### Runs -/

namespace Tlb

open CHAOSArmTLB

variable {cfg : TlbConfig}

theorem accounted_step {t : Tlb cfg} (h : Accounted t.chaosTLB) (e : TlbEvent) : Accounted (step t e).chaosTLB := by
  cases e with
  | insert self entry => exact h
  | lookup self now =>
    show Accounted (lookup t self now).chaosTLB
    unfold lookup
    split
    · split
      · exact accounted_maybeCorrupt h _ _ _
      · exact h
    · exact h

/-- In every run the faults stay in the budget, and the parity has found every fault in the page frame number or let it
escape. -/
theorem frame_faults_accounted (draw : Nat → Nat) (table : List TlbEntry) (es : List TlbEvent) :
    Accounted (run ⟨table, CHAOSArmTLB.init cfg draw⟩ es).chaosTLB :=
  List.foldlRecOn es step (motive := fun t => Accounted t.chaosTLB) (accounted_init draw) fun _ ht e _ =>
    accounted_step ht e

def Puts (t : Tlb cfg) (e : TlbEvent) (self now : Nat) (entry : TlbEntry) (fault : PfnFault) : Prop :=
  e = .lookup self now ∧ t.table[self]? = some entry ∧ entry.valid = true ∧
    pfnFault t.chaosTLB t.table self entry now = some fault

theorem run_meant_iff (hfield : OnPfn cfg) (t : Tlb cfg) (es : List TlbEvent) :
    Along step (fun t e => ∀ self now entry fault, Puts t e self now entry fault →
      Meant t.chaosTLB t.table self now entry fault) t es ↔
    Along step (fun t e => ∀ self now entry fault, Puts t e self now entry fault → fault.Changes entry.pfn) t es := by
  refine Along.congr_of_invariant (I := fun _ => True) (fun t e _ => ⟨?_, fun _ => trivial⟩) trivial es
  have hiff : ∀ self now entry fault, Puts t e self now entry fault →
      (Meant t.chaosTLB t.table self now entry fault ↔ fault.Changes entry.pfn) := by
    rintro self now entry fault ⟨-, hentry, hvalid, hfault⟩
    exact meant_iff hfield hentry hvalid hfault
  constructor
  · intro h self now entry fault hputs
    exact (hiff self now entry fault hputs).1 (h self now entry fault hputs)
  · intro h self now entry fault hputs
    exact (hiff self now entry fault hputs).2 (h self now entry fault hputs)

/-- In a run with faults by an offset or with bit flips, every fault leaves behind what it is meant to. -/
theorem run_meant (hfield : OnPfn cfg)
    (hmode : ¬(cfg.pfn_select_mode = .mapped_page ∧ cfg.target_field = .pfn))
    (hkind : (cfg.pfn_offset ≠ 0 ∧ cfg.target_field = .pfn) ∨ cfg.fault_type_enum = .BitFlip) (t : Tlb cfg)
    (es : List TlbEvent) :
    Along step (fun t e => ∀ self now entry fault, Puts t e self now entry fault →
      Meant t.chaosTLB t.table self now entry fault) t es := by
  rw [run_meant_iff hfield]
  refine Along.of_invariant (I := fun _ => True) (fun t e _ => ⟨?_, trivial⟩) trivial es
  rintro self now entry fault ⟨-, -, -, hfault⟩
  exact pfnFault_changes hmode hkind hfault entry.pfn

theorem run_meant_flip : Along step (fun t e => ∀ self now entry fault, Puts t e self now entry fault →
    Meant t.chaosTLB t.table self now entry fault)
    (⟨[page 4], .init (everyHit .BitFlip 3 .bit_flip) id⟩ : Tlb _) [.lookup 0 0, .lookup 0 1] :=
  run_meant (.inl rfl) (by decide) (.inr rfl) _ _

end Tlb

end GemFI.Arm
