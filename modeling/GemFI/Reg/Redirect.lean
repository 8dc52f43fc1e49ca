import GemFI.Reg.CHAOSRenameMap

/-!
# Where a fault of CHAOSRenameMap redirects a register to

A fault that is counted has set the entry of its architectural register and no other one (`inject_frontRenameMap`), to
a physical register of the class (`chooseNew_spec`).  It differs from the old one, unless the mask is configured and
has none of the 32 bits that the flip of an `int` sees: then the fault is counted and the mapping is what it was.
-/

namespace GemFI.Reg.CHAOSRenameMap

variable {cfg : RenameMapConfig}

def ValidMap (cfg : RenameMapConfig) (front : RenameMap) : Prop :=
  ∀ tid cls arch_idx phys, front tid cls arch_idx = some phys → phys < cfg.numPhysRegs cls

/-- The flip of the mode `MapBitFlip` sees the mask: the low 32 bits of a configured mask are not all clear. -/
def MaskSeen (cfg : RenameMapConfig) : Prop :=
  cfg.fi_mode = .MapBitFlip → cfg.fault_mask = 0 ∨ cfg.fault_mask.setWidth 32 ≠ 0

instance (cfg : RenameMapConfig) : Decidable (MaskSeen cfg) := inferInstanceAs (Decidable (_ → _))

/-- The targeted architectural register has another physical register of its class than before, and all others have the
one they had. -/
def Redirects (cfg : RenameMapConfig) (before after : RenameMap) (tid arch_idx : Nat) : Prop :=
  (∃ old new, before tid cfg.target_class arch_idx = some old ∧ after tid cfg.target_class arch_idx = some new ∧
    new < cfg.numPhysRegs cfg.target_class ∧ new ≠ old) ∧
  ∀ t c a, ¬(t = tid ∧ c = cfg.target_class ∧ a = arch_idx) → after t c a = before t c a

/-! ### The choice of the new register -/

private theorem chooseMask_low_iff (s : CHAOSRenameMap cfg) :
    (chooseMask s).1.setWidth 32 ≠ 0 ↔ cfg.fault_mask = 0 ∨ cfg.fault_mask.setWidth 32 ≠ 0 := by
  unfold chooseMask
  split
  · next hmask =>
    have hlow : ∀ bit < 8, (1#64 <<< bit).setWidth 32 ≠ 0#32 := by decide
    exact iff_of_true (hlow _ (Nat.mod_lt _ (by decide))) (.inl hmask)
  · next hmask => exact (or_iff_right hmask).symm

private theorem flipIdx_ne {old : Nat} {mask : BitVec 64} (hold : old < 2 ^ 31) (h0 : 0 ≤ flipIdx old mask) :
    (flipIdx old mask).toNat ≠ old ↔ mask.setWidth 32 ≠ 0 := by
  have hto : (BitVec.ofNat 32 old).toNat = old := by
    rw [BitVec.toNat_ofNat]
    omega
  have hflip : (flipIdx old mask).toNat = (BitVec.ofNat 32 old ^^^ mask.setWidth 32).toNat := by
    unfold flipIdx at h0 ⊢
    rw [BitVec.toInt_eq_toNat_cond] at h0 ⊢
    split at h0 <;> omega
  rw [hflip, not_iff_not]
  constructor
  · intro h
    have hx : BitVec.ofNat 32 old ^^^ mask.setWidth 32 = BitVec.ofNat 32 old := BitVec.eq_of_toNat_eq (h.trans hto.symm)
    have hself := congrArg (BitVec.ofNat 32 old ^^^ ·) hx
    simpa [← BitVec.xor_assoc] using hself
  · intro h
    rw [h]
    exact (congrArg BitVec.toNat BitVec.xor_zero).trans hto

private theorem findDonor_spec {s : CHAOSRenameMap cfg} {tid arch_idx old pp tries : Nat} {rng rng' : Mem.Rng}
    (h : findDonor s tid arch_idx old tries rng = (some pp, rng')) :
    pp ≠ old ∧ ∃ donor, s.lookup tid donor = some pp := by
  induction tries generalizing rng with
  | zero => cases h
  | succ tries ih =>
    rw [findDonor] at h
    split at h
    · exact ih h
    · split at h
      · exact ih h
      · next pp' hpp' =>
        split at h
        · next hne =>
          obtain rfl : pp' = pp := Option.some.inj (Prod.mk.inj h).1
          exact ⟨hne, _, hpp'⟩
        · exact ih h

section Choice

variable {s : CHAOSRenameMap cfg} {tid arch_idx old new : Nat} {mask : BitVec 64} {rng : Mem.Rng}

private theorem chooseNew_flip (hmode : cfg.fi_mode = .MapBitFlip)
    (h : chooseNew s tid arch_idx old = (some (new, mask), rng)) :
    0 ≤ flipIdx old (chooseMask s).1 ∧ flipIdx old (chooseMask s).1 < cfg.numPhysRegs cfg.target_class ∧
      (flipIdx old (chooseMask s).1).toNat = new := by
  unfold chooseNew at h
  rw [hmode] at h
  dsimp only at h
  split at h
  · cases h
  · next hrange =>
    obtain ⟨h0, hn⟩ := not_or.1 hrange
    exact ⟨by omega, by omega, (Prod.mk.inj (Option.some.inj (Prod.mk.inj h).1)).1⟩

private theorem chooseNew_donor (hvalid : ValidMap cfg s.frontRenameMap) (hmode : cfg.fi_mode ≠ .MapBitFlip)
    (h : chooseNew s tid arch_idx old = (some (new, mask), rng)) :
    new < cfg.numPhysRegs cfg.target_class ∧ new ≠ old := by
  obtain ⟨r, hfind⟩ : ∃ r, findDonor s tid arch_idx old (cfg.numArchRegs tid cfg.target_class) s.rng = r := ⟨_, rfl⟩
  have hchoose : chooseNew s tid arch_idx old = (r.1.map fun pp => (pp, 0), r.2) := by
    unfold chooseNew
    rw [← hfind]
    cases hm : cfg.fi_mode with
    | MapBitFlip => exact absurd hm hmode
    | _ => rfl
  rw [hchoose] at h
  obtain ⟨donor, rng'⟩ := r
  cases donor with
  | none => cases h
  | some pp =>
    obtain ⟨hne, donor, hdonor⟩ := findDonor_spec hfind
    obtain rfl : pp = new := (Prod.mk.inj (Option.some.inj (Prod.mk.inj h).1)).1
    exact ⟨hvalid _ _ _ _ hdonor, hne⟩

theorem chooseNew_spec (hfit : ∀ cls, cfg.numPhysRegs cls ≤ 2 ^ 31) (hvalid : ValidMap cfg s.frontRenameMap)
    (hold : s.lookup tid arch_idx = some old) (h : chooseNew s tid arch_idx old = (some (new, mask), rng)) :
    new < cfg.numPhysRegs cfg.target_class ∧ (new ≠ old ↔ MaskSeen cfg) := by
  have hlt : old < 2 ^ 31 := Nat.lt_of_lt_of_le (hvalid _ _ _ _ hold) (hfit _)
  by_cases hmode : cfg.fi_mode = .MapBitFlip
  · obtain ⟨h0, hn, rfl⟩ := chooseNew_flip hmode h
    refine ⟨by omega, ?_⟩
    rw [flipIdx_ne hlt h0, chooseMask_low_iff]
    exact ⟨fun hseen _ => hseen, fun hseen => hseen hmode⟩
  · obtain ⟨hclass, hne⟩ := chooseNew_donor hvalid hmode h
    exact ⟨hclass, iff_of_true hne fun h => absurd h hmode⟩

end Choice

/-! ### A counted fault -/

theorem inject_frontRenameMap (s : CHAOSRenameMap cfg) (r : Redirected) (now : Nat) :
    (inject s r now).frontRenameMap = (setEntry s r.arch.tid r.arch.arch_idx r.new_phys_idx).frontRenameMap := by
  unfold inject arm countMode
  dsimp only
  cases cfg.fi_mode <;> split <;> rfl

theorem counted_fault {s : CHAOSRenameMap cfg} {tid now : Nat}
    (h : (processFault s tid now).faults_injected_count ≠ s.faults_injected_count) :
    ∃ arch_idx old new mask rng rng', chooseArch s tid = (some arch_idx, rng) ∧ s.lookup tid arch_idx = some old ∧
      chooseNew { s with rng := rng } tid arch_idx old = (some (new, mask), rng') ∧
      processFault s tid now =
        inject { s with rng := rng' } ⟨⟨tid, cfg.target_class, arch_idx⟩, old, new, mask⟩ now := by
  unfold processFault at h ⊢
  dsimp only at h ⊢
  split at h
  · exact absurd rfl h
  · split at h
    · exact absurd rfl h
    · split at h
      · exact absurd rfl h
      · split at h
        · exact absurd rfl h
        · next arch_idx harch =>
          split at h
          · exact absurd rfl h
          · next old hold =>
            split at h
            · exact absurd rfl h
            · next new mask hnew =>
              rw [if_neg ‹_›, if_neg ‹_›, if_neg ‹_›]
              exact ⟨arch_idx, old, new, mask, _, _, Prod.ext harch rfl, hold, Prod.ext hnew rfl, rfl⟩

/-- A fault that is counted redirects its target, and nothing else, exactly if the mask is seen.  The index of a physical
register is a 16-bit number, so it fits an `int`. -/
theorem redirects_iff (hfit : ∀ cls, cfg.numPhysRegs cls ≤ 2 ^ 31) {s : CHAOSRenameMap cfg} {tid now : Nat}
    (hvalid : ValidMap cfg s.frontRenameMap)
    (hcounted : (processFault s tid now).faults_injected_count ≠ s.faults_injected_count) :
    ∃ arch_idx, (chooseArch s tid).1 = some arch_idx ∧
      (Redirects cfg s.frontRenameMap (processFault s tid now).frontRenameMap tid arch_idx ↔ MaskSeen cfg) := by
  obtain ⟨arch_idx, old, new, mask, rng, rng', harch, hold, hnew, heq⟩ := counted_fault hcounted
  obtain ⟨hlt, hne⟩ := chooseNew_spec (s := { s with rng := rng }) hfit hvalid hold hnew
  refine ⟨arch_idx, by rw [harch], ?_⟩
  rw [heq, inject_frontRenameMap, ← hne]
  have hself : (setEntry { s with rng := rng' } tid arch_idx new).frontRenameMap tid cfg.target_class arch_idx =
      some new := if_pos ⟨rfl, rfl, rfl⟩
  constructor
  · rintro ⟨⟨old', new', hold', hnew', -, hne'⟩, -⟩
    obtain rfl : old = old' := Option.some.inj (hold.symm.trans hold')
    obtain rfl : new = new' := Option.some.inj (hself.symm.trans hnew')
    exact hne'
  · intro hne
    exact ⟨⟨old, new, hold, hself, hlt, hne⟩, fun t c a h => if_neg h⟩

def highMask : RenameMapConfig := { twoArchRegs .MapBitFlip .Integer with fault_mask := 0x100000000 }

/-- The lowest bit of the index is flipped: the register 0 is mapped to 1, and the register 1 is not touched. -/
theorem redirects_low :
    let s := twoMapped (twoArchRegs .MapBitFlip .Integer)
    (processFault s 0 0).faults_injected_count = 1 ∧ (chooseArch s 0).1 = some 0 ∧
    Redirects (twoArchRegs .MapBitFlip .Integer) s.frontRenameMap (processFault s 0 0).frontRenameMap 0 0 := by
  intro s
  have hvalid : ValidMap (twoArchRegs .MapBitFlip .Integer) s.frontRenameMap := by
    intro tid cls arch_idx phys h
    have hmap : (if arch_idx < 2 then some arch_idx else none) = some phys := h
    split at hmap
    · next harch =>
      cases Option.some.inj hmap
      exact Nat.lt_trans harch (show 2 < 4 by decide)
    · cases hmap
  have hcount : (processFault s 0 0).faults_injected_count = 1 := by decide
  have hne : (processFault s 0 0).faults_injected_count ≠ s.faults_injected_count := by decide
  obtain ⟨arch_idx, harch, hiff⟩ := redirects_iff (fun _ => show 4 ≤ 2 ^ 31 by decide) hvalid hne
  obtain rfl : arch_idx = 0 := Option.some.inj (harch.symm.trans (by decide))
  exact ⟨hcount, harch, hiff.2 (by decide)⟩

/-- The fault is counted, and the register 0 is mapped to the register 0 as before. -/
theorem counted_not_redirected :
    (processFault (twoMapped highMask) 0 0).faults_injected_count = 1 ∧
    (processFault (twoMapped highMask) 0 0).numMapBitFlips = 1 ∧
    (twoMapped highMask).lookup 0 0 = some 0 ∧ (processFault (twoMapped highMask) 0 0).lookup 0 0 = some 0 := by
  decide

end GemFI.Reg.CHAOSRenameMap
