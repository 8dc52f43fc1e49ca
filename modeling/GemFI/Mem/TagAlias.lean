import GemFI.Mem.CHAOSCache

/-!
# False hits

A tag fault registers a victim way and an alias way of a set, and lookups that match the victim way are diverted to the
alias way.  The injector does not remember the tag of the victim, so a line that has replaced it is diverted as well:
a lookup is diverted only while the victim holds the tag of the injection exactly if, whenever both ways are valid, it
does (`diverts_injected_only_iff`).
-/

namespace GemFI.Mem

open CHAOSCache

variable {cfg : CacheConfig}

/-! ### Lookups -/

def CHAOSCache.attached (cfg : CacheConfig) : Bool :=
  decide (cfg.target_field = .tag ∨ cfg.target_field = .tag_to_legal)

/-- The block to serve instead of the matched one, if the matched one is the victim and the alias is valid. -/
def CHAOSCache.chaosDivertFindBlock (s : CHAOSCache cfg) (blk : Pos cfg.toGeometry)
    (entries : List (Pos cfg.toGeometry)) : Option (Pos cfg.toGeometry) :=
  match s.tag_alias with
  | none => none
  | some a =>
    if blk.1 ≠ a.tag_alias_set ∨ blk.2 ≠ a.victim_way then none
    else entries.find? fun b => decide (b.2 = a.alias_way) && s.cache.isValid b

/-- `BaseTags::findBlock`. -/
def CHAOSCache.findBlock (s : CHAOSCache cfg) (key : Key) : Option (Pos cfg.toGeometry) :=
  match s.cache.findMatch key with
  | none => none
  | some blk =>
    if attached cfg && s.cache.isValid blk then
      match s.chaosDivertFindBlock blk (cfg.toGeometry.getPossibleEntries key) with
      | some div => some div
      | none => some blk
    else some blk

def AliasOk (s : CHAOSCache cfg) : Prop :=
  ∀ a, s.tag_alias = some a → a.alias_way ≠ a.victim_way ∧ attached cfg = true

private theorem find_alias (s : CHAOSCache cfg) (key : Key) (w : Fin cfg.assoc) :
    ((cfg.toGeometry.getPossibleEntries key).find? fun b => decide (b.2 = w) && s.cache.isValid b) =
      if s.cache.isValid (cfg.toGeometry.extractSet key.address, w) then
        some (cfg.toGeometry.extractSet key.address, w) else none := by
  have hways : ∀ p : Pos cfg.toGeometry, p ∈ cfg.toGeometry.getPossibleEntries key ↔
      p.1 = cfg.toGeometry.extractSet key.address := by
    rintro ⟨set, way⟩
    simp [Geometry.getPossibleEntries, eq_comm]
  split
  · rename_i hvalid
    have hsome : ((cfg.toGeometry.getPossibleEntries key).find? fun b =>
        decide (b.2 = w) && s.cache.isValid b).isSome :=
      List.find?_isSome.2 ⟨(cfg.toGeometry.extractSet key.address, w), (hways _).2 rfl, by simp [hvalid]⟩
    obtain ⟨q, hq⟩ := Option.isSome_iff_exists.1 hsome
    have hway := List.find?_some hq
    have hset := (hways q).1 (List.mem_of_find?_eq_some hq)
    simp only [Bool.and_eq_true, decide_eq_true_eq] at hway
    rw [hq, ← hset, ← hway.1]
  · rename_i hvalid
    refine List.find?_eq_none.2 fun p hp hpred => hvalid ?_
    simp only [Bool.and_eq_true, decide_eq_true_eq] at hpred
    rw [← (hways p).1 hp, ← hpred.1]
    exact hpred.2

variable {s : CHAOSCache cfg}

theorem findBlock_victim {a : TagAlias cfg.toGeometry} (ha : s.tag_alias = some a) (hattached : attached cfg = true)
    {key : Key} (hmatch : s.cache.findMatch key = some (a.tag_alias_set, a.victim_way)) :
    s.findBlock key = if s.cache.isValid (a.tag_alias_set, a.alias_way) then some (a.tag_alias_set, a.alias_way)
      else some (a.tag_alias_set, a.victim_way) := by
  obtain ⟨hset, hkey⟩ := (s.cache.findMatch_eq_some_iff key _).1 hmatch
  simp only at hset
  have hvalid : s.cache.isValid (a.tag_alias_set, a.victim_way) = true := by
    simp [Cache.isValid, of_decide_eq_true hkey]
  have hfind := find_alias s key a.alias_way
  rw [← hset] at hfind
  simp only [CHAOSCache.findBlock, hmatch, hattached, hvalid, Bool.and_self, ↓reduceIte,
    CHAOSCache.chaosDivertFindBlock, ha, ne_eq, not_true_eq_false, or_self, hfind]
  cases s.cache.isValid (a.tag_alias_set, a.alias_way) <;> rfl

theorem findBlock_other {key : Key} {blk : Pos cfg.toGeometry} (hmatch : s.cache.findMatch key = some blk)
    (hother : ∀ a, s.tag_alias = some a → blk ≠ (a.tag_alias_set, a.victim_way)) : s.findBlock key = some blk := by
  have hdivert : s.chaosDivertFindBlock blk (cfg.toGeometry.getPossibleEntries key) = none := by
    unfold CHAOSCache.chaosDivertFindBlock
    cases ha : s.tag_alias with
    | none => rfl
    | some a =>
      have hne := hother a ha
      have hcond : blk.1 ≠ a.tag_alias_set ∨ blk.2 ≠ a.victim_way := by
        by_contra hboth
        rw [not_or, not_not, not_not] at hboth
        exact hne (Prod.ext hboth.1 hboth.2)
      exact if_pos hcond
  simp [CHAOSCache.findBlock, hmatch, hdivert]

/-! ### The registered alias in a run -/

private theorem corruptByte_alias (s : CHAOSCache cfg) (blk : Pos cfg.toGeometry)
    (partner : Option (Pos cfg.toGeometry)) (ty : FaultType) (mask : BitVec 8) (off : Nat) :
    (corruptByte s blk partner ty mask off).tag_alias = s.tag_alias := by
  have hcount : (countOutcome (countFault s (s.cache.regenerateBlkAddr blk, off) ty mask)
      (outcome cfg.protection_model mask)).tag_alias = s.tag_alias := by
    rw [(countOutcome_frame ..).2.2.1, (countFault_frame ..).2.2.1]
  cases partner with
  | none => exact hcount
  | some q => exact hcount

private theorem corruptBytes_alias (blk : Pos cfg.toGeometry) (partner : Option (Pos cfg.toGeometry)) (ty : FaultType)
    (rounds : Nat) (s : CHAOSCache cfg) : (corruptBytes blk partner ty rounds s).tag_alias = s.tag_alias := by
  refine corruptBytes_keeps tag_alias (fun _ _ => rfl) (fun s mask off => ?_) (fun s mask off => corruptByte_alias ..)
    rounds s
  dsimp only [corruptField]

private theorem reschedule_alias (s : CHAOSCache cfg) (now : Nat) : (reschedule s now).tag_alias = s.tag_alias := by
  unfold reschedule scheduleAttack
  dsimp only
  repeat' split
  all_goals rfl

private theorem checkPermanent_alias (s : CHAOSCache cfg) : (checkPermanent s).tag_alias = s.tag_alias := by
  unfold checkPermanent
  refine List.foldlRecOn (motive := fun t => t.tag_alias = s.tag_alias) s.permanent_faults.entries reapplyEntry
    rfl fun t ht entry _ => ?_
  unfold reapplyEntry
  repeat' split
  all_goals exact ht

private theorem writeback_alias (s : CHAOSCache cfg) (now : Nat) (payload : List (BitVec 8)) :
    (chaosCorruptWriteback s now payload).2.tag_alias = s.tag_alias := by
  obtain ⟨rng, hrng | ⟨hfault, -, -⟩⟩ := chaosCorruptWriteback_spec s now payload
  · rw [hrng]
  · rw [hfault]
    rfl

private theorem getD_mem {α : Type} (x : α) (l : List α) (i : Nat) : (x :: l).getD i x ∈ x :: l := by
  rw [List.getD_eq_getElem?_getD]
  cases hi : (x :: l)[i]? with
  | none => exact List.mem_cons_self
  | some y => exact List.mem_of_getElem? hi

private theorem pickSameSetAliasWay_ne {blk : Pos cfg.toGeometry} {w : Fin cfg.assoc} {rng : Rng}
    (h : pickSameSetAliasWay s blk = (some w, rng)) : w ≠ blk.2 := by
  obtain ⟨ways, hways⟩ : ∃ ways, ways = (s.cache.validBlocks.filter fun b => b.1 = blk.1 ∧ b.2 ≠ blk.2).map (·.2) :=
    ⟨_, rfl⟩
  have hne : ∀ v ∈ ways, v ≠ blk.2 := by
    intro v hv
    rw [hways] at hv
    obtain ⟨b, hb, rfl⟩ := List.mem_map.1 hv
    exact (of_decide_eq_true (List.mem_filter.1 hb).2).2
  unfold pickSameSetAliasWay at h
  dsimp only at h
  rw [← hways] at h
  rcases ways with _ | ⟨v, rest⟩
  · exact absurd (Prod.mk.inj h).1 (by simp)
  · have hw := Option.some.inj (Prod.mk.inj h).1
    rw [← hw]
    exact hne _ (getD_mem v rest _)

private theorem registerAlias_ok (h : AliasOk s) (hattached : attached cfg = true) (blk : Pos cfg.toGeometry)
    {count : CHAOSCache cfg → CHAOSCache cfg} (hcount : ∀ t, (count t).tag_alias = t.tag_alias) :
    AliasOk (registerAlias s blk count) := by
  unfold registerAlias
  split
  · exact h
  · rename_i w rng hpick
    intro a ha
    have ha' : some _ = some a := (hcount _).symm.trans ha
    have heq := Option.some.inj ha'
    subst heq
    exact ⟨pickSameSetAliasWay_ne hpick, hattached⟩

private theorem injectMetadataFault_ok (h : AliasOk s) (blk : Pos cfg.toGeometry) :
    AliasOk (injectMetadataFault s blk) := by
  unfold injectMetadataFault
  split
  · rename_i hfield
    exact registerAlias_ok h (by simp [attached, hfield]) blk fun _ => rfl
  · rename_i hfield
    exact registerAlias_ok h (by simp [attached, hfield]) blk fun _ => rfl
  · exact h
  · exact h
  · split
    · exact h
    · exact h
  · unfold clearPermission
    dsimp only
    split
    · exact h
    · exact h
  · exact h

private theorem aliasOk_of_eq {s t : CHAOSCache cfg} (h : AliasOk s) (heq : t.tag_alias = s.tag_alias) : AliasOk t :=
  fun a ha => h a (heq ▸ ha)

private theorem injectFault_ok (h : AliasOk s) (now : Nat) : AliasOk (injectFault s now) := by
  unfold injectFault
  split
  · exact aliasOk_of_eq h (reschedule_alias s now)
  · rename_i first rest _
    refine aliasOk_of_eq ?_ (reschedule_alias (attackBlock s first rest) now)
    unfold attackBlock
    dsimp only
    split
    · refine injectMetadataFault_ok ?_ _
      exact h
    · split
      · exact h
      · exact aliasOk_of_eq h (corruptBytes_alias ..)

theorem aliasOk_step (h : AliasOk s) (e : Event cfg) : AliasOk (step s e) := by
  cases e with
  | attack =>
    unfold step
    cases s.attackEvent with
    | none => exact h
    | some now =>
      refine injectFault_ok ?_ now
      exact h
  | check =>
    unfold step
    cases s.periodicCheck with
    | none => exact h
    | some now => exact aliasOk_of_eq h (checkPermanent_alias _)
  | writeback now payload => exact aliasOk_of_eq h (writeback_alias s now payload)
  | fill blk key data =>
    by_cases hfill : s.cache.CanFill blk key
    · exact aliasOk_of_eq h (by simp [step, hfill])
    · exact aliasOk_of_eq h (by simp [step, hfill])
  | invalidate blk => exact h
  | setCoherence blk dirty writable readable => exact h
  | store blk off value => exact h

theorem aliasOk_run (cfg : CacheConfig) (cache : Cache cfg.toGeometry) (draw : Nat → Nat) (es : List (Event cfg)) :
    AliasOk (run (init cfg cache draw) es) := by
  have hinit : (init cfg cache draw).tag_alias = none := by
    by_cases hvictim : cfg.target_field = .victim <;>
      simp [init, scheduleAttack, scheduleCheckPermanentFault, hvictim]
  have h0 : AliasOk (init cfg cache draw) := by
    intro a ha
    rw [hinit] at ha
    exact absurd ha (by simp)
  exact List.foldlRecOn es step h0 fun s hs e _ => aliasOk_step hs e

/-! ### Diverted lookups -/

/-- Every lookup is served by the block it matches, or that block is the victim and holds the tag of the injection. -/
def DivertsInjectedOnly (s : CHAOSCache cfg) : Prop :=
  ∀ key blk, s.cache.findMatch key = some blk → s.findBlock key = some blk ∨
    ∃ a, s.tag_alias = some a ∧ blk = (a.tag_alias_set, a.victim_way) ∧ (s.cache.entry blk).map (·.tag) = a.victimTag

/-- While the alias way is valid, no line with another tag is in the victim way. -/
def VictimUnreplaced (s : CHAOSCache cfg) : Prop :=
  ∀ a, s.tag_alias = some a → s.cache.isValid (a.tag_alias_set, a.alias_way) = true →
    ∀ e, s.cache.entry (a.tag_alias_set, a.victim_way) = some e → some e.tag = a.victimTag

private theorem findMatch_entry (c : Cache cfg.toGeometry) {p : Pos cfg.toGeometry} {e : Entry}
    (he : c.entry p = some e) :
    c.findMatch ⟨cfg.toGeometry.regenerateAddr e.tag p.1, e.secure⟩ = some p := by
  obtain ⟨htag, hset⟩ := cfg.toGeometry.extract_regenerate e.tag p.1
  rw [c.findMatch_eq_some_iff]
  refine ⟨hset.symm, ?_⟩
  simp [Cache.hasKey, htag, he]

/-- After every run of attacks, fills, invalidations and other events, lookups are diverted only while the victim way
holds the tag it had at the injection exactly if no line with another tag is in the victim way while the alias way is
valid. -/
theorem diverts_injected_only_iff (cfg : CacheConfig) (cache : Cache cfg.toGeometry) (draw : Nat → Nat)
    (es : List (Event cfg)) :
    DivertsInjectedOnly (run (init cfg cache draw) es) ↔ VictimUnreplaced (run (init cfg cache draw) es) := by
  have hok := aliasOk_run cfg cache draw es
  obtain ⟨s, hs⟩ : ∃ s, s = run (init cfg cache draw) es := ⟨_, rfl⟩
  rw [← hs] at hok ⊢
  constructor
  · intro h a ha hvalid e he
    obtain ⟨hne, hattached⟩ := hok a ha
    have hmatch := findMatch_entry s.cache he
    have hfind := findBlock_victim ha hattached hmatch
    rw [if_pos hvalid] at hfind
    rcases h _ _ hmatch with hserved | ⟨a', ha', -, htag⟩
    · rw [hfind] at hserved
      exact absurd (Prod.mk.inj (Option.some.inj hserved)).2 hne
    · rw [ha] at ha'
      rw [Option.some.inj ha', ← htag, he]
      rfl
  · intro h key blk hmatch
    by_cases hvictim : ∃ a, s.tag_alias = some a ∧ blk = (a.tag_alias_set, a.victim_way)
    · obtain ⟨a, ha, rfl⟩ := hvictim
      rw [findBlock_victim ha (hok a ha).2 hmatch]
      cases hvalid : s.cache.isValid (a.tag_alias_set, a.alias_way) with
      | false => exact Or.inl rfl
      | true =>
        obtain ⟨-, hkey⟩ := (s.cache.findMatch_eq_some_iff key _).1 hmatch
        have he := of_decide_eq_true hkey
        exact Or.inr ⟨a, ha, rfl, by rw [he]; exact h a ha hvalid _ he⟩
    · left
      exact findBlock_other hmatch fun a ha heq => hvictim ⟨a, ha, heq⟩

def twoWays : CacheConfig := { oneBlock with assoc := 2, target_field := .tag }

/-- The lines 0 and 4 are in the two ways, and a tag fault registers the first as the victim.  Line 8 replaces it; a
lookup of line 8, which is in the first way, is served by line 4 in the second. -/
theorem replaced_victim_diverted :
    let first : Pos twoWays.toGeometry := (⟨0, by decide⟩, ⟨0, by decide⟩)
    let second : Pos twoWays.toGeometry := (⟨0, by decide⟩, ⟨1, by decide⟩)
    let s := run (init twoWays (.empty _) fun _ => 0)
      [.fill first ⟨0, false⟩ fun _ => 0, .fill second ⟨4, false⟩ fun _ => 0, .attack, .invalidate first,
        .fill first ⟨8, false⟩ fun _ => 0]
    s.tag_alias = some ⟨⟨0, by decide⟩, ⟨0, by decide⟩, ⟨1, by decide⟩, some 0⟩ ∧
    s.cache.findMatch ⟨8, false⟩ = some first ∧ s.cache.entry first = some ⟨2, false⟩ ∧
    s.findBlock ⟨8, false⟩ = some second := by
  decide

end GemFI.Mem
