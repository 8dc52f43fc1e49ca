import GemFI.Lib.Table
import GemFI.Mem.Fault
import GemFI.Mem.Tags
import Mathlib.Algebra.Order.Ring.Int

/-!
# The cache injector CHAOSCache

The attack handler `injectFault` picks a valid block and corrupts bytes of it, a field of an instruction word in it or
its metadata; the writeback hook corrupts a payload on its way out; `checkPermanent` applies the table of stuck-at
faults again.

The configuration holds the values that the constructor has settled.  Block size and number of sets are powers of two
in the source, so shifts and masks are divisions.  The log is left out.
-/

namespace GemFI.Mem

/-- The field to corrupt; any other name counts as `opcode`. -/
inductive TargetField where
  | data | rd | rn | rm | opcode
  | tag | tag_to_legal | valid | dirty | repl | coh
  | victim
  deriving DecidableEq, Repr

inductive ProtectionModel where
  | None | SED | SECDED | SECDEDPoison | ParityInterleaved
  deriving DecidableEq, Repr

structure CacheConfig extends Geometry where
  target_field : TargetField
  corruption_size : Int
  corruption_size_int : -2 ^ 31 ≤ corruption_size ∧ corruption_size < 2 ^ 31
  bits_to_change : Int
  fault_mask : BitVec 8
  fault_type_enum : FaultType
  protection_model : ProtectionModel
  target_block_addr : Nat
  target_byte_offset : Int
  paired_sector : Bool
  max_faults : BitVec 64
  first_tick : Nat
  last_tick : Nat
  tick_to_clock_ratio : BitVec 32
  ticks_permament_fault_check : Nat
  hasReplacementPolicy : Bool
  random_fault_distribution : Nat → Fin 3
  inter_fault_cycles_dist : Nat → BitVec 32
  belowProbability : Nat → Bool

/-- A registered false hit: lookups that match the victim way get the alias way.  The tag of the victim is logged only. -/
structure TagAlias (g : Geometry) where
  tag_alias_set : Fin g.numSets
  victim_way : Fin g.assoc
  alias_way : Fin g.assoc
  victimTag : Option Nat
  deriving DecidableEq

structure CHAOSCache (cfg : CacheConfig) where
  cache : Cache cfg.toGeometry
  rng : Rng
  permanent_faults : AList (fun _ : Nat × Nat => PermanentFault) := ∅
  tag_alias : Option (TagAlias cfg.toGeometry) := none
  faults_injected_count : BitVec 64 := 0
  numFaultsInjected : Nat := 0
  numBitFlips : Nat := 0
  numStuckAtZero : Nat := 0
  numStuckAtOne : Nat := 0
  numPermanentFaults : Nat := 0
  numEccCorrected : Nat := 0
  numDetectedContained : Nat := 0
  numLatent : Nat := 0
  numRawEscaped : Nat := 0
  numTagFaults : Nat := 0
  numTagToLegalFaults : Nat := 0
  numValidFaults : Nat := 0
  numDirtyFaults : Nat := 0
  numReplFaults : Nat := 0
  numCohFaults : Nat := 0
  numVictimFaults : Nat := 0
  /-- The ticks for which `attackEvent` and `periodicCheck` are scheduled. -/
  attackEvent : Option Nat := none
  periodicCheck : Option Nat := none
  /-- An attack has found the budget used up and was not rescheduled. -/
  stopped : Bool := false

namespace CHAOSCache

variable {cfg : CacheConfig}

def scheduleAttack (s : CHAOSCache cfg) (time : Nat) : CHAOSCache cfg :=
  if s.attackEvent.isNone then { s with attackEvent := some time } else s

def scheduleCheckPermanentFault (s : CHAOSCache cfg) (time : Nat) : CHAOSCache cfg :=
  if s.periodicCheck.isNone then { s with periodicCheck := some time } else s

/-- The injector as the constructor leaves it: for the victim field no attack is scheduled. -/
def init (cfg : CacheConfig) (cache : Cache cfg.toGeometry) (draw : Nat → Nat) : CHAOSCache cfg :=
  let s : CHAOSCache cfg := { cache := cache, rng := { draw := draw } }
  let s :=
    if cfg.target_field ≠ .victim then
      scheduleAttack { s with rng := s.rng.next.2 }
        (cfg.first_tick + (cfg.inter_fault_cycles_dist s.rng.next.1 * cfg.tick_to_clock_ratio).toNat)
    else s
  scheduleCheckPermanentFault s (cfg.first_tick + cfg.ticks_permament_fault_check)

/-! ### Faults of a byte -/

def countFault (s : CHAOSCache cfg) (key : Nat × Nat) (ty : FaultType) (mask : BitVec 8) : CHAOSCache cfg :=
  let s := { s with permanent_faults := record s.permanent_faults key ty mask }
  match ty with
  | .StuckAtZero =>
    { s with numStuckAtZero := s.numStuckAtZero + 1, numPermanentFaults := s.numPermanentFaults + 1 }
  | .StuckAtOne => { s with numStuckAtOne := s.numStuckAtOne + 1, numPermanentFaults := s.numPermanentFaults + 1 }
  | .BitFlip => { s with numBitFlips := s.numBitFlips + 1 }
  | .Random => s

inductive Outcome where
  | RawEscaped | EccCorrected | DetectedContained | Latent
  deriving DecidableEq, Repr

/-- The outcome that `applyProtectionModel` reports. -/
def outcome (protection_model : ProtectionModel) (mask : BitVec 8) : Outcome :=
  if protection_model = .None then .RawEscaped
  else
    let bits := popcount mask
    if bits = 1 then .EccCorrected
    else if bits = 2 then
      if protection_model = .SED ∨ protection_model = .ParityInterleaved then .Latent else .DetectedContained
    else .Latent

def countOutcome (s : CHAOSCache cfg) : Outcome → CHAOSCache cfg
  | .RawEscaped => { s with numRawEscaped := s.numRawEscaped + 1 }
  | .EccCorrected => { s with numEccCorrected := s.numEccCorrected + 1 }
  | .DetectedContained => { s with numDetectedContained := s.numDetectedContained + 1 }
  | .Latent => { s with numLatent := s.numLatent + 1 }

/-- The fault in the byte of the partner sector, which has no protection and no counter of its own. -/
def corruptPartner (s : CHAOSCache cfg) (partner : Pos cfg.toGeometry) (partnerAddr byteOffset : Nat) (ty : FaultType)
    (mask : BitVec 8) : CHAOSCache cfg :=
  { s with
    cache := s.cache.store partner byteOffset (ty.corrupt mask (s.cache.data partner byteOffset))
    permanent_faults := record s.permanent_faults (partnerAddr, byteOffset) ty mask
    numFaultsInjected := s.numFaultsInjected + 1 }

/-- A fault in one byte of the block: corrupt it, let the protection model correct it, repeat it in the partner. -/
def corruptByte (s : CHAOSCache cfg) (blk : Pos cfg.toGeometry) (partner : Option (Pos cfg.toGeometry))
    (ty : FaultType) (mask : BitVec 8) (byteOffset : Nat) : CHAOSCache cfg :=
  let origByte := s.cache.data blk byteOffset
  let s := countFault s (s.cache.regenerateBlkAddr blk, byteOffset) ty mask
  let o := outcome cfg.protection_model mask
  let s := countOutcome s o
  let value := if o = .EccCorrected then origByte else ty.corrupt mask origByte
  let s := { s with cache := s.cache.store blk byteOffset value, numFaultsInjected := s.numFaultsInjected + 1 }
  match partner with
  | none => s
  | some q => corruptPartner s q (s.cache.regenerateBlkAddr q) byteOffset ty mask

def fieldBits : TargetField → Nat × Nat
  | .rd => (0, 5)
  | .rn => (5, 5)
  | .rm => (16, 5)
  | _ => (23, 6)

def inword (field : TargetField) (mask : BitVec 8) : BitVec 64 :=
  let (fsh, fw) := fieldBits field
  (List.range fw).foldl (fun word k => if mask.getLsbD k then word ||| (1#64 <<< (fsh + k)) else word) 0#64

def corruptField (s : CHAOSCache cfg) (blk : Pos cfg.toGeometry) (mask : BitVec 8) (byteOffset : Nat) :
    CHAOSCache cfg :=
  let byteOffset := byteOffset / 4 * 4
  let word := inword cfg.target_field mask
  let cache := (List.range 4).foldl (fun cache b =>
    cache.store blk (byteOffset + b) (cache.data blk (byteOffset + b) ^^^ (word >>> (8 * b)).setWidth 8)) s.cache
  { s with
    cache := cache
    numFaultsInjected := s.numFaultsInjected + 1
    faults_injected_count := s.faults_injected_count + 1 }

def drawMask (cfg : CacheConfig) (bits_to_change : Int) (rng : Rng) : BitVec 8 × Rng :=
  if cfg.fault_mask ≠ 0#8 then (cfg.fault_mask, rng) else rng.generateRandomMask bits_to_change 8

/-- The byte to corrupt: the directed one if it is in the block, else a random one. -/
def drawOffset (cfg : CacheConfig) (rng : Rng) : Nat × Rng :=
  if 0 ≤ cfg.target_byte_offset ∧ cfg.target_byte_offset < cfg.blkSize then (cfg.target_byte_offset.toNat, rng)
  else rng.below cfg.blkSize

/-- One round of the loop over `corruption_size`: the mask is drawn first, then the byte. -/
def corruptOnce (s : CHAOSCache cfg) (blk : Pos cfg.toGeometry) (partner : Option (Pos cfg.toGeometry))
    (ty : FaultType) : CHAOSCache cfg :=
  let mask := drawMask cfg cfg.bits_to_change s.rng
  let byteOffset := drawOffset cfg mask.2
  let s := { s with rng := byteOffset.2 }
  if mask.1 = 0#8 then s
  else if cfg.target_field ≠ .data then corruptField s blk mask.1 byteOffset.1
  else corruptByte s blk partner ty mask.1 byteOffset.1

def corruptBytes (blk : Pos cfg.toGeometry) (partner : Option (Pos cfg.toGeometry)) (ty : FaultType) :
    Nat → CHAOSCache cfg → CHAOSCache cfg
  | 0, s => s
  | n + 1, s => corruptBytes blk partner ty n (corruptOnce s blk partner ty)

/-! ### Faults of the metadata -/

/-- Another valid way of the set of the block, if there is one. -/
def pickSameSetAliasWay (s : CHAOSCache cfg) (blk : Pos cfg.toGeometry) : Option (Fin cfg.assoc) × Rng :=
  let candidates := (s.cache.validBlocks.filter fun b => b.1 = blk.1 ∧ b.2 ≠ blk.2).map (·.2)
  match candidates with
  | [] => (none, s.rng)
  | w :: rest => (some ((w :: rest).getD (s.rng.below (w :: rest).length).1 w), (s.rng.below (w :: rest).length).2)

def counted (s : CHAOSCache cfg) : CHAOSCache cfg :=
  { s with numFaultsInjected := s.numFaultsInjected + 1, faults_injected_count := s.faults_injected_count + 1 }

def registerAlias (s : CHAOSCache cfg) (blk : Pos cfg.toGeometry) (count : CHAOSCache cfg → CHAOSCache cfg) :
    CHAOSCache cfg :=
  match pickSameSetAliasWay s blk with
  | (none, rng) => { s with rng := rng }
  | (some w, rng) =>
    counted (count { s with
      rng := rng
      tag_alias := some ⟨blk.1, blk.2, w, (s.cache.entry blk).map (·.tag)⟩ })

inductive Permission where
  | Writable | Readable
  deriving DecidableEq, Repr

def Permission.other : Permission → Permission
  | .Writable => .Readable
  | .Readable => .Writable

def isSet (c : Cache cfg.toGeometry) (blk : Pos cfg.toGeometry) : Permission → Bool
  | .Writable => c.isValid blk && c.writable blk
  | .Readable => c.isValid blk && c.readable blk

def clearCoherenceBits (c : Cache cfg.toGeometry) (blk : Pos cfg.toGeometry) : Permission → Cache cfg.toGeometry
  | .Writable => { c with writable := Function.update c.writable blk false }
  | .Readable => { c with readable := Function.update c.readable blk false }

/-- The drawn permission, or the other one if that is not set. -/
def pickPermission (c : Cache cfg.toGeometry) (blk : Pos cfg.toGeometry) (coin : Nat) : Permission :=
  let bit : Permission := if coin ≠ 0 then .Writable else .Readable
  if !isSet c blk bit then bit.other else bit

def clearPermission (s : CHAOSCache cfg) (blk : Pos cfg.toGeometry) : CHAOSCache cfg :=
  let coin := s.rng.below 2
  let s := { s with rng := coin.2 }
  let bit := pickPermission s.cache blk coin.1
  if !isSet s.cache blk bit then s
  else counted { s with cache := clearCoherenceBits s.cache blk bit, numCohFaults := s.numCohFaults + 1 }

def injectMetadataFault (s : CHAOSCache cfg) (blk : Pos cfg.toGeometry) : CHAOSCache cfg :=
  match cfg.target_field with
  | .tag => registerAlias s blk fun s => { s with numTagFaults := s.numTagFaults + 1 }
  | .tag_to_legal => registerAlias s blk fun s => { s with numTagToLegalFaults := s.numTagToLegalFaults + 1 }
  | .valid => counted { s with cache := s.cache.invalidate blk, numValidFaults := s.numValidFaults + 1 }
  | .dirty =>
    let dirty := s.cache.isValid blk && s.cache.dirty blk
    counted { s with
      cache := { s.cache with dirty := Function.update s.cache.dirty blk (!dirty) }
      numDirtyFaults := s.numDirtyFaults + 1 }
  | .repl =>
    if cfg.hasReplacementPolicy then
      counted { s with
        cache := { s.cache with replInvalid := Function.update s.cache.replInvalid blk true }
        numReplFaults := s.numReplFaults + 1 }
    else s
  | .coh => clearPermission s blk
  | _ => s

/-! ### The handlers -/

/-- The block to attack: the directed one if it is resident, else a random one. -/
def chooseBlock (s : CHAOSCache cfg) (first : Pos cfg.toGeometry) (rest : List (Pos cfg.toGeometry)) :
    Pos cfg.toGeometry × Rng :=
  let validBlocks := first :: rest
  let wantBlockAddr := cfg.target_block_addr / cfg.blkSize * cfg.blkSize
  let directed :=
    if cfg.target_block_addr ≠ 0 then validBlocks.find? fun b => s.cache.regenerateBlkAddr b = wantBlockAddr else none
  match directed with
  | some blk => (blk, s.rng)
  | none => (validBlocks.getD (s.rng.below validBlocks.length).1 first, (s.rng.below validBlocks.length).2)

def findPartner (s : CHAOSCache cfg) (blk : Pos cfg.toGeometry) : Option (Pos cfg.toGeometry) :=
  if cfg.paired_sector then
    s.cache.validBlocks.find? fun b => s.cache.regenerateBlkAddr b = s.cache.regenerateBlkAddr blk ^^^ cfg.blkSize
  else none

def isMetadata : TargetField → Bool
  | .tag | .tag_to_legal | .valid | .dirty | .repl | .coh => true
  | _ => false

def attackBlock (s : CHAOSCache cfg) (first : Pos cfg.toGeometry) (rest : List (Pos cfg.toGeometry)) :
    CHAOSCache cfg :=
  let blk := chooseBlock s first rest
  let partner := findPartner s blk.1
  let ty := cfg.fault_type_enum.choose cfg.random_fault_distribution blk.2
  let s := { s with rng := ty.2 }
  if isMetadata cfg.target_field then injectMetadataFault s blk.1
  else if cfg.target_field = .victim then s
  else corruptBytes blk.1 partner ty.1 cfg.corruption_size.toNat s

def reschedule (s : CHAOSCache cfg) (now : Nat) : CHAOSCache cfg :=
  let s := { s with faults_injected_count := s.faults_injected_count + BitVec.ofInt 64 cfg.corruption_size }
  if cfg.max_faults ≠ 0 ∧ cfg.max_faults ≤ s.faults_injected_count then { s with stopped := true }
  else
    let raw := s.rng.next
    let s := { s with rng := raw.2 }
    let next_injection := now + nextDistance (cfg.inter_fault_cycles_dist raw.1) cfg.tick_to_clock_ratio
    if next_injection ≤ cfg.last_tick ∨ cfg.last_tick = 0 then scheduleAttack s next_injection else s

def injectFault (s : CHAOSCache cfg) (now : Nat) : CHAOSCache cfg :=
  match s.cache.validBlocks with
  | [] => reschedule s now
  | first :: rest => reschedule (attackBlock s first rest) now

/-- `chaosCorruptWriteback`: the payload that goes out. -/
def chaosCorruptWriteback (s : CHAOSCache cfg) (now : Nat) (payload : List (BitVec 8)) :
    List (BitVec 8) × CHAOSCache cfg :=
  if cfg.target_field ≠ .victim then (payload, s)
  else if now < cfg.first_tick then (payload, s)
  else if cfg.last_tick ≠ 0 ∧ cfg.last_tick < now then (payload, s)
  else if cfg.max_faults ≠ 0 ∧ cfg.max_faults ≤ s.faults_injected_count then (payload, s)
  else
    let uni := s.rng.next
    let s := { s with rng := uni.2 }
    if !cfg.belowProbability uni.1 then (payload, s)
    else if payload = [] then (payload, s)
    else
      let offset := s.rng.below payload.length
      let mask := drawMask cfg (if 0 < cfg.bits_to_change then cfg.bits_to_change else 1) offset.2
      let s := { s with rng := mask.2 }
      if mask.1 = 0#8 then (payload, s)
      else (payload.modify offset.1 (· ^^^ mask.1), counted { s with numVictimFaults := s.numVictimFaults + 1 })

/-- One entry of the table in the loop of `checkPermanent`: its byte in the resident block of its address. -/
def reapplyEntry (s : CHAOSCache cfg) (entry : Sigma fun _ : Nat × Nat => PermanentFault) : CHAOSCache cfg :=
  if !entry.2.update then s
  else
    match s.cache.lastAt entry.1.1 with
    | none => s
    | some blk =>
      { s with cache := s.cache.store blk entry.1.2 (entry.2.reapply (s.cache.data blk entry.1.2)) }

/-- Unlike that of CHAOSMem, the check does not schedule itself again. -/
def checkPermanent (s : CHAOSCache cfg) : CHAOSCache cfg := s.permanent_faults.entries.foldl reapplyEntry s

/-! ### Runs -/

inductive Event (cfg : CacheConfig) where
  | attack
  | check
  | writeback (now : Nat) (payload : List (BitVec 8))
  | fill (blk : Pos cfg.toGeometry) (key : Key) (data : Nat → BitVec 8)
  | invalidate (blk : Pos cfg.toGeometry)
  | setCoherence (blk : Pos cfg.toGeometry) (dirty writable readable : Bool)
  | store (blk : Pos cfg.toGeometry) (byteOffset : Nat) (value : BitVec 8)

def step (s : CHAOSCache cfg) : Event cfg → CHAOSCache cfg
  | .attack =>
    match s.attackEvent with
    | none => s
    | some now => injectFault { s with attackEvent := none } now
  | .check =>
    match s.periodicCheck with
    | none => s
    | some _ => checkPermanent { s with periodicCheck := none }
  | .writeback now payload => (chaosCorruptWriteback s now payload).2
  | .fill blk key data =>
    if h : s.cache.CanFill blk key then { s with cache := s.cache.insertBlock blk key h data } else s
  | .invalidate blk => { s with cache := s.cache.invalidate blk }
  | .setCoherence blk dirty writable readable =>
    { s with cache := { s.cache with
      dirty := Function.update s.cache.dirty blk dirty
      writable := Function.update s.cache.writable blk writable
      readable := Function.update s.cache.readable blk readable } }
  | .store blk byteOffset value => { s with cache := s.cache.store blk byteOffset value }

def run (s : CHAOSCache cfg) (es : List (Event cfg)) : CHAOSCache cfg := es.foldl step s

variable (s : CHAOSCache cfg)

theorem chaosCorruptWriteback_spec (now : Nat) (payload : List (BitVec 8)) :
    ∃ rng, (chaosCorruptWriteback s now payload).2 = { s with rng := rng } ∨
      ((chaosCorruptWriteback s now payload).2 =
          counted { s with rng := rng, numVictimFaults := s.numVictimFaults + 1 } ∧
        cfg.target_field = .victim ∧ ¬(cfg.max_faults ≠ 0 ∧ cfg.max_faults ≤ s.faults_injected_count)) := by
  unfold chaosCorruptWriteback
  by_cases hfield : cfg.target_field = .victim
  · rw [if_neg (not_not.2 hfield)]
    by_cases hfirst : now < cfg.first_tick
    · rw [if_pos hfirst]
      exact ⟨s.rng, Or.inl rfl⟩
    rw [if_neg hfirst]
    by_cases hlast : cfg.last_tick ≠ 0 ∧ cfg.last_tick < now
    · rw [if_pos hlast]
      exact ⟨s.rng, Or.inl rfl⟩
    rw [if_neg hlast]
    by_cases hbudget : cfg.max_faults ≠ 0 ∧ cfg.max_faults ≤ s.faults_injected_count
    · rw [if_pos hbudget]
      exact ⟨s.rng, Or.inl rfl⟩
    rw [if_neg hbudget]
    obtain ⟨bits, hbits⟩ : ∃ bits : Int, bits = if 0 < cfg.bits_to_change then cfg.bits_to_change else 1 := ⟨_, rfl⟩
    dsimp only
    rw [← hbits]
    split
    · exact ⟨_, Or.inl rfl⟩
    · split
      · exact ⟨_, Or.inl rfl⟩
      · split
        · exact ⟨_, Or.inl rfl⟩
        · exact ⟨_, Or.inr ⟨rfl, hfield, hbudget⟩⟩
  · rw [if_pos hfield]
    exact ⟨s.rng, Or.inl rfl⟩

/-! ### What a check and a fault do to a byte -/

/-- The record that a check applies to a byte of a block: none if it ends with another block of the address. -/
def recordAt (s : CHAOSCache cfg) (blk : Pos cfg.toGeometry) (byteOffset : Nat) : Option PermanentFault :=
  if s.cache.lastAt (s.cache.regenerateBlkAddr blk) = some blk then
    s.permanent_faults.lookup (s.cache.regenerateBlkAddr blk, byteOffset)
  else none

private def place (c : Cache cfg.toGeometry) (key : Nat × Nat) : Option (Pos cfg.toGeometry × Nat) :=
  (c.lastAt key.1).map fun blk => (blk, key.2)

private theorem place_eq_some_iff (c : Cache cfg.toGeometry) (key : Nat × Nat) (blk : Pos cfg.toGeometry) (off : Nat) :
    place c key = some (blk, off) ↔ key = (c.regenerateBlkAddr blk, off) ∧ c.lastAt key.1 = some blk := by
  obtain ⟨addr, i⟩ := key
  constructor
  · intro h
    obtain ⟨b, hb, heq⟩ := Option.map_eq_some_iff.1 h
    obtain ⟨rfl, rfl⟩ := Prod.mk.inj heq
    exact ⟨by rw [c.lastAt_eq_some hb], hb⟩
  · rintro ⟨heq, hlast⟩
    obtain ⟨rfl, rfl⟩ := Prod.mk.inj heq
    simp [place, hlast]

private theorem reapplyEntry_spec (e : Sigma fun _ : Nat × Nat => PermanentFault) :
    (reapplyEntry s e).cache.data.uncurry =
      Table.applyEntry (place s.cache) PermanentFault.check s.cache.data.uncurry e ∧
    (reapplyEntry s e).cache.entry = s.cache.entry ∧ (reapplyEntry s e).permanent_faults = s.permanent_faults := by
  cases hlast : s.cache.lastAt e.1.1 with
  | none => cases hu : e.2.update <;> simp [reapplyEntry, Table.applyEntry, place, hlast, hu]
  | some blk =>
    cases hu : e.2.update with
    | false => simp [reapplyEntry, Table.applyEntry, place, hlast, hu, PermanentFault.check]
    | true =>
      refine ⟨?_, by simp [reapplyEntry, hlast, hu], by simp [reapplyEntry, hlast, hu]⟩
      funext x
      obtain ⟨p, i⟩ := x
      simp only [reapplyEntry, Table.applyEntry, place, hlast, hu, PermanentFault.check, Function.uncurry_apply_pair,
        Function.update_apply, Option.map_some, Prod.mk.injEq, Bool.not_true, Bool.false_eq_true, ↓reduceIte]
      exact s.cache.store_data blk p e.1.2 i _

private theorem foldl_reapplyEntry (l : List (Sigma fun _ : Nat × Nat => PermanentFault)) (s : CHAOSCache cfg) :
    (l.foldl reapplyEntry s).cache.data.uncurry =
      l.foldl (Table.applyEntry (place s.cache) PermanentFault.check) s.cache.data.uncurry ∧
    (l.foldl reapplyEntry s).cache.entry = s.cache.entry ∧
    (l.foldl reapplyEntry s).permanent_faults = s.permanent_faults := by
  induction l generalizing s with
  | nil => exact ⟨rfl, rfl, rfl⟩
  | cons e l ih =>
    obtain ⟨hdata, hentry, htable⟩ := reapplyEntry_spec s e
    obtain ⟨ihdata, ihentry, ihtable⟩ := ih (reapplyEntry s e)
    have hplace : place (reapplyEntry s e).cache = place s.cache := by
      funext key
      rw [place, place, (Cache.addr_congr hentry).2]
    rw [List.foldl_cons, List.foldl_cons]
    exact ⟨by rw [ihdata, hplace, hdata], by rw [ihentry, hentry], by rw [ihtable, htable]⟩

theorem checkPermanent_table :
    (checkPermanent s).cache.entry = s.cache.entry ∧ (checkPermanent s).permanent_faults = s.permanent_faults :=
  (foldl_reapplyEntry s.permanent_faults.entries s).2

variable (blk : Pos cfg.toGeometry) (partner : Option (Pos cfg.toGeometry)) (ty : FaultType)

theorem checkPermanent_data (off : Nat) :
    (checkPermanent s).cache.data blk off = checked (s.recordAt blk off) (s.cache.data blk off) := by
  have hfold := congrFun (foldl_reapplyEntry s.permanent_faults.entries s).1 (blk, off)
  change (checkPermanent s).cache.data blk off = _ at hfold
  rw [hfold, recordAt]
  split
  · rename_i hlast
    have hplace := (place_eq_some_iff s.cache (s.cache.regenerateBlkAddr blk, off) blk off).2 ⟨rfl, hlast⟩
    refine Table.foldl_entries s.permanent_faults (fun k k' hk hk' => ?_) hplace
    rw [((place_eq_some_iff ..).1 hk).1, ((place_eq_some_iff ..).1 hk').1]
  · rename_i hlast
    refine Table.foldl_applyEntry_of_forall_ne fun e _ he => hlast ?_
    obtain ⟨hkey, hblk⟩ := (place_eq_some_iff ..).1 he
    rwa [hkey] at hblk

theorem countFault_frame (key : Nat × Nat) (ty : FaultType) (mask : BitVec 8) :
    (countFault s key ty mask).cache = s.cache ∧
    (countFault s key ty mask).permanent_faults = record s.permanent_faults key ty mask ∧
    (countFault s key ty mask).tag_alias = s.tag_alias ∧
    (countFault s key ty mask).numEccCorrected = s.numEccCorrected := by
  cases ty <;> exact ⟨rfl, rfl, rfl, rfl⟩

theorem countOutcome_frame (o : Outcome) :
    (countOutcome s o).cache = s.cache ∧ (countOutcome s o).permanent_faults = s.permanent_faults ∧
    (countOutcome s o).tag_alias = s.tag_alias ∧
    (countOutcome s o).numEccCorrected = s.numEccCorrected + if o = .EccCorrected then 1 else 0 := by
  cases o <;> exact ⟨rfl, rfl, rfl, rfl⟩

theorem findPartner_addr_ne {s : CHAOSCache cfg} {blk q : Pos cfg.toGeometry} (h : s.findPartner blk = some q) :
    s.cache.regenerateBlkAddr q ≠ s.cache.regenerateBlkAddr blk := by
  unfold findPartner at h
  split at h
  · have hfound := List.find?_some h
    have hq := of_decide_eq_true hfound
    intro heq
    rw [hq] at heq
    have hzero : cfg.blkSize = 0 := by
      calc cfg.blkSize = s.cache.regenerateBlkAddr blk ^^^ (s.cache.regenerateBlkAddr blk ^^^ cfg.blkSize) := by
            rw [← Nat.xor_assoc, Nat.xor_self, Nat.zero_xor]
        _ = 0 := by rw [heq, Nat.xor_self]
    have hpos := cfg.blkSize_pos
    omega
  · simp at h

theorem corruptByte_spec (mask : BitVec 8) (off : Nat) :
    (s.corruptByte blk (s.findPartner blk) ty mask off).cache.entry = s.cache.entry ∧
    (s.corruptByte blk (s.findPartner blk) ty mask off).cache.data blk off =
      (if outcome cfg.protection_model mask = .EccCorrected then s.cache.data blk off
      else ty.corrupt mask (s.cache.data blk off)) ∧
    (s.corruptByte blk (s.findPartner blk) ty mask off).permanent_faults.lookup (s.cache.regenerateBlkAddr blk, off) =
      (record s.permanent_faults (s.cache.regenerateBlkAddr blk, off) ty mask).lookup
        (s.cache.regenerateBlkAddr blk, off) ∧
    (s.corruptByte blk (s.findPartner blk) ty mask off).numEccCorrected =
      s.numEccCorrected + if outcome cfg.protection_model mask = .EccCorrected then 1 else 0 := by
  obtain ⟨t, ht⟩ : ∃ t, t = s.corruptByte blk none ty mask off := ⟨_, rfl⟩
  have hnone : t.cache.entry = s.cache.entry ∧ t.cache.data blk off =
      (if outcome cfg.protection_model mask = .EccCorrected then s.cache.data blk off
      else ty.corrupt mask (s.cache.data blk off)) ∧
      t.permanent_faults = record s.permanent_faults (s.cache.regenerateBlkAddr blk, off) ty mask ∧
      t.numEccCorrected =
        s.numEccCorrected + if outcome cfg.protection_model mask = .EccCorrected then 1 else 0 := by
    obtain ⟨fcache, ftable, -, fecc⟩ := s.countFault_frame (s.cache.regenerateBlkAddr blk, off) ty mask
    obtain ⟨ocache, otable, -, oecc⟩ := countOutcome_frame
      (s.countFault (s.cache.regenerateBlkAddr blk, off) ty mask) (outcome cfg.protection_model mask)
    rw [ht]
    refine ⟨?_, ?_, otable.trans ftable, oecc.trans (by rw [fecc])⟩
    · simp only [corruptByte, Cache.store_entry, ocache, fcache]
    · simp only [corruptByte, Cache.store_data, and_self, ↓reduceIte]
  obtain ⟨hentry, hdata, htable, hecc⟩ := hnone
  cases hq : s.findPartner blk with
  | none => rw [← ht]; exact ⟨hentry, hdata, by rw [htable], hecc⟩
  | some q =>
    have haddr : t.cache.regenerateBlkAddr q ≠ s.cache.regenerateBlkAddr blk := by
      rw [(Cache.addr_congr hentry).1]
      exact findPartner_addr_ne hq
    have hblk : blk ≠ q := by
      rintro rfl
      exact findPartner_addr_ne hq rfl
    have heq : s.corruptByte blk (some q) ty mask off =
        corruptPartner t q (t.cache.regenerateBlkAddr q) off ty mask := by rw [ht]; rfl
    rw [heq]
    refine ⟨hentry, ?_, ?_, hecc⟩
    · simp only [corruptPartner, Cache.store_data, hblk, false_and, ↓reduceIte]
      exact hdata
    · simp only [corruptPartner, lookup_record _ (t.cache.regenerateBlkAddr q, off), Prod.mk.injEq, haddr.symm,
        false_and, ↓reduceIte]
      rw [htable]

theorem corruptBytes_invariant {I : CHAOSCache cfg → Prop} {blk : Pos cfg.toGeometry}
    {partner : Option (Pos cfg.toGeometry)} {ty : FaultType}
    (hrng : ∀ (s : CHAOSCache cfg) rng, I s → I { s with rng := rng })
    (hfield : ∀ (s : CHAOSCache cfg) mask off, I s → I (corruptField s blk mask off))
    (hbyte : ∀ (s : CHAOSCache cfg) mask off, I s → I (corruptByte s blk partner ty mask off)) (rounds : Nat)
    {s : CHAOSCache cfg} (h : I s) : I (corruptBytes blk partner ty rounds s) := by
  induction rounds generalizing s with
  | zero => exact h
  | succ rounds ih =>
    refine ih ?_
    unfold corruptOnce
    by_cases hmask : (drawMask cfg cfg.bits_to_change s.rng).1 = 0#8
    · rw [if_pos hmask]
      exact hrng s _ h
    · rw [if_neg hmask]
      by_cases hdata : cfg.target_field ≠ .data
      · rw [if_pos hdata]
        exact hfield _ _ _ (hrng s _ h)
      · rw [if_neg hdata]
        exact hbyte _ _ _ (hrng s _ h)

theorem corruptBytes_keeps {α : Type} (field : CHAOSCache cfg → α) {blk : Pos cfg.toGeometry}
    {partner : Option (Pos cfg.toGeometry)} {ty : FaultType}
    (hrng : ∀ (s : CHAOSCache cfg) rng, field { s with rng := rng } = field s)
    (hfield : ∀ (s : CHAOSCache cfg) mask off, field (corruptField s blk mask off) = field s)
    (hbyte : ∀ (s : CHAOSCache cfg) mask off, field (corruptByte s blk partner ty mask off) = field s) (rounds : Nat)
    (s : CHAOSCache cfg) : field (corruptBytes blk partner ty rounds s) = field s :=
  corruptBytes_invariant (I := fun t => field t = field s) (fun t rng h => (hrng t rng).trans h)
    (fun t mask off h => (hfield t mask off).trans h) (fun t mask off h => (hbyte t mask off).trans h) rounds rfl

/-! ### What the handlers do to the event queue -/

def queue (s : CHAOSCache cfg) : Option Nat × Option Nat := (s.attackEvent, s.periodicCheck)

private theorem corruptByte_queue
    (mask : BitVec 8) (off : Nat) : (corruptByte s blk partner ty mask off).queue = s.queue := by
  have hcount : (countOutcome (countFault s (s.cache.regenerateBlkAddr blk, off) ty mask)
      (outcome cfg.protection_model mask)).queue = s.queue := by
    cases ty <;> cases outcome cfg.protection_model mask <;> rfl
  cases partner with
  | none => exact hcount
  | some q => exact hcount

private theorem corruptBytes_queue
    (rounds : Nat) (s : CHAOSCache cfg) : (corruptBytes blk partner ty rounds s).queue = s.queue := by
  refine corruptBytes_keeps queue (fun _ _ => rfl) (fun s mask off => ?_) (fun s mask off => corruptByte_queue ..) rounds s
  dsimp only [queue, corruptField]

private theorem injectMetadataFault_frame :
    (injectMetadataFault s blk).queue = s.queue ∧ (injectMetadataFault s blk).permanent_faults = s.permanent_faults := by
  have halias : ∀ count : CHAOSCache cfg → CHAOSCache cfg,
      (∀ t, (count t).queue = t.queue ∧ (count t).permanent_faults = t.permanent_faults) →
      (registerAlias s blk count).queue = s.queue ∧
        (registerAlias s blk count).permanent_faults = s.permanent_faults := by
    intro count hcount
    unfold registerAlias
    split
    · exact ⟨rfl, rfl⟩
    · exact hcount _
  unfold injectMetadataFault
  split
  · exact halias _ fun _ => ⟨rfl, rfl⟩
  · exact halias _ fun _ => ⟨rfl, rfl⟩
  · exact ⟨rfl, rfl⟩
  · exact ⟨rfl, rfl⟩
  · split <;> exact ⟨rfl, rfl⟩
  · unfold clearPermission
    dsimp only
    split <;> exact ⟨rfl, rfl⟩
  · exact ⟨rfl, rfl⟩

def attacked (s : CHAOSCache cfg) : CHAOSCache cfg :=
  match s.cache.validBlocks with
  | [] => s
  | first :: rest => attackBlock s first rest

theorem injectFault_eq (now : Nat) : injectFault s now = reschedule s.attacked now := by
  unfold injectFault attacked
  rcases s.cache.validBlocks with _ | ⟨first, rest⟩ <;> rfl

theorem attacked_queue : s.attacked.queue = s.queue := by
  unfold attacked
  split
  · rfl
  · unfold attackBlock
    dsimp only
    split
    · exact (injectMetadataFault_frame _ _).1
    · split
      · rfl
      · exact corruptBytes_queue ..

private theorem corruptByte_updating {s : CHAOSCache cfg} (h : Updating s.permanent_faults) (blk : Pos cfg.toGeometry)
    (partner : Option (Pos cfg.toGeometry)) (ty : FaultType) (mask : BitVec 8) (off : Nat) :
    Updating (corruptByte s blk partner ty mask off).permanent_faults := by
  have hblock : Updating (corruptByte s blk none ty mask off).permanent_faults := by
    have htable : (corruptByte s blk none ty mask off).permanent_faults =
        record s.permanent_faults (s.cache.regenerateBlkAddr blk, off) ty mask :=
      (countOutcome_frame _ _).2.1.trans (countFault_frame s _ ty mask).2.1
    rw [htable]
    exact h.record _ ty mask
  cases partner with
  | none => exact hblock
  | some q => exact hblock.record _ ty mask

theorem attacked_updating {s : CHAOSCache cfg} (h : Updating s.permanent_faults) :
    Updating s.attacked.permanent_faults := by
  unfold attacked
  split
  · exact h
  · unfold attackBlock
    dsimp only
    split
    · rw [(injectMetadataFault_frame _ _).2]
      exact h
    · split
      · exact h
      · exact corruptBytes_invariant (I := fun t => Updating t.permanent_faults) (fun _ _ ht => ht) (fun _ _ _ ht => ht)
          (fun t mask off ht => corruptByte_updating ht _ _ _ mask off) _ h

/-- The tick of the next attack after the end of one, if the budget is not used up and the tick is not after the last
one. -/
def nextAttack (s : CHAOSCache cfg) (now : Nat) : Option Nat :=
  let next_injection := now + nextDistance (cfg.inter_fault_cycles_dist s.rng.next.1) cfg.tick_to_clock_ratio
  if cfg.max_faults ≠ 0 ∧ cfg.max_faults ≤ s.faults_injected_count + BitVec.ofInt 64 cfg.corruption_size then none
  else if next_injection ≤ cfg.last_tick ∨ cfg.last_tick = 0 then some next_injection
  else none

def delay (s : CHAOSCache cfg) : Nat := nextDistance (cfg.inter_fault_cycles_dist s.rng.next.1) cfg.tick_to_clock_ratio

theorem nextAttack_iff (now t : Nat) : s.nextAttack now = some t ↔ (s.nextAttack now).isSome ∧ t = now + s.delay := by
  refine eq_some_iff_isSome (fun u hu => ?_) t
  unfold nextAttack at hu
  dsimp only at hu
  split at hu
  · simp at hu
  · split at hu
    · exact (Option.some.inj hu).symm
    · simp at hu

theorem injectFault_queue {s : CHAOSCache cfg} (hevent : s.attackEvent = none) (now : Nat) :
    (injectFault s now).attackEvent = s.attacked.nextAttack now ∧
    (injectFault s now).periodicCheck = s.periodicCheck := by
  obtain ⟨t, ht⟩ : ∃ t, t = s.attacked := ⟨_, rfl⟩
  obtain ⟨hattack, hcheck⟩ := Prod.mk.inj s.attacked_queue
  rw [injectFault_eq, ← ht]
  rw [← ht] at hattack hcheck
  unfold reschedule nextAttack scheduleAttack
  dsimp only
  rw [hattack, hevent]
  split
  · exact ⟨rfl, hcheck⟩
  · split
    · exact ⟨rfl, hcheck⟩
    · exact ⟨rfl, hcheck⟩

theorem reschedule_permanent_faults (now : Nat) : (reschedule s now).permanent_faults = s.permanent_faults := by
  unfold reschedule scheduleAttack
  dsimp only
  repeat' split
  all_goals rfl

theorem checkPermanent_queue : (checkPermanent s).queue = s.queue := by
  unfold checkPermanent
  refine List.foldlRecOn (motive := fun t : CHAOSCache cfg => t.queue = s.queue) s.permanent_faults.entries reapplyEntry rfl
    fun t ht entry _ => ?_
  unfold reapplyEntry
  repeat' split
  all_goals exact ht

end CHAOSCache

def oneBlock : CacheConfig :=
  { numSets := 1, assoc := 1, blkSize := 4, numSets_pos := by decide, blkSize_pos := by decide,
    target_field := .data, corruption_size := 1, corruption_size_int := by decide, bits_to_change := 1,
    fault_mask := 0, fault_type_enum := .BitFlip, protection_model := .None, target_block_addr := 0,
    target_byte_offset := -1, paired_sector := false, max_faults := 1, first_tick := 0, last_tick := 0,
    tick_to_clock_ratio := 1000, ticks_permament_fault_check := 1000, hasReplacementPolicy := true,
    random_fault_distribution := firstType, inter_fault_cycles_dist := fun _ => 0, belowProbability := fun _ => true }

end GemFI.Mem
