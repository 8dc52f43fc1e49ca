import Mathlib.Data.Fintype.Pi
import Mathlib.Data.List.FinRange
import Mathlib.Logic.Function.Basic

/-!
# The tag store of a set-associative cache

A cache has one block for each set and way.  A valid block has a tag and a secure bit, and no two valid blocks of a set
have both in common; an invalid one has neither.  Only the state that the injector or a lookup uses is modelled: the
tags, the coherence bits, whether the replacement data have been invalidated, and the data.
-/

namespace GemFI.Mem

structure Geometry where
  numSets : Nat
  assoc : Nat
  blkSize : Nat
  numSets_pos : 0 < numSets
  blkSize_pos : 0 < blkSize

abbrev Pos (g : Geometry) := Fin g.numSets × Fin g.assoc

structure Key where
  address : Nat
  secure : Bool
  deriving DecidableEq, Repr

structure Entry where
  tag : Nat
  secure : Bool
  deriving DecidableEq, Repr

namespace Geometry

variable (g : Geometry)

def extractSet (address : Nat) : Fin g.numSets := ⟨address / g.blkSize % g.numSets, Nat.mod_lt _ g.numSets_pos⟩

def extractTag (address : Nat) : Nat := address / g.blkSize / g.numSets

def regenerateAddr (tag : Nat) (set : Fin g.numSets) : Nat := (tag * g.numSets + set) * g.blkSize

theorem extract_regenerate (tag : Nat) (set : Fin g.numSets) :
    g.extractTag (g.regenerateAddr tag set) = tag ∧ g.extractSet (g.regenerateAddr tag set) = set := by
  have hdiv : g.regenerateAddr tag set / g.blkSize = tag * g.numSets + set := Nat.mul_div_cancel _ g.blkSize_pos
  constructor
  · rw [extractTag, hdiv, Nat.mul_comm, Nat.mul_add_div g.numSets_pos, Nat.div_eq_of_lt set.2, Nat.add_zero]
  · apply Fin.ext
    simp only [extractSet, hdiv]
    rw [Nat.mul_comm, Nat.mul_add_mod, Nat.mod_eq_of_lt set.2]

/-- The blocks in the order of `forEachBlk`. -/
def positions : List (Pos g) := (List.finRange g.numSets).flatMap fun s => (List.finRange g.assoc).map fun w => (s, w)

def getPossibleEntries (key : Key) : List (Pos g) := (List.finRange g.assoc).map fun w => (g.extractSet key.address, w)

end Geometry

structure Cache (g : Geometry) where
  entry : Pos g → Option Entry
  unique : ∀ s w w' e, entry (s, w) = some e → entry (s, w') = some e → w = w'
  dirty : Pos g → Bool
  writable : Pos g → Bool
  readable : Pos g → Bool
  replInvalid : Pos g → Bool
  data : Pos g → Nat → BitVec 8

namespace Cache

def empty (g : Geometry) : Cache g where
  entry := fun _ => none
  unique := by simp
  dirty := fun _ => false
  writable := fun _ => false
  readable := fun _ => false
  replInvalid := fun _ => true
  data := fun _ _ => 0

variable {g : Geometry} (c : Cache g)

def isValid (p : Pos g) : Bool := (c.entry p).isSome

def validBlocks : List (Pos g) := g.positions.filter c.isValid

def regenerateBlkAddr (p : Pos g) : Nat := (c.entry p).elim 0 fun e => g.regenerateAddr e.tag p.1

/-- `CacheBlk::match`. -/
def hasKey (p : Pos g) (key : Key) : Bool := c.entry p = some ⟨g.extractTag key.address, key.secure⟩

def findMatch (key : Key) : Option (Pos g) := (g.getPossibleEntries key).find? fun p => c.hasKey p key

/-- The block of an address that a pass of `forEachBlk` ends with. -/
def lastAt (addr : Nat) : Option (Pos g) :=
  (g.positions.filter fun p => c.isValid p && decide (c.regenerateBlkAddr p = addr)).getLast?

theorem lastAt_eq_some {addr : Nat} {p : Pos g} (h : c.lastAt addr = some p) : c.regenerateBlkAddr p = addr := by
  have hmem := List.mem_of_getLast? h
  simp only [List.mem_filter, Bool.and_eq_true, decide_eq_true_eq] at hmem
  exact hmem.2.2

theorem addr_congr {c c' : Cache g} (h : c'.entry = c.entry) :
    c'.regenerateBlkAddr = c.regenerateBlkAddr ∧ c'.lastAt = c.lastAt := by
  have haddr : c'.regenerateBlkAddr = c.regenerateBlkAddr := by
    funext p
    rw [regenerateBlkAddr, regenerateBlkAddr, h]
  refine ⟨haddr, ?_⟩
  funext addr
  simp only [lastAt, isValid, haddr, h]

/-- `CacheBlk::invalidate`. -/
def invalidate (p : Pos g) : Cache g where
  entry := Function.update c.entry p none
  unique := by
    intro s w w' e hw hw'
    by_cases h : (s, w) = p
    · simp [h] at hw
    · by_cases h' : (s, w') = p
      · simp [h'] at hw'
      · rw [Function.update_of_ne h] at hw
        rw [Function.update_of_ne h'] at hw'
        exact c.unique s w w' e hw hw'
  dirty := Function.update c.dirty p false
  writable := Function.update c.writable p false
  readable := Function.update c.readable p false
  replInvalid := c.replInvalid
  data := c.data

def CanFill (p : Pos g) (key : Key) : Prop :=
  p.1 = g.extractSet key.address ∧ c.isValid p = false ∧ ∀ w, c.hasKey (p.1, w) key = false

instance (p : Pos g) (key : Key) : Decidable (c.CanFill p key) := inferInstanceAs (Decidable (_ ∧ _ ∧ _))

/-- `BaseTags::insertBlock`, with the data of the line; the replacement data are reset. -/
def insertBlock (p : Pos g) (key : Key) (h : c.CanFill p key) (data : Nat → BitVec 8) : Cache g where
  entry := Function.update c.entry p (some ⟨g.extractTag key.address, key.secure⟩)
  unique := by
    intro s w w' e hw hw'
    have hmiss : ∀ v, c.entry (p.1, v) ≠ some ⟨g.extractTag key.address, key.secure⟩ := fun v =>
      of_decide_eq_false (h.2.2 v)
    by_cases hp : (s, w) = p <;> by_cases hp' : (s, w') = p
    · have heq := hp.trans hp'.symm
      exact (Prod.mk.inj heq).2
    · rw [Function.update_of_ne hp'] at hw'
      rw [hp, Function.update_self] at hw
      subst hp
      rw [← hw] at hw'
      exact absurd hw' (hmiss w')
    · rw [Function.update_of_ne hp] at hw
      rw [hp', Function.update_self] at hw'
      subst hp'
      rw [← hw'] at hw
      exact absurd hw (hmiss w)
    · rw [Function.update_of_ne hp] at hw
      rw [Function.update_of_ne hp'] at hw'
      exact c.unique s w w' e hw hw'
  dirty := Function.update c.dirty p false
  writable := Function.update c.writable p false
  readable := Function.update c.readable p true
  replInvalid := Function.update c.replInvalid p false
  data := Function.update c.data p data

def store (p : Pos g) (byteOffset : Nat) (value : BitVec 8) : Cache g :=
  { c with data := Function.update c.data p (Function.update (c.data p) byteOffset value) }

@[simp] theorem store_entry (p : Pos g) (off : Nat) (v : BitVec 8) : (c.store p off v).entry = c.entry := rfl

theorem store_data (p q : Pos g) (off i : Nat) (v : BitVec 8) :
    (c.store p off v).data q i = if q = p ∧ i = off then v else c.data q i := by
  unfold store
  by_cases hq : q = p
  · subst hq
    by_cases hi : i = off
    · simp [hi]
    · simp [hi]
  · simp [hq]

theorem findMatch_eq_some_iff (key : Key) (p : Pos g) :
    c.findMatch key = some p ↔ p.1 = g.extractSet key.address ∧ c.hasKey p key = true := by
  constructor
  · intro h
    have hkey := List.find?_some h
    have hmem := List.mem_of_find?_eq_some h
    simp only [Geometry.getPossibleEntries, List.mem_map] at hmem
    obtain ⟨w, -, rfl⟩ := hmem
    exact ⟨rfl, hkey⟩
  · rintro ⟨hset, hkey⟩
    obtain ⟨s, w⟩ := p
    simp only at hset
    subst hset
    have hsome : (c.findMatch key).isSome := by
      refine List.find?_isSome.2 ⟨(g.extractSet key.address, w), ?_, hkey⟩
      simp [Geometry.getPossibleEntries]
    obtain ⟨q, hq⟩ := Option.isSome_iff_exists.1 hsome
    have hqkey := List.find?_some hq
    have hmem := List.mem_of_find?_eq_some hq
    simp only [Geometry.getPossibleEntries, List.mem_map] at hmem
    obtain ⟨w', -, rfl⟩ := hmem
    have hw := c.unique _ w w' _ (of_decide_eq_true hkey) (of_decide_eq_true hqkey)
    rw [hq, hw]

end Cache

end GemFI.Mem
