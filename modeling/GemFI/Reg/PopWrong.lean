import GemFI.Reg.CHAOSFreeList

/-!
# The register that pop_wrong takes

A fault of the mode `PopWrong` puts a register that is in use at the end of the free list of its class and takes a
register from the list at once.  The list is a queue, so `getReg` returns the register that has been free for the
longest time.  It is the marked one only if no register was free; else a free register leaves the list without an
owner, and the marked one stays on it.
-/

namespace GemFI.Reg

abbrev FreeListConfig.target_class (cfg : FreeListConfig) : RegClassType := cfg.reg_target_class.target_class

namespace CHAOSFreeList

variable {cfg : FreeListConfig}

/-- The next register of a free list, and the list without it. -/
def getReg : List Nat → Option (Nat × List Nat)
  | [] => none
  | free_reg :: freeRegs => some (free_reg, freeRegs)

/-- The attack on the thread injects a fault, with the register `phys` in use as its target. -/
def Faults (s : CHAOSFreeList cfg) (tid phys : Nat) : Prop :=
  ¬Spent s ∧ (!cfg.hasContext tid || !cfg.hasIsa tid) = false ∧
    cfg.numArchRegs tid cfg.target_class ≠ 0 ∧
    (chooseTarget s tid cfg.target_class).1 = some phys ∧
    phys ∉ s.freeRegs cfg.target_class

instance (s : CHAOSFreeList cfg) (tid phys : Nat) : Decidable (Faults s tid phys) :=
  inferInstanceAs (Decidable (_ ∧ _))

theorem getReg_marked (freeRegs : List Nat) (phys : Nat) :
    getReg (freeRegs ++ [phys]) = some ((freeRegs ++ [phys]).head (by simp), (freeRegs ++ [phys]).tail) := by
  cases freeRegs <;> rfl

private theorem popWrong_addReg (hmode : cfg.fi_mode = .PopWrong) (s : CHAOSFreeList cfg) (cls : RegClassType)
    (phys : Nat) : (popWrong (addReg s cls phys) cls).numPopWrong = s.numPopWrong + 1 ∧
      (popWrong (addReg s cls phys) cls).freeRegs = Function.update s.freeRegs cls (s.freeRegs cls ++ [phys]).tail := by
  have hcls : (addReg s cls phys).freeRegs cls = s.freeRegs cls ++ [phys] := Function.update_self ..
  unfold popWrong
  rw [if_pos ⟨hmode, by simp [hcls]⟩, hcls]
  exact ⟨rfl, Function.update_idem ..⟩

theorem processFault_popWrong {s : CHAOSFreeList cfg} {tid phys : Nat} (hmode : cfg.fi_mode = .PopWrong)
    (hfault : Faults s tid phys) :
    (processFault s tid).numPopWrong = s.numPopWrong + 1 ∧
    (processFault s tid).freeRegs =
      Function.update s.freeRegs cfg.target_class (s.freeRegs cfg.target_class ++ [phys]).tail := by
  obtain ⟨hspent, hctx, harch, htarget, hlive⟩ := hfault
  unfold processFault
  dsimp only
  rw [if_neg hspent, hctx, if_neg Bool.false_ne_true, if_neg harch, htarget]
  dsimp only
  rw [if_neg hlive]
  exact popWrong_addReg hmode _ _ phys

/-- The register that `getReg` returns is the marked one, and the free lists are what they were, exactly if no register
of the class was free.  Else the returned register is the first one that was free, and the marked one stays. -/
theorem popWrong_returns_iff {s : CHAOSFreeList cfg} {tid phys : Nat} (hmode : cfg.fi_mode = .PopWrong)
    (hfault : Faults s tid phys) :
    ∃ popped rest, getReg (s.freeRegs cfg.target_class ++ [phys]) = some (popped, rest) ∧
      (processFault s tid).freeRegs = Function.update s.freeRegs cfg.target_class rest ∧
      (popped = phys ↔ s.freeRegs cfg.target_class = []) ∧
      ((processFault s tid).freeRegs = s.freeRegs ↔ s.freeRegs cfg.target_class = []) ∧
      (s.freeRegs cfg.target_class ≠ [] →
        popped ∈ s.freeRegs cfg.target_class ∧ phys ∈ rest) := by
  have hlive := hfault.2.2.2.2
  refine ⟨_, _, getReg_marked _ phys, (processFault_popWrong hmode hfault).2, ?_⟩
  rw [(processFault_popWrong hmode hfault).2]
  cases hfree : s.freeRegs cfg.target_class with
  | nil =>
    have hsame : Function.update s.freeRegs cfg.target_class ([] : List Nat) = s.freeRegs := by
      rw [← hfree, Function.update_eq_self]
    exact ⟨iff_of_true rfl rfl, iff_of_true hsame rfl, fun h => absurd rfl h⟩
  | cons first free =>
    rw [hfree] at hlive
    refine ⟨iff_of_false ?_ (by simp), iff_of_false ?_ (by simp), fun _ => ⟨by simp, by simp⟩⟩
    · intro h
      have hfirst : first = phys := h
      exact hlive (by simp [hfirst])
    · -- the marked register is on the new list and was not on the old one
      intro h
      have hlist := congrFun h cfg.target_class
      rw [Function.update_self, hfree] at hlist
      refine hlive ?_
      rw [← hlist]
      simp

def noneFree : CHAOSFreeList { oneInUse with fi_mode := .PopWrong } :=
  startup _ (fun _ => []) (fun _ _ a => if a = 0 then some 0 else none) fun _ => 0

def oneFree : CHAOSFreeList { oneInUse with fi_mode := .PopWrong } :=
  startup _ (fun _ => [1]) (fun _ _ a => if a = 0 then some 0 else none) fun _ => 0

/-- With an empty free list the marked register is returned. -/
theorem popWrong_returns_empty :
    Faults noneFree 0 0 ∧ (∃ rest, getReg (noneFree.freeRegs (.scalar .IntRegClass) ++ [0]) = some (0, rest)) ∧
    (processFault noneFree 0).freeRegs = noneFree.freeRegs := by
  have hfault : Faults noneFree 0 0 := by decide
  obtain ⟨popped, rest, hget, -, hpopped, hfree, -⟩ := popWrong_returns_iff rfl hfault
  obtain rfl : popped = 0 := hpopped.2 rfl
  exact ⟨hfault, ⟨rest, hget⟩, hfree.2 rfl⟩

/-- The register 0 is marked, but the register 1 is returned, and the register 0 stays on the free list. -/
theorem popWrong_returns_other :
    Faults oneFree 0 0 ∧ getReg (oneFree.freeRegs (.scalar .IntRegClass) ++ [0]) = some (1, [0]) ∧
    (processFault oneFree 0).numPopWrong = 1 ∧
    oneFree.freeRegs (.scalar .IntRegClass) = [1] ∧ (processFault oneFree 0).freeRegs (.scalar .IntRegClass) = [0] := by
  decide

end CHAOSFreeList

end GemFI.Reg
