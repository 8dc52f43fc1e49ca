import GemFI.GateFU.Netlist
import GemFI.Lib.Lists

/-!
# Well-ordered netlists

A netlist is well ordered if every gate reads primary inputs and earlier gates only, and every output is a gate.  Then
the value of a gate is its function of the values that its inputs end up with (`WellOrdered.gateVals_getD`), and the
evaluation that fails on a read out of bounds or of a value not computed yet (`evalNet?`) never fails
(`WellOrdered.evalNet?_eq`).

A gate that is stuck at the value it has anyway changes nothing, in any netlist (`gateVals_stuck_at_own`).
-/

namespace GemFI.GateFU

open StraightLine

/-- The gate at position `k` of a netlist with `pi_width` primary inputs may read `i`. -/
def InOrder (pi_width k : Nat) (i : Int) : Prop := (i < 0 ∧ (-i - 1).toNat < pi_width) ∨ (0 ≤ i ∧ i.toNat < k)

instance (pi_width k : Nat) (i : Int) : Decidable (InOrder pi_width k i) := inferInstanceAs (Decidable (_ ∨ _))

def GatesInOrder (pi_width : Nat) (gs : List Gate) : Prop :=
  ∀ k g, gs[k]? = some g → InOrder pi_width k g.in0 ∧ InOrder pi_width k g.in1

structure WellOrdered (N : Netlist) : Prop where
  inputs : GatesInOrder N.pi_width N.gates
  outputs : ∀ o ∈ N.po_gates, 0 ≤ o ∧ o.toNat < N.gates.length

theorem gatesInOrder_nil (pi_width : Nat) : GatesInOrder pi_width [] := fun k g h => by cases h

theorem gatesInOrder_snoc {pi_width : Nat} {gs : List Gate} {g : Gate} :
    GatesInOrder pi_width (gs ++ [g]) ↔
      GatesInOrder pi_width gs ∧ InOrder pi_width gs.length g.in0 ∧ InOrder pi_width gs.length g.in1 :=
  forall_snoc

/-! ### Values -/

section Values

variable {pis : List Bool} {sg sv : Int}

private theorem readIn_take {pi_width k : Nat} {i : Int} (h : InOrder pi_width k i) (val : List Bool) :
    readIn pis (val.take k) i = readIn pis val i := by
  unfold readIn
  rcases h with h | ⟨h0, h⟩
  · rw [if_pos h.1, if_pos h.1]
  · have hneg : ¬i < 0 := by omega
    rw [if_neg hneg, if_neg hneg, List.getD_eq_getElem?_getD, List.getD_eq_getElem?_getD, List.getElem?_take_of_lt h]

theorem WellOrdered.gateVals_getD {N : Netlist} (h : WellOrdered N) {k : Nat} {g : Gate}
    (hg : N.gates[k]? = some g) :
    (gateVals N pis sg sv).getD k false =
      if (k : Int) = sg then decide (sv ≠ 0)
      else g.type.apply (readIn pis (gateVals N pis sg sv) g.in0) (readIn pis (gateVals N pis sg sv) g.in1) := by
  obtain ⟨h0, h1⟩ := h.inputs k g hg
  have hk := (List.getElem?_eq_some_iff.1 hg).1
  have hlen : ((gateVals N pis sg sv).take k).length = k := by
    rw [List.length_take, gateVals, evalAll_length]
    omega
  have hval := evalAll_getElem? (gateValue pis sg sv) hg
  rw [← gateVals, gateValue, hlen, readIn_take h0, readIn_take h1] at hval
  rw [List.getD_eq_getElem?_getD, hval, Option.getD_some]

end Values

/-! ### A gate stuck at its own value -/

theorem gateVals_stuck_at_own (N : Netlist) (pis : List Bool) (k : Nat) (v sv : Int)
    (hv : decide (v ≠ 0) = (gateVals N pis (-1) sv).getD k false) :
    gateVals N pis k v = gateVals N pis (-1) sv := by
  refine evalAll_congr fun j g hg => ?_
  have hj := (List.getElem?_eq_some_iff.1 hg).1
  have hlen : ((evalAll (gateValue pis (-1) sv) N.gates).take j).length = j := by
    rw [List.length_take, evalAll_length]
    omega
  have hval := evalAll_getElem? (gateValue pis (-1) sv) hg
  by_cases hjk : j = k
  · subst hjk
    rw [gateVals, List.getD_eq_getElem?_getD, hval, Option.getD_some] at hv
    rw [← hv, gateValue, hlen, if_pos rfl]
  · rw [gateValue, gateValue, hlen, if_neg (by omega), if_neg (by omega)]

theorem evalNet_stuck_at_own (N : Netlist) (pis : List Bool) (k : Nat) (v sv : Int)
    (hv : decide (v ≠ 0) = (gateVals N pis (-1) sv).getD k false) :
    evalNet N pis k v = evalNet N pis (-1) sv := by
  rw [evalNet, evalNet, gateVals_stuck_at_own N pis k v sv hv]

/-! ### Checked evaluation -/

/-- A read that fails out of bounds and on a gate that has no value yet. -/
def readIn? (pis val : List Bool) (i : Int) : Option Bool := if i < 0 then pis[(-i - 1).toNat]? else val[i.toNat]?

def gateValue? (pis : List Bool) (stuck_gate stuck_val : Int) (val : List Bool) (g : Gate) : Option Bool := do
  let x ← readIn? pis val g.in0
  let y ← readIn? pis val g.in1
  return if (val.length : Int) = stuck_gate then decide (stuck_val ≠ 0) else g.type.apply x y

def gateVals? (pis : List Bool) (stuck_gate stuck_val : Int) (gs : List Gate) : Option (List Bool) :=
  gs.foldlM (fun val g => do return val ++ [← gateValue? pis stuck_gate stuck_val val g]) []

def evalNet? (N : Netlist) (pis : List Bool) (stuck_gate stuck_val : Int) : Option (List Bool) := do
  let val ← gateVals? pis stuck_gate stuck_val N.gates
  N.po_gates.mapM fun po => if 0 ≤ po then val[po.toNat]? else none

section Checked

variable {pis : List Bool} {sg sv : Int}

private theorem readIn?_eq {k : Nat} {i : Int} {val : List Bool} (hlen : val.length = k)
    (h : InOrder pis.length k i) : readIn? pis val i = some (readIn pis val i) := by
  unfold readIn? readIn
  rcases h with ⟨h0, h⟩ | ⟨h0, h⟩
  · rw [if_pos h0, if_pos h0, List.getD_eq_getElem?_getD, List.getElem?_eq_getElem h]
    rfl
  · have hneg : ¬i < 0 := by omega
    have hi : i.toNat < val.length := by omega
    rw [if_neg hneg, if_neg hneg, List.getD_eq_getElem?_getD, List.getElem?_eq_getElem hi]
    rfl

private theorem gateVals?_eq {gs : List Gate} (h : GatesInOrder pis.length gs) :
    gateVals? pis sg sv gs = some (evalAll (gateValue pis sg sv) gs) := by
  induction gs using List.reverseRecOn with
  | nil => rfl
  | append_singleton gs g ih =>
    obtain ⟨hinit, h0, h1⟩ := gatesInOrder_snoc.1 h
    have hlen := evalAll_length (gateValue pis sg sv) gs
    have hih := ih hinit
    rw [gateVals?] at hih
    rw [gateVals?, List.foldlM_append, hih, evalAll_snoc]
    simp [gateValue?, readIn?_eq hlen h0, readIn?_eq hlen h1, gateValue]

theorem WellOrdered.evalNet?_eq {N : Netlist} (h : WellOrdered N) (hpis : pis.length = N.pi_width) :
    evalNet? N pis sg sv = some (evalNet N pis sg sv) := by
  have hgates : gateVals? pis sg sv N.gates = some (gateVals N pis sg sv) := gateVals?_eq (hpis ▸ h.inputs)
  have hread : ∀ po ∈ N.po_gates, (if 0 ≤ po then (gateVals N pis sg sv)[po.toNat]? else none) =
      some (if 0 ≤ po then (gateVals N pis sg sv).getD po.toNat false else false) := by
    intro po hpo
    obtain ⟨h0, hlt⟩ := h.outputs po hpo
    have hlt' : po.toNat < (gateVals N pis sg sv).length := by rwa [gateVals, evalAll_length]
    rw [if_pos h0, if_pos h0, List.getD_eq_getElem?_getD, List.getElem?_eq_getElem hlt']
    rfl
  rw [evalNet?, hgates, evalNet]
  exact mapM_eq_some hread

end Checked

end GemFI.GateFU
