import GemFI.Lib.StraightLine

/-!
# Gate netlists of CHAOSGateFU

The netlist of a functional unit is a gate list (`gates`), the gates that drive its outputs (`po_gates`) and its
number of primary inputs (`pi_width`).  A gate input is the index of a gate, or `-(i+1)` for primary input `i`.
`evalNet` evaluates the gates in order, with the output of one gate optionally forced, and `synthGate` is the only
operation that adds a gate.

A netlist is a straight-line program, so `Wire` (a gate input carries a value) survives the addition of gates, and a
synthesis function is verified with the builder rules.
-/

namespace GemFI.GateFU

open StraightLine

inductive GateType where
  | and | or | xor | not
  deriving DecidableEq, Repr

structure Gate where
  type : GateType
  in0 : Int
  in1 : Int
  deriving DecidableEq, Repr

structure Netlist where
  gates : List Gate
  po_gates : List Int
  pi_width : Nat
  deriving DecidableEq, Repr

/-! ### Evaluation -/

/-- The value of a gate input: a primary input for negative indices, else the value of an earlier gate.  The values
computed so far are `val`; a gate not computed yet still holds the initial `false` of the value vector. -/
def readIn (pis val : List Bool) (i : Int) : Bool :=
  if i < 0 then pis.getD (-i - 1).toNat false else val.getD i.toNat false

def GateType.apply : GateType → Bool → Bool → Bool
  | .and, x, y => x && y
  | .or, x, y => x || y
  | .xor, x, y => x != y
  | .not, x, _ => !x

/-- The value of the next gate: its function of its inputs, unless it is the stuck gate. -/
def gateValue (pis : List Bool) (stuck_gate stuck_val : Int) (val : List Bool) (g : Gate) : Bool :=
  if (val.length : Int) = stuck_gate then decide (stuck_val ≠ 0)
  else g.type.apply (readIn pis val g.in0) (readIn pis val g.in1)

def gateVals (N : Netlist) (pis : List Bool) (stuck_gate stuck_val : Int) : List Bool :=
  evalAll (gateValue pis stuck_gate stuck_val) N.gates

def evalNet (N : Netlist) (pis : List Bool) (stuck_gate stuck_val : Int) : List Bool :=
  N.po_gates.map fun po => if 0 ≤ po then (gateVals N pis stuck_gate stuck_val).getD po.toNat false else false

/-- The primary inputs of a two-operand unit of width `w`: `PI[i]` is bit `i` of `a` and `PI[w + j]` is bit `j`
of `b`. -/
def operandPIs (w a b : Nat) : List Bool := (List.range w).map a.testBit ++ (List.range w).map b.testBit

/-! ### Synthesis -/

abbrev Synth := Builder Gate

def synthGate (t : GateType) (in0 in1 : Int) : Synth Int := do
  let i ← emit ⟨t, in0, in1⟩
  return (i : Int)

/-! ### Wires -/

section Wires

variable (pis : List Bool) (sg sv : Int)

/-- In the netlist `gs` the gate input `i` exists and carries `b`. -/
def Wire (gs : List Gate) (i : Int) (b : Bool) : Prop :=
  if i < 0 then pis[(-i - 1).toNat]? = some b else HasVal (gateValue pis sg sv) gs i.toNat b

variable {pis sg sv}

theorem Wire.mono {gs gs' : List Gate} {i : Int} {b : Bool} (hp : gs <+: gs') (h : Wire pis sg sv gs i b) :
    Wire pis sg sv gs' i b := by
  unfold Wire at h ⊢
  split
  · simpa [*] using h
  · simp only [*, ↓reduceIte] at h
    exact h.mono hp

theorem Wire.read {gs : List Gate} {i : Int} {b : Bool} (h : Wire pis sg sv gs i b) :
    readIn pis (evalAll (gateValue pis sg sv) gs) i = b := by
  unfold Wire at h
  unfold readIn
  split at h
  · simp only [*, ↓reduceIte, List.getD_eq_getElem?_getD, Option.getD_some]
  · simp only [*, ↓reduceIte]
    exact h.getD_eq

theorem wire_pi {gs : List Gate} {i : Nat} {b : Bool} (h : pis[i]? = some b) :
    Wire pis sg sv gs (-(i + 1 : Nat)) b := by
  unfold Wire
  rw [if_pos (by omega), show (-(-((i + 1 : Nat) : Int)) - 1).toNat = i by omega, h]

theorem builds_synthGate {t : GateType} {in0 in1 : Int} {gs : List Gate} {x y : Bool} (hsg : sg < 0)
    (hx : Wire pis sg sv gs in0 x) (hy : Wire pis sg sv gs in1 y) :
    Builds (synthGate t in0 in1) gs fun o gs' => 0 ≤ o ∧ Wire pis sg sv gs' o (t.apply x y) := by
  refine Builds.bind (P := fun (i : Nat) gs' => Wire pis sg sv gs' (i : Int) (t.apply x y)) (builds_emit ?_) ?_
  · have hv := hasVal_snoc (gateValue pis sg sv) gs ⟨t, in0, in1⟩
    have hne : ((evalAll (gateValue pis sg sv) gs).length : Int) ≠ sg := by omega
    rw [gateValue, if_neg hne, hx.read, hy.read] at hv
    unfold Wire
    rw [if_neg (by omega)]
    exact hv
  · intro i gs' _ hw
    exact builds_pure ⟨by omega, hw⟩

theorem evalNet_eq_map {N : Netlist} {f : Nat → Bool}
    (h : ∀ k o, N.po_gates[k]? = some o → 0 ≤ o ∧ Wire pis sg sv N.gates o (f k)) :
    evalNet N pis sg sv = (List.range N.po_gates.length).map f := by
  apply List.ext_getElem
  · simp [evalNet]
  · intro k h1 h2
    have hk : k < N.po_gates.length := by simpa using h2
    obtain ⟨ho, hw⟩ := h k _ (List.getElem?_eq_getElem hk)
    have hr := hw.read
    simp only [readIn, show ¬ N.po_gates[k] < 0 by omega, ↓reduceIte] at hr
    simpa [evalNet, gateVals, ho] using hr

end Wires

theorem operandPIs_left {w i : Nat} (a b : Nat) (hi : i < w) : (operandPIs w a b)[i]? = some (a.testBit i) := by
  unfold operandPIs
  rw [List.getElem?_append_left (by simpa using hi)]
  simp [hi]

theorem operandPIs_right {w j : Nat} (a b : Nat) (hj : j < w) :
    (operandPIs w a b)[w + j]? = some (b.testBit j) := by
  unfold operandPIs
  rw [List.getElem?_append_right (by simp)]
  simp [hj]

end GemFI.GateFU
