import GemFI.GateFU.Netlist
import GemFI.Lib.Binary

/-!
# The shift-add array multiplier netlist

`synthesizeMultiplier` forms the partial products `a[j] & b[i]`, starts with row 0 and adds the rows `1, …, w-1`, each
shifted to its place, with a ripple-carry row over all `2w` bits; the carry that leaves a row is dropped.  After row
`i` the accumulator carries the bits of `a * (b % 2^(i+1))`, which is below `2^(2w)`, so the dropped carries are zero.
-/

namespace GemFI.GateFU

open StraightLine Binary

/-- The gates `pp[i][j] = a[j] & b[i]`. -/
def partialProducts (width : Nat) : Synth (List (List Int)) :=
  forRange (fun i => forRange (fun j => synthGate .and (-(j + 1 : Nat)) (-(width + i + 1 : Nat))) width) width

def rowInput (width : Nat) (pp : List (List Int)) (const0 : Int) (i k : Nat) : Int :=
  if i ≤ k ∧ k - i < width then (pp.getD i []).getD (k - i) 0 else const0

def fullAdderCell (x y carry : Int) : Synth (Int × Int) := do
  let xyc ← synthGate .xor x y
  let xy ← synthGate .and x y
  let sum ← synthGate .xor xyc carry
  let xc ← synthGate .and xyc carry
  let carry ← synthGate .or xy xc
  return (sum, carry)

/-- The ripple row that adds partial product row `i` to `acc`: the sum gates, and the carry left over at the end. -/
def rippleRow (width : Nat) (pp : List (List Int)) (const0 : Int) (acc : List Int) (i : Nat) :
    Synth (List Int × Int) :=
  foldRange (fun k st => do
    let (s, c) ← fullAdderCell (acc.getD k 0) (rowInput width pp const0 i k) st.2
    return (st.1 ++ [s], c)) (2 * width) ([], const0)

/-- The rows `1, …, width-1`.  The second component lists the carries left over by the rows; the source drops
them. -/
def multiplierRows (width : Nat) (pp : List (List Int)) (const0 : Int) (acc : List Int) :
    Synth (List Int × List Int) :=
  foldRange (fun r st => do
    let (sum, carry) ← rippleRow width pp const0 st.1 (r + 1)
    return (sum, st.2 ++ [carry])) (width - 1) (acc, [])

def multiplierGates (width : Nat) : Synth (List Int × List Int) := do
  let pp ← partialProducts width
  let not_a0 ← synthGate .not (-1) (-1)
  let const0 ← synthGate .and (-1) not_a0
  let acc := (List.range (2 * width)).map fun j => if j < width then (pp.getD 0 []).getD j 0 else const0
  multiplierRows width pp const0 acc

def synthesizeMultiplier (width : Nat) : Netlist :=
  let r := multiplierGates width []
  { gates := r.2, po_gates := r.1.1, pi_width := 2 * width }

def rowCarries (width : Nat) : List Int := (multiplierGates width []).1.2

/-! ### The arithmetic of a row -/

private def rowBits (w a b i k : Nat) : Bool := decide (i ≤ k ∧ k - i < w) && (a.testBit (k - i) && b.testBit i)

private theorem valBelow_rowBits {w a b i : Nat} (ha : a < 2 ^ w) (hi : i < w) :
    valBelow (rowBits w a b i) (2 * w) = a * (b.testBit i).toNat * 2 ^ i := by
  have htop : ∀ k, i + w ≤ k → k < 2 * w → rowBits w a b i k = false := by
    intro k hk _
    simp [rowBits, show ¬ k - i < w by omega]
  have hlow : ∀ k < i, rowBits w a b i k = false := by
    intro k hk
    simp [rowBits, show ¬ i ≤ k by omega]
  have hmid : ∀ j < w, rowBits w a b i (i + j) = (a.testBit j && b.testBit i) := by
    intro j hj
    simp [rowBits, hj]
  rw [valBelow_extend _ (by omega) htop, valBelow_shift _ _ i w hlow hmid]
  congr 1
  cases b.testBit i with
  | false => simpa [valBelow] using valBelow_extend (fun j => a.testBit j && false) (Nat.zero_le w) (by simp)
  | true => simpa [valBelow_testBit] using Nat.mod_eq_of_lt ha

private theorem mul_mod_succ (a b i : Nat) :
    a * (b % 2 ^ (i + 1)) = a * (b % 2 ^ i) + a * (b.testBit i).toNat * 2 ^ i := by
  have h : b % 2 ^ (i + 1) = b % 2 ^ i + (b.testBit i).toNat * 2 ^ i := by
    rw [← valBelow_testBit, ← valBelow_testBit]; rfl
  rw [h, Nat.mul_add, Nat.mul_assoc]

private theorem mul_mod_lt {w a b i : Nat} (ha : a < 2 ^ w) (hi : i ≤ w) : a * (b % 2 ^ i) < 2 ^ (2 * w) := by
  have hb : b % 2 ^ i < 2 ^ w :=
    Nat.lt_of_lt_of_le (Nat.mod_lt _ (Nat.two_pow_pos i)) (Nat.pow_le_pow_right (by decide) hi)
  rw [Nat.two_mul, Nat.pow_add]
  exact Nat.mul_lt_mul'' ha hb

private theorem row_arith {w a b i : Nat} (ha : a < 2 ^ w) (hi : i < w) :
    carry (a * (b % 2 ^ i)).testBit (rowBits w a b i) (2 * w) = false ∧
    ∀ k < 2 * w, sumBit (a * (b % 2 ^ i)).testBit (rowBits w a b i) k = (a * (b % 2 ^ (i + 1))).testBit k := by
  have hx : valBelow (a * (b % 2 ^ i)).testBit (2 * w) = a * (b % 2 ^ i) := by
    rw [valBelow_testBit, Nat.mod_eq_of_lt (mul_mod_lt ha (by omega))]
  have hsum : valBelow (a * (b % 2 ^ i)).testBit (2 * w) + valBelow (rowBits w a b i) (2 * w) =
      a * (b % 2 ^ (i + 1)) := by
    rw [hx, valBelow_rowBits ha hi, mul_mod_succ]
  have hc : carry (a * (b % 2 ^ i)).testBit (rowBits w a b i) (2 * w) = false := by
    apply carry_eq_false
    rw [hsum]
    exact mul_mod_lt ha hi
  refine ⟨hc, fun k hk => eq_testBit_of_valBelow ?_ hk⟩
  have h := ripple (a * (b % 2 ^ i)).testBit (rowBits w a b i) (2 * w)
  rw [hc, hsum] at h
  simpa using h

/-! ### The netlist -/

section Rows

variable {pis : List Bool} {sg sv : Int} {pp : List (List Int)}

variable {const0 : Int} {gs : List Gate}

private theorem builds_fullAdderCell (hsg : sg < 0) {x y c : Int} {vx vy vc : Bool}
    (hx : Wire pis sg sv gs x vx) (hy : Wire pis sg sv gs y vy) (hc : Wire pis sg sv gs c vc) :
    Builds (fullAdderCell x y c) gs fun r gs' =>
      (0 ≤ r.1 ∧ Wire pis sg sv gs' r.1 ((vx ^^ vy) ^^ vc)) ∧
      (0 ≤ r.2 ∧ Wire pis sg sv gs' r.2 ((vx && vy) || ((vx ^^ vy) && vc))) := by
  unfold fullAdderCell
  refine (builds_synthGate hsg hx hy).bind fun xyc gs₁ h₁ hxyc => ?_
  refine (builds_synthGate hsg (hx.mono h₁) (hy.mono h₁)).bind fun xy gs₂ h₂ hxy => ?_
  refine (builds_synthGate hsg (hxyc.2.mono h₂) (hc.mono (h₁.trans h₂))).bind fun s gs₃ h₃ hs => ?_
  refine (builds_synthGate hsg (hxyc.2.mono (h₂.trans h₃)) (hc.mono ((h₁.trans h₂).trans h₃))).bind
    fun xc gs₄ h₄ hxc => ?_
  refine (builds_synthGate hsg (hxy.2.mono (h₃.trans h₄)) hxc.2).bind fun co gs₅ h₅ hco => ?_
  refine builds_pure ⟨⟨hs.1, ?_⟩, hco.1, ?_⟩
  · simpa [GateType.apply] using hs.2.mono (h₄.trans h₅)
  · simpa [GateType.apply] using hco.2

private theorem builds_rippleRow (hsg : sg < 0) {w i : Nat} {acc : List Int} {x y : Nat → Bool} (h0 : 0 ≤ const0) (hc0 : Wire pis sg sv gs const0 false)
    (hx : ∀ k < 2 * w, Wire pis sg sv gs (acc.getD k 0) (x k))
    (hy : ∀ k < 2 * w, Wire pis sg sv gs (rowInput w pp const0 i k) (y k)) :
    Builds (rippleRow w pp const0 acc i) gs fun r gs' => r.1.length = 2 * w ∧
      (∀ k o, r.1[k]? = some o → 0 ≤ o ∧ Wire pis sg sv gs' o (sumBit x y k)) ∧
      0 ≤ r.2 ∧ Wire pis sg sv gs' r.2 (carry x y (2 * w)) := by
  unfold rippleRow
  apply builds_foldRange (I := fun n (r : List Int × Int) gs' => r.1.length = n ∧
      (∀ k o, r.1[k]? = some o → 0 ≤ o ∧ Wire pis sg sv gs' o (sumBit x y k)) ∧
      0 ≤ r.2 ∧ Wire pis sg sv gs' r.2 (carry x y n))
  · exact ⟨rfl, by simp, h0, hc0⟩
  · rintro k hk ⟨s, c⟩ gs₁ h₁ ⟨hlen, hs, -, hc⟩
    dsimp only at hlen
    refine (builds_fullAdderCell hsg ((hx k hk).mono h₁) ((hy k hk).mono h₁) hc).bind ?_
    rintro ⟨o, co⟩ gs₂ h₂ ⟨⟨ho0, ho⟩, hco⟩
    refine builds_pure ⟨by simp [hlen], ?_, hco⟩
    intro j z hz
    by_cases hj : j < k
    · rw [List.getElem?_append_left (by omega : j < s.length)] at hz
      exact ⟨(hs j z hz).1, (hs j z hz).2.mono h₂⟩
    · rw [List.getElem?_append_right (by omega : s.length ≤ j)] at hz
      obtain ⟨hj', rfl⟩ := List.getElem?_eq_some_iff.1 hz
      have hjk : j = k := by simp at hj'; omega
      subst hjk
      simpa [hlen] using ⟨ho0, ho⟩

private structure PPWires (pis : List Bool) (sg sv : Int) (w a b : Nat) (pp : List (List Int)) (const0 : Int)
    (gs : List Gate) : Prop where
  const0_nonneg : 0 ≤ const0
  const0_wire : Wire pis sg sv gs const0 false
  pp_nonneg : ∀ i < w, ∀ j < w, 0 ≤ (pp.getD i []).getD j 0
  pp_wire : ∀ i < w, ∀ j < w, Wire pis sg sv gs ((pp.getD i []).getD j 0) (a.testBit j && b.testBit i)

private theorem PPWires.mono {w a b : Nat} {gs gs' : List Gate} (hp : gs <+: gs')
    (h : PPWires pis sg sv w a b pp const0 gs) : PPWires pis sg sv w a b pp const0 gs' :=
  ⟨h.const0_nonneg, h.const0_wire.mono hp, h.pp_nonneg, fun i hi j hj => (h.pp_wire i hi j hj).mono hp⟩

private theorem PPWires.rowInput {w a b : Nat}
    (h : PPWires pis sg sv w a b pp const0 gs) {i : Nat} (hi : i < w) (k : Nat) :
    Wire pis sg sv gs (rowInput w pp const0 i k) (rowBits w a b i k) := by
  unfold GateFU.rowInput rowBits
  split
  · next hk => simpa [hk] using h.pp_wire i hi (k - i) hk.2
  · next hk => simpa [hk] using h.const0_wire

/-- After the rows `1, …, r` the accumulator carries `a * (b % 2^(r+1))`, and all left-over carries are zero. -/
private def AccInv (pis : List Bool) (sg sv : Int) (w a b r : Nat) (st : List Int × List Int) (gs : List Gate) :
    Prop :=
  st.1.length = 2 * w ∧
  (∀ k o, st.1[k]? = some o → 0 ≤ o ∧ Wire pis sg sv gs o ((a * (b % 2 ^ (r + 1))).testBit k)) ∧
  st.2.length = r ∧ ∀ c ∈ st.2, 0 ≤ c ∧ Wire pis sg sv gs c false

private theorem builds_multiplierRows (hsg : sg < 0) {w a b : Nat} (ha : a < 2 ^ w) {acc : List Int} (hpp : PPWires pis sg sv w a b pp const0 gs) (h0 : AccInv pis sg sv w a b 0 (acc, []) gs) :
    Builds (multiplierRows w pp const0 acc) gs (AccInv pis sg sv w a b (w - 1)) := by
  unfold multiplierRows
  apply builds_foldRange (I := AccInv pis sg sv w a b) h0
  rintro r hr ⟨acc, cs⟩ gs₁ h₁ ⟨hlen, hacc, hclen, hcs⟩
  dsimp only at hlen hclen
  have hpp₁ := hpp.mono h₁
  obtain ⟨hcarry, hsum⟩ := row_arith (w := w) (a := a) (b := b) (i := r + 1) ha (by omega)
  have hx : ∀ k < 2 * w, Wire pis sg sv gs₁ (acc.getD k 0) ((a * (b % 2 ^ (r + 1))).testBit k) := by
    intro k hk
    rw [List.getD_eq_getElem?_getD, List.getElem?_eq_getElem (by omega : k < acc.length)]
    exact (hacc k _ (List.getElem?_eq_getElem (show k < acc.length by omega))).2
  refine (builds_rippleRow hsg hpp₁.const0_nonneg hpp₁.const0_wire hx
    fun k _ => hpp₁.rowInput (show r + 1 < w by omega) k).bind ?_
  rintro ⟨s, c⟩ gs₂ h₂ ⟨hslen, hs, hc0, hc⟩
  refine builds_pure ⟨hslen, ?_, by simp [hclen], ?_⟩
  · intro k o ho
    have hk : k < 2 * w := hslen ▸ (List.getElem?_eq_some_iff.1 ho).1
    rw [← hsum k hk]
    exact hs k o ho
  · intro c' hc'
    rcases List.mem_append.1 hc' with h | h
    · exact ⟨(hcs c' h).1, (hcs c' h).2.mono h₂⟩
    · rw [List.mem_singleton.1 h]
      exact ⟨hc0, hcarry ▸ hc⟩

end Rows

private theorem builds_partialProducts {sg : Int} (sv : Int) (hsg : sg < 0) (w a b : Nat) (gs : List Gate) :
    Builds (partialProducts w) gs fun pp gs' => pp.length = w ∧ ∀ i row, pp[i]? = some row → row.length = w ∧
      ∀ j o, row[j]? = some o → 0 ≤ o ∧ Wire (operandPIs w a b) sg sv gs' o (a.testBit j && b.testBit i) := by
  refine builds_forRange ?_ ?_
  · rintro i row gs₁ gs₂ hp ⟨hlen, hrow⟩
    exact ⟨hlen, fun j o ho => ⟨(hrow j o ho).1, (hrow j o ho).2.mono hp⟩⟩
  · intro i hi gs₁ _
    refine builds_forRange ?_ ?_
    · rintro j o gs₂ gs₃ hp ⟨h0, h1⟩
      exact ⟨h0, h1.mono hp⟩
    · intro j hj gs₂ _
      exact builds_synthGate hsg (wire_pi (operandPIs_left a b hj)) (wire_pi (operandPIs_right a b hi))

private theorem builds_multiplierGates {sg : Int} (sv : Int) (hsg : sg < 0) {w a b : Nat} (hw : 1 ≤ w)
    (ha : a < 2 ^ w) :
    Builds (multiplierGates w) [] (AccInv (operandPIs w a b) sg sv w a b (w - 1)) := by
  refine (builds_partialProducts sv hsg w a b []).bind ?_
  rintro pp gs₁ - ⟨hlen, hpp⟩
  have ha0 : ∀ gs', Wire (operandPIs w a b) sg sv gs' (-1) (a.testBit 0) :=
    fun _ => wire_pi (operandPIs_left a b hw)
  refine (builds_synthGate hsg (ha0 gs₁) (ha0 gs₁)).bind fun not_a0 gs₂ h₂ hnot => ?_
  refine (builds_synthGate hsg (ha0 gs₂) hnot.2).bind fun const0 gs₃ h₃ hc0 => ?_
  have hget : ∀ i < w, ∀ j < w, ∃ o, (pp.getD i []).getD j 0 = o ∧ 0 ≤ o ∧
      Wire (operandPIs w a b) sg sv gs₁ o (a.testBit j && b.testBit i) := by
    intro i hi j hj
    obtain ⟨hrl, hrow⟩ := hpp i _ (List.getElem?_eq_getElem (by omega))
    refine ⟨_, rfl, ?_⟩
    simp only [List.getD_eq_getElem?_getD, List.getElem?_eq_getElem (show i < pp.length by omega),
      Option.getD_some, List.getElem?_eq_getElem (show j < pp[i].length by omega)]
    exact hrow j _ (List.getElem?_eq_getElem (by omega))
  have hP : PPWires (operandPIs w a b) sg sv w a b pp const0 gs₃ := by
    refine ⟨hc0.1, ?_, ?_, ?_⟩
    · simpa [GateType.apply] using hc0.2
    · intro i hi j hj
      obtain ⟨o, rfl, h0, -⟩ := hget i hi j hj
      exact h0
    · intro i hi j hj
      obtain ⟨o, rfl, -, hwire⟩ := hget i hi j hj
      exact hwire.mono (h₂.trans h₃)
  refine builds_multiplierRows hsg ha hP ⟨by simp, ?_, rfl, by simp⟩
  -- row 0 is `pp[0]`, with the constant zero above it
  intro k o ho
  obtain ⟨hk, rfl⟩ := List.getElem?_eq_some_iff.1 ho
  have hb0 : b % 2 ^ (0 + 1) = (b.testBit 0).toNat := by rw [Nat.toNat_testBit]; simp
  simp only [List.getElem_map, List.getElem_range]
  rw [hb0]
  split
  · next hkw =>
    refine ⟨hP.pp_nonneg 0 hw k hkw, ?_⟩
    have := hP.pp_wire 0 hw k hkw
    cases hb : b.testBit 0 <;> simpa [hb] using this
  · next hkw =>
    refine ⟨hP.const0_nonneg, ?_⟩
    have hak : a.testBit k = false :=
      Nat.testBit_lt_two_pow (Nat.lt_of_lt_of_le ha (Nat.pow_le_pow_right (by decide) (by omega)))
    cases hb : b.testBit 0 <;> simpa [hak] using hP.const0_wire

/-- The fault-free multiplier netlist multiplies: its `2w` outputs are the bits of `a * b`, and the carry left over
by each of its `w - 1` ripple rows is zero. -/
theorem evalNet_synthesizeMultiplier (w a b : Nat) (stuck_val : Int) (hw : 1 ≤ w) (ha : a < 2 ^ w)
    (hb : b < 2 ^ w) :
    evalNet (synthesizeMultiplier w) (operandPIs w a b) (-1) stuck_val =
      (List.range (2 * w)).map (a * b).testBit ∧
    (rowCarries w).length = w - 1 ∧
    ∀ c ∈ rowCarries w, 0 ≤ c ∧
      (gateVals (synthesizeMultiplier w) (operandPIs w a b) (-1) stuck_val)[c.toNat]? = some false := by
  obtain ⟨-, hlen, hacc, hclen, hcs⟩ := builds_multiplierGates (b := b) stuck_val (by decide : (-1 : Int) < 0) hw ha
  have hbw : b % 2 ^ (w - 1 + 1) = b := by rw [Nat.sub_add_cancel hw, Nat.mod_eq_of_lt hb]
  rw [hbw] at hacc
  refine ⟨?_, hclen, ?_⟩
  · rw [evalNet_eq_map (N := synthesizeMultiplier w) (f := (a * b).testBit) hacc]
    exact congrArg (fun n => (List.range n).map _) hlen
  · intro c hc
    obtain ⟨h0, hwire⟩ := hcs c hc
    refine ⟨h0, ?_⟩
    unfold Wire at hwire
    rwa [if_neg (by omega)] at hwire

/-- The multiplier theorem applied to `5 * 7` at width 3, whose two rows leave no carry. -/
theorem evalNet_synthesizeMultiplier_three :
    evalNet (synthesizeMultiplier 3) (operandPIs 3 5 7) (-1) 0 = [true, true, false, false, false, true] ∧
    (rowCarries 3).length = 2 := by
  obtain ⟨h, hl, -⟩ := evalNet_synthesizeMultiplier 3 5 7 0 (by decide) (by decide) (by decide)
  refine ⟨?_, hl⟩
  rw [h]
  decide

end GemFI.GateFU
