import GemFI.GateFU.Netlist
import GemFI.Lib.Binary

/-!
# The Kogge-Stone adder netlist

`synthesizeAdder` preprocesses each bit into a propagate and a generate gate, combines them over the distances `1, 2,
4, …` and forms the sum bits from the preprocessed propagate bits and the final group generates.

The invariant of the prefix network (`PrefixInv`): at distance `d` the last entries of slice `i` carry the group
propagate and generate of the `d` bits ending at `i` (fewer at the low end).  Once the distance reaches the width, the
group generate of slice `i` is the carry out of bit `i`.
-/

namespace GemFI.GateFU

open StraightLine Binary

abbrev Slices := List (List Int)

def Slices.front (p : Slices) (i : Nat) : Int := (p.getD i []).headD 0

def Slices.back (p : Slices) (i : Nat) : Int := (p.getD i []).getLastD 0

def Slices.push (p : Slices) (np : List Int) : Slices := List.zipWith (fun l x => l ++ [x]) p np

def adderPreprocess (width : Nat) : Synth (List (Int × Int)) :=
  forRange (fun i => do
    let ai : Int := -(i + 1 : Nat)
    let bi : Int := -(width + i + 1 : Nat)
    let p ← synthGate .xor ai bi
    let g ← synthGate .and ai bi
    return (p, g)) width

/-- One bit of a prefix level at distance `d`: `(p & P, g | (p & G))`, or the old pair where no slice lies `d`
bits below. -/
def prefixCell (p g : Slices) (d i : Nat) : Synth (Int × Int) := do
  let pv := p.back i
  let gv := g.back i
  if d ≤ i then
    let pg := p.back (i - d)
    let gg := g.back (i - d)
    let pand ← synthGate .and pv gg
    let gor ← synthGate .or gv pand
    let pandp ← synthGate .and pv pg
    return (pandp, gor)
  else
    return (pv, gv)

/-- The loop over the distances `d`, `2d`, …, below the width.  The distance doubles, so `width` rounds are enough
(`builds_prefixNetwork`). -/
def prefixNetwork (width : Nat) : Nat → Nat → Slices → Slices → Synth (Slices × Slices)
  | 0, _, p, g => return (p, g)
  | fuel + 1, d, p, g => do
    if d < width then
      let row ← forRange (prefixCell p g d) width
      prefixNetwork width fuel (2 * d) (p.push (row.map (·.1))) (g.push (row.map (·.2)))
    else
      return (p, g)

/-- The gate of sum bit `i`: the preprocessed propagate bit, with the carry of the bits below from bit 1 on. -/
def sumCell (p g : Slices) (i : Nat) : Synth Int :=
  if i = 0 then return p.front 0 else synthGate .xor (p.front i) (g.back (i - 1))

def adderGates (width : Nat) : Synth (List Int) := do
  let pre ← adderPreprocess width
  let (p, g) ← prefixNetwork width width 1 (pre.map fun x => [x.1]) (pre.map fun x => [x.2])
  let sums ← forRange (sumCell p g) width
  return sums ++ [g.back (width - 1)]

def synthesizeAdder (width : Nat) : Netlist :=
  let r := adderGates width []
  { gates := r.2, po_gates := r.1, pi_width := 2 * width }

/-! ### Slices -/

theorem back_push {p : Slices} {np : List Int} {i : Nat} {x : Int} (hi : i < p.length)
    (hx : np[i]? = some x) : (p.push np).back i = x := by
  simp [Slices.back, Slices.push, List.getD_eq_getElem?_getD, List.getElem?_zipWith,
    List.getElem?_eq_getElem hi, hx]

theorem front_push {p : Slices} {np : List Int} {i : Nat} {x : Int} (hi : i < p.length)
    (hne : p.getD i [] ≠ []) (hx : np[i]? = some x) : (p.push np).front i = p.front i := by
  simp only [List.getD_eq_getElem?_getD, List.getElem?_eq_getElem hi, Option.getD_some] at hne
  obtain ⟨y, l, hl⟩ := List.exists_cons_of_ne_nil hne
  simp [Slices.front, Slices.push, List.getD_eq_getElem?_getD, List.getElem?_zipWith,
    List.getElem?_eq_getElem hi, hx, hl]

theorem getD_push_ne_nil {p : Slices} {np : List Int} {i : Nat} {x : Int} (hi : i < p.length)
    (hx : np[i]? = some x) : (p.push np).getD i [] ≠ [] := by
  simp [Slices.push, List.getD_eq_getElem?_getD, List.getElem?_zipWith, List.getElem?_eq_getElem hi, hx]

/-! ### The prefix network -/

section Prefix

variable {pis : List Bool} {sg sv : Int} {w : Nat}

/-- The state of the prefix network at distance `d`, for operand bits `x` and `y`. -/
structure PrefixInv (pis : List Bool) (sg sv : Int) (w : Nat) (x y : Nat → Bool) (d : Nat) (p g : Slices)
    (gs : List Gate) : Prop where
  len_p : p.length = w
  len_g : g.length = w
  ne_p : ∀ i < w, p.getD i [] ≠ []
  front_nonneg : ∀ i < w, 0 ≤ p.front i
  back_nonneg : ∀ i < w, 0 ≤ g.back i
  front_p : ∀ i < w, Wire pis sg sv gs (p.front i) (x i ^^ y i)
  back_p : ∀ i < w, Wire pis sg sv gs (p.back i) (prop (fun k => x k ^^ y k) (i + 1 - d) (i + 1))
  back_g : ∀ i < w, Wire pis sg sv gs (g.back i)
    (gen (fun k => x k && y k) (fun k => x k ^^ y k) (i + 1 - d) (i + 1))

variable {x y : Nat → Bool} {d : Nat} {p g : Slices} {gs : List Gate}

private theorem builds_prefixCell (hsg : sg < 0) (hd : 0 < d) (hI : PrefixInv pis sg sv w x y d p g gs)
    {i : Nat} (hi : i < w) {gs' : List Gate} (hp : gs <+: gs') :
    Builds (prefixCell p g d i) gs' fun r gs'' => 0 ≤ r.2 ∧
      Wire pis sg sv gs'' r.1 (prop (fun k => x k ^^ y k) (i + 1 - 2 * d) (i + 1)) ∧
      Wire pis sg sv gs'' r.2
        (gen (fun k => x k && y k) (fun k => x k ^^ y k) (i + 1 - 2 * d) (i + 1)) := by
  have hpv := (hI.back_p i hi).mono hp
  have hgv := (hI.back_g i hi).mono hp
  by_cases hid : d ≤ i
  · -- the slice `d` bits below holds the group that ends where this one starts
    have hpg := (hI.back_p (i - d) (by omega)).mono hp
    have hgg := (hI.back_g (i - d) (by omega)).mono hp
    rw [show i - d + 1 = i + 1 - d by omega, show i + 1 - d - d = i + 1 - 2 * d by omega] at hpg hgg
    simp only [prefixCell, hid, ↓reduceIte]
    refine (builds_synthGate hsg hpv hgg).bind fun pand gs₁ h₁ hpand => ?_
    refine (builds_synthGate hsg (hgv.mono h₁) hpand.2).bind fun gor gs₂ h₂ hgor => ?_
    refine (builds_synthGate hsg (hpv.mono (h₁.trans h₂)) (hpg.mono (h₁.trans h₂))).bind
      fun pandp gs₃ h₃ hpandp => builds_pure ⟨hgor.1, ?_, ?_⟩
    · rw [prop_split _ (i + 1 - d) (by omega) (by omega)]
      exact hpandp.2
    · rw [gen_split _ _ (i + 1 - d) (by omega) (by omega)]
      exact hgor.2.mono h₃
  · -- the group already starts at bit 0
    simp only [prefixCell, hid, ↓reduceIte]
    rw [show i + 1 - 2 * d = i + 1 - d by omega]
    exact builds_pure ⟨hI.back_nonneg i hi, hpv, hgv⟩

private theorem PrefixInv.level (hI : PrefixInv pis sg sv w x y d p g gs) {row : List (Int × Int)}
    {gs' : List Gate} (hp : gs <+: gs') (hlen : row.length = w)
    (hrow : ∀ i r, row[i]? = some r → 0 ≤ r.2 ∧
      Wire pis sg sv gs' r.1 (prop (fun k => x k ^^ y k) (i + 1 - 2 * d) (i + 1)) ∧
      Wire pis sg sv gs' r.2 (gen (fun k => x k && y k) (fun k => x k ^^ y k) (i + 1 - 2 * d) (i + 1))) :
    PrefixInv pis sg sv w x y (2 * d) (p.push (row.map (·.1))) (g.push (row.map (·.2))) gs' := by
  have hget : ∀ i < w, ∃ r, row[i]? = some r := fun i hi => ⟨row[i], List.getElem?_eq_getElem (by omega)⟩
  have hlp := hI.len_p
  have hlg := hI.len_g
  refine ⟨by simp [Slices.push, hlp, hlen], by simp [Slices.push, hlg, hlen], ?_, ?_, ?_, ?_, ?_, ?_⟩ <;>
    intro i hi <;> obtain ⟨r, hr⟩ := hget i hi <;> obtain ⟨h0, hpw, hgw⟩ := hrow i r hr
  · exact getD_push_ne_nil (x := r.1) (by omega) (by simp [hr])
  · rw [front_push (x := r.1) (by omega) (hI.ne_p i hi) (by simp [hr])]
    exact hI.front_nonneg i hi
  · rw [back_push (x := r.2) (by omega) (by simp [hr])]
    exact h0
  · rw [front_push (x := r.1) (by omega) (hI.ne_p i hi) (by simp [hr])]
    exact (hI.front_p i hi).mono hp
  · rw [back_push (x := r.1) (by omega) (by simp [hr])]
    exact hpw
  · rw [back_push (x := r.2) (by omega) (by simp [hr])]
    exact hgw

private theorem builds_prefixNetwork (hsg : sg < 0) (fuel : Nat) (hd : 0 < d) (hfuel : w ≤ d + fuel)
    (hI : PrefixInv pis sg sv w x y d p g gs) :
    Builds (prefixNetwork w fuel d p g) gs fun r gs' => ∃ d', w ≤ d' ∧ PrefixInv pis sg sv w x y d' r.1 r.2 gs' := by
  induction fuel generalizing d p g gs with
  | zero => exact builds_pure ⟨d, by omega, hI⟩
  | succ fuel ih =>
    by_cases hdw : d < w
    · simp only [prefixNetwork, hdw, ↓reduceIte]
      refine (builds_forRange ?_ fun i hi gs' hp => builds_prefixCell hsg hd hI hi hp).bind ?_
      · rintro i r gs₁ gs₂ hp ⟨h0, h1, h2⟩
        exact ⟨h0, h1.mono hp, h2.mono hp⟩
      · rintro row gs' hp ⟨hlen, hrow⟩
        exact ih (by omega) (by omega) (hI.level hp hlen hrow)
    · simp only [prefixNetwork, hdw, ↓reduceIte]
      exact builds_pure ⟨d, by omega, hI⟩

end Prefix

/-! ### The adder -/

private theorem builds_adderPreprocess {sg : Int} (sv : Int) (hsg : sg < 0) (w a b : Nat) (gs : List Gate) :
    Builds (adderPreprocess w) gs fun pre gs' => pre.length = w ∧ ∀ i r, pre[i]? = some r →
      (0 ≤ r.1 ∧ Wire (operandPIs w a b) sg sv gs' r.1 (a.testBit i ^^ b.testBit i)) ∧
      (0 ≤ r.2 ∧ Wire (operandPIs w a b) sg sv gs' r.2 (a.testBit i && b.testBit i)) := by
  refine builds_forRange ?_ ?_
  · rintro i r gs₁ gs₂ hp ⟨⟨h0, h1⟩, h2, h3⟩
    exact ⟨⟨h0, h1.mono hp⟩, h2, h3.mono hp⟩
  · intro i hi gs' _
    have ha : ∀ gs'', Wire (operandPIs w a b) sg sv gs'' (-(i + 1 : Nat)) (a.testBit i) :=
      fun _ => wire_pi (operandPIs_left a b hi)
    have hb : ∀ gs'', Wire (operandPIs w a b) sg sv gs'' (-(w + i + 1 : Nat)) (b.testBit i) :=
      fun _ => wire_pi (operandPIs_right a b hi)
    refine (builds_synthGate hsg (ha gs') (hb gs')).bind fun p gs₁ h₁ hp => ?_
    refine (builds_synthGate hsg (ha gs₁) (hb gs₁)).bind fun g gs₂ h₂ hg => builds_pure ⟨?_, hg⟩
    exact ⟨hp.1, by simpa [GateType.apply] using hp.2.mono h₂⟩

private theorem prefixInv_init {pis : List Bool} {sg sv : Int} {w : Nat} {x y : Nat → Bool}
    {pre : List (Int × Int)} {gs : List Gate} (hlen : pre.length = w)
    (hpre : ∀ i r, pre[i]? = some r → (0 ≤ r.1 ∧ Wire pis sg sv gs r.1 (x i ^^ y i)) ∧
      (0 ≤ r.2 ∧ Wire pis sg sv gs r.2 (x i && y i))) :
    PrefixInv pis sg sv w x y 1 (pre.map fun r => [r.1]) (pre.map fun r => [r.2]) gs := by
  refine ⟨by simpa using hlen, by simpa using hlen, ?_, ?_, ?_, ?_, ?_, ?_⟩ <;> intro i hi <;>
    have hr := List.getElem?_eq_getElem (show i < pre.length by omega) <;>
    obtain ⟨⟨h0, h1⟩, h2, h3⟩ := hpre i _ hr <;>
    simp only [Slices.front, Slices.back, List.getD_eq_getElem?_getD, List.getElem?_map, hr, Option.map_some,
      Option.getD_some, List.headD_cons, List.getLastD_cons, List.getLastD_nil]
  · simp
  · exact h0
  · exact h2
  · exact h1
  · rw [Nat.add_sub_cancel, prop_one]; exact h1
  · rw [Nat.add_sub_cancel, gen_one]; exact h3

private theorem builds_sums {sg sv : Int} (hsg : sg < 0) {pis : List Bool} {w d : Nat} (hw : 0 < w) (hd : w ≤ d)
    {x y : Nat → Bool} {p g : Slices} {gs : List Gate} (hI : PrefixInv pis sg sv w x y d p g gs) :
    Builds (do
        let sums ← forRange (sumCell p g) w
        return sums ++ [g.back (w - 1)]) gs fun po gs' => po.length = w + 1 ∧ ∀ k o, po[k]? = some o →
      0 ≤ o ∧ Wire pis sg sv gs' o (if k < w then sumBit x y k else carry x y w) := by
  have hcarry : ∀ i < w, Wire pis sg sv gs (g.back i) (carry x y (i + 1)) := by
    intro i hi
    have := hI.back_g i hi
    rwa [show i + 1 - d = 0 by omega, gen_zero] at this
  refine (builds_forRange (Q := fun k o gs' => 0 ≤ o ∧ Wire pis sg sv gs' o (sumBit x y k)) ?_ ?_).bind ?_
  · rintro k o gs₁ gs₂ hp ⟨h0, h1⟩
    exact ⟨h0, h1.mono hp⟩
  · intro k hk gs' hp
    unfold sumCell
    cases k with
    | zero =>
      refine builds_pure ⟨hI.front_nonneg 0 hk, ?_⟩
      simpa [sumBit, carry] using (hI.front_p 0 hk).mono hp
    | succ k =>
      have hx := (hI.front_p (k + 1) hk).mono hp
      have hc := (hcarry k (by omega)).mono hp
      refine (builds_synthGate hsg hx hc).imp fun o gs₁ _ ho => ⟨ho.1, ?_⟩
      simpa [GateType.apply, sumBit] using ho.2
  · rintro sums gs' hp ⟨hlen, hsum⟩
    refine builds_pure ⟨by simp [hlen], ?_⟩
    intro k o ho
    by_cases hk : k < w
    · rw [List.getElem?_append_left (by omega)] at ho
      simpa [hk] using hsum k o ho
    · rw [List.getElem?_append_right (by omega)] at ho
      obtain ⟨-, rfl⟩ := List.getElem?_eq_some_iff.1 ho
      have hl := (hcarry (w - 1) (by omega)).mono hp
      rw [Nat.sub_add_cancel hw] at hl
      simpa [hk] using ⟨hI.back_nonneg (w - 1) (by omega), hl⟩

theorem synthesizeAdder_wires {w a b : Nat} (stuck_val : Int) (hw : 1 ≤ w) (ha : a < 2 ^ w) (hb : b < 2 ^ w) :
    (synthesizeAdder w).po_gates.length = w + 1 ∧ ∀ k o, (synthesizeAdder w).po_gates[k]? = some o → 0 ≤ o ∧
      Wire (operandPIs w a b) (-1) stuck_val (synthesizeAdder w).gates o ((a + b).testBit k) := by
  have hbuild : Builds (adderGates w) [] fun po gs' => po.length = w + 1 ∧ ∀ k o, po[k]? = some o →
      0 ≤ o ∧ Wire (operandPIs w a b) (-1) stuck_val gs' o
        (if k < w then sumBit a.testBit b.testBit k else carry a.testBit b.testBit w) := by
    have hsg : (-1 : Int) < 0 := by decide
    refine (builds_adderPreprocess stuck_val hsg w a b []).bind ?_
    rintro pre gs₁ - ⟨hlen, hpre⟩
    refine (builds_prefixNetwork hsg w (by decide) (by omega) (prefixInv_init hlen hpre)).bind ?_
    rintro ⟨p, g⟩ gs₂ - ⟨d, hd, hI⟩
    exact builds_sums hsg hw hd hI
  obtain ⟨-, hlen, hwire⟩ := hbuild
  refine ⟨hlen, ?_⟩
  intro k o ho
  have hk : k < w + 1 := hlen ▸ (List.getElem?_eq_some_iff.1 ho).1
  have := hwire k o ho
  rw [testBit_add]
  by_cases hkw : k < w
  · simpa [synthesizeAdder, hkw] using this
  · -- the operands have no bit `w`, so bit `w` of the sum is the carry
    have hkw' : k = w := by omega
    subst hkw'
    simpa [synthesizeAdder, hkw, sumBit, Nat.testBit_lt_two_pow ha, Nat.testBit_lt_two_pow hb] using this

/-- The fault-free adder netlist adds: its `w + 1` outputs are the bits of `a + b`. -/
theorem evalNet_synthesizeAdder (w a b : Nat) (stuck_val : Int) (hw : 1 ≤ w) (ha : a < 2 ^ w) (hb : b < 2 ^ w) :
    evalNet (synthesizeAdder w) (operandPIs w a b) (-1) stuck_val =
      (List.range (w + 1)).map (a + b).testBit := by
  obtain ⟨hlen, hbits⟩ := synthesizeAdder_wires stuck_val hw ha hb
  rw [evalNet_eq_map hbits]
  exact congrArg (fun n => (List.range n).map _) hlen

/-- The adder theorem applied to `11 + 6` at width 4. -/
theorem evalNet_synthesizeAdder_four :
    evalNet (synthesizeAdder 4) (operandPIs 4 11 6) (-1) 0 = [true, false, false, false, true] := by
  rw [evalNet_synthesizeAdder 4 11 6 0 (by decide) (by decide) (by decide)]
  decide

end GemFI.GateFU
