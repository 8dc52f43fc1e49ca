import GemFI.GateFU.AdderRoles
import Mathlib.Data.Nat.Log
import Mathlib.Data.Finset.Card
import Mathlib.Order.Interval.Finset.Nat

/-!
# Which gates of the adder a fault can be seen through

The group propagate of bit `i` at distance `d` spans the bits down to `i - 2d + 1`.  For `d ≤ i < 2d` it reaches below
bit 0 and only gates of the same kind read it, so a fault in one of these `w - 1` gates never reaches an output.  A
fault in any other gate is seen: stuck at 1 it raises a sum bit, or a carry, that the right operands leave clear, and
a carry that is raised stays raised on the later levels.
-/

namespace GemFI.GateFU

open StraightLine

def Role.Dead : Role → Prop
  | .pandp l i => 2 ^ l ≤ i ∧ i < 2 * 2 ^ l
  | _ => False

instance : DecidablePred Role.Dead
  | .pandp _ _ => inferInstanceAs (Decidable (_ ∧ _))
  | .prop _ | .gen _ | .pand _ _ | .gor _ _ | .sum _ => inferInstanceAs (Decidable False)

/-- No operands and no polarity make a fault of gate `k` visible at an output of the adder. -/
def Unobservable (w k : Nat) : Prop :=
  ∀ a b, a < 2 ^ w → b < 2 ^ w → ∀ stuck_val : Int,
    evalNet (synthesizeAdder w) (operandPIs w a b) k stuck_val =
      evalNet (synthesizeAdder w) (operandPIs w a b) (-1) 0

/-! ### Values by role -/

def roleVal (w : Nat) (pis : List Bool) (sg sv : Int) (r : Role) : Bool :=
  (gateVals (synthesizeAdder w) pis sg sv).getD ((adderRoles w).idxOf r) false

def pinVal (w : Nat) (pis : List Bool) (sg sv : Int) : Pin → Bool
  | .pi k => pis.getD k false
  | .gate r => roleVal w pis sg sv r

section Values

variable {w : Nat} {pis : List Bool} {sg sv : Int}

theorem idxOf_role {k : Nat} {r : Role} (h : (adderRoles w)[k]? = some r) : (adderRoles w).idxOf r = k := by
  obtain ⟨hk, rfl⟩ := List.getElem?_eq_some_iff.1 h
  exact (adderRoles_nodup w).idxOf_getElem k hk

theorem At.getD_eq {n : Nat} {i : Int} {r : Role} (h : At (adderRoles w) n i r) :
    (gateVals (synthesizeAdder w) pis sg sv).getD i.toNat false = roleVal w pis sg sv r := by
  rw [roleVal, idxOf_role h.2.2]

private theorem PinAt.readIn_eq {n : Nat} {i : Int} {x : Pin} (h : PinAt (adderRoles w) n i x) :
    readIn pis (gateVals (synthesizeAdder w) pis sg sv) i = pinVal w pis sg sv x := by
  unfold readIn
  cases x with
  | pi k =>
    have hi : i = -(k + 1 : Nat) := h
    rw [if_pos (by omega), show (-i - 1).toNat = k by omega]
    rfl
  | gate r =>
    have h0 : 0 ≤ i := h.1
    rw [if_neg (by omega)]
    exact At.getD_eq h

theorem roleVal_eq (hw : 1 ≤ w) {k : Nat} {r : Role} (hr : (adderRoles w)[k]? = some r) :
    roleVal w pis sg sv r = if (k : Int) = sg then decide (sv ≠ 0)
      else r.type.apply (pinVal w pis sg sv (r.pins w).1) (pinVal w pis sg sv (r.pins w).2) := by
  have hlabel := (adder_labelled hw).1
  have hk : k < (synthesizeAdder w).gates.length := hlabel.len ▸ (List.getElem?_eq_some_iff.1 hr).1
  have hg := List.getElem?_eq_getElem hk
  obtain ⟨ht, h0, h1⟩ := hlabel.gates k _ r hg hr
  rw [roleVal, idxOf_role hr, (synthesizeAdder_wellOrdered hw).gateVals_getD hg, ht, h0.readIn_eq, h1.readIn_eq]

theorem evalNet_eq_roles (hw : 1 ≤ w) :
    evalNet (synthesizeAdder w) pis sg sv = (List.range (w + 1)).map fun k => roleVal w pis sg sv (outRole w k) := by
  obtain ⟨-, hlen, hout⟩ := adder_labelled hw
  apply List.ext_getElem
  · simp [evalNet, hlen]
  · intro k h1 h2
    have hk : k < (synthesizeAdder w).po_gates.length := by simpa [evalNet] using h1
    have hat := hout k _ (List.getElem?_eq_getElem hk)
    simp only [evalNet, List.getElem_map, List.getElem_range]
    rw [if_pos hat.1, hat.getD_eq]

end Values

/-! ### Dead gates -/

section Dead

variable {w : Nat}

private theorem genRole_live (L i : Nat) : ¬(genRole L i).Dead := by
  induction L with
  | zero => exact id
  | succ L ih =>
    rw [genRole]
    split
    · exact id
    · exact ih

private theorem propRole_live {L i : Nat} (h : 2 ^ L ≤ i) : ¬(propRole L i).Dead := by
  cases L with
  | zero => exact id
  | succ L =>
    rw [Nat.pow_succ] at h
    rw [propRole, if_pos (by omega)]
    rintro ⟨-, hlt⟩
    omega

private theorem outRole_live (w k : Nat) : ¬(outRole w k).Dead := by
  unfold outRole
  split
  · split <;> exact id
  · exact genRole_live w (w - 1)

def Pin.Live : Pin → Prop
  | .pi _ => True
  | .gate r => ¬r.Dead

private theorem pins_live {r : Role} (hr : r ∈ adderRoles w) (hd : ¬r.Dead) :
    (r.pins w).1.Live ∧ (r.pins w).2.Live := by
  have hmem := mem_adderRoles.1 hr
  cases r with
  | prop i => exact ⟨trivial, trivial⟩
  | gen i => exact ⟨trivial, trivial⟩
  | pand l i => exact ⟨propRole_live hmem.2.2, genRole_live _ _⟩
  | gor l i => exact ⟨genRole_live _ _, id⟩
  | pandp l i =>
    have hi : 2 * 2 ^ l ≤ i := by
      by_contra h
      exact hd ⟨hmem.2.2, by omega⟩
    exact ⟨propRole_live hmem.2.2, propRole_live (by omega)⟩
  | sum i => exact ⟨id, genRole_live _ _⟩

private theorem roleVal_of_dead (hw : 1 ≤ w) {k : Nat} {s : Role} (hs : (adderRoles w)[k]? = some s) (hd : s.Dead)
    (pis : List Bool) (sv : Int) {n : Nat} {r : Role} (hr : (adderRoles w)[n]? = some r) (hl : ¬r.Dead) :
    roleVal w pis k sv r = roleVal w pis (-1) 0 r := by
  induction n using Nat.strong_induction_on generalizing r with
  | _ n ih =>
    have hlabel := (adder_labelled hw).1
    have hn : n < (synthesizeAdder w).gates.length := hlabel.len ▸ (List.getElem?_eq_some_iff.1 hr).1
    obtain ⟨-, h0, h1⟩ := hlabel.gates n _ r (List.getElem?_eq_getElem hn) hr
    have hpin : ∀ {i : Int} {x : Pin}, PinAt (adderRoles w) n i x → x.Live →
        pinVal w pis k sv x = pinVal w pis (-1) 0 x := by
      intro i x hx hlive
      cases x with
      | pi j => rfl
      | gate r' => exact ih _ hx.2.1 hx.2.2 hlive
    have hne : n ≠ k := by
      rintro rfl
      cases Option.some.inj (hs.symm.trans hr)
      exact hl hd
    obtain ⟨hl0, hl1⟩ := pins_live (List.mem_of_getElem? hr) hl
    rw [roleVal_eq hw hr, roleVal_eq hw hr, if_neg (by omega), if_neg (by omega), hpin h0 hl0, hpin h1 hl1]

private theorem outRole_mem {k : Nat} (hw : 1 ≤ w) (hk : k < w + 1) :
    ∃ n : Nat, (adderRoles w)[n]? = some (outRole w k) := by
  obtain ⟨-, hlen, hout⟩ := adder_labelled hw
  exact ⟨_, (hout k _ (List.getElem?_eq_getElem (by omega))).2.2⟩

theorem unobservable_of_dead (hw : 1 ≤ w) {k : Nat} {s : Role} (hs : (adderRoles w)[k]? = some s) (hd : s.Dead) :
    Unobservable w k := by
  intro a b _ _ sv
  rw [evalNet_eq_roles hw, evalNet_eq_roles hw]
  refine List.map_congr_left fun j hj => ?_
  obtain ⟨n, hn⟩ := outRole_mem hw (List.mem_range.1 hj)
  exact roleVal_of_dead hw hs hd _ sv hn (outRole_live w j)

end Dead

/-! ### Live gates -/

section Live

variable {w k : Nat} {s : Role} {pis : List Bool}

private theorem roleVal_stuck (hw : 1 ≤ w) (hs : (adderRoles w)[k]? = some s) {r : Role} (hr : r ∈ adderRoles w) :
    roleVal w pis k 1 r = if r = s then true
      else r.type.apply (pinVal w pis k 1 (r.pins w).1) (pinVal w pis k 1 (r.pins w).2) := by
  obtain ⟨n, hn⟩ := List.getElem?_of_mem hr
  rw [roleVal_eq hw hn]
  by_cases hrs : r = s
  · subst hrs
    have hnk : n = k := (idxOf_role hn).symm.trans (idxOf_role hs)
    subst hnk
    rw [if_pos rfl, if_pos rfl]
    rfl
  · have hnk : n ≠ k := by
      rintro rfl
      exact hrs (Option.some.inj (hn.symm.trans hs))
    rw [if_neg (by omega), if_neg hrs]

private theorem stuck_self (hw : 1 ≤ w) (hs : (adderRoles w)[k]? = some s) : roleVal w pis k 1 s = true := by
  rw [roleVal_stuck hw hs (List.mem_of_getElem? hs), if_pos rfl]

private theorem raised (hw : 1 ≤ w) (hs : (adderRoles w)[k]? = some s) {r : Role} (hr : r.InWidth w)
    (h : r.type.apply (pinVal w pis k 1 (r.pins w).1) (pinVal w pis k 1 (r.pins w).2) = true) :
    roleVal w pis k 1 r = true := by
  rw [roleVal_stuck hw hs (mem_adderRoles.2 hr), h, ite_self]

private theorem cleared (hw : 1 ≤ w) (hs : (adderRoles w)[k]? = some s) {r : Role} (hr : r.InWidth w) (hne : r ≠ s)
    (h : r.type.apply (pinVal w pis k 1 (r.pins w).1) (pinVal w pis k 1 (r.pins w).2) = false) :
    roleVal w pis k 1 r = false := by
  rw [roleVal_stuck hw hs (mem_adderRoles.2 hr), if_neg hne, h]

private theorem level_lt {l i : Nat} (h : 2 ^ l ≤ i) (hi : i < w) : l < w := by
  have : l < 2 ^ l := Nat.lt_two_pow_self
  omega

private theorem gor_raised (hw : 1 ≤ w) (hs : (adderRoles w)[k]? = some s) {l i : Nat} (hi : i < w) (hd : 2 ^ l ≤ i)
    (h : roleVal w pis k 1 (genRole l i) = true ∨ roleVal w pis k 1 (.pand l i) = true) :
    roleVal w pis k 1 (genRole (l + 1) i) = true := by
  rw [genRole, if_pos hd]
  refine raised hw hs ⟨level_lt hd hi, hi, hd⟩ ?_
  show (roleVal w pis k 1 (genRole l i) || roleVal w pis k 1 (.pand l i)) = true
  rcases h with h | h <;> simp [h]

private theorem genRole_raised (hw : 1 ≤ w) (hs : (adderRoles w)[k]? = some s) {i L L' : Nat} (hi : i < w)
    (h : roleVal w pis k 1 (genRole L i) = true) (hL : L ≤ L') : roleVal w pis k 1 (genRole L' i) = true := by
  induction L', hL using Nat.le_induction with
  | base => exact h
  | succ L' _ ih =>
    by_cases hd : 2 ^ L' ≤ i
    · exact gor_raised hw hs hi hd (.inl ih)
    · rw [genRole, if_neg hd]
      exact ih

private theorem genRole_final (hw : 1 ≤ w) (hs : (adderRoles w)[k]? = some s) {i L : Nat} (hi : i < w)
    (h : roleVal w pis k 1 (genRole L i) = true) : roleVal w pis k 1 (genRole w i) = true := by
  have hw2 : w < 2 ^ w := Nat.lt_two_pow_self
  have hmax := genRole_raised hw hs hi h (Nat.le_max_left L w)
  rwa [genRole_stable (show i < 2 ^ w by omega) (Nat.le_max_right L w)] at hmax

private theorem prop_clear (hw : 1 ≤ w) (hs : (adderRoles w)[k]? = some s) {a i : Nat} (hi : i < w)
    (hne : Role.prop i ≠ s) : roleVal w (operandPIs w a a) k 1 (.prop i) = false := by
  refine cleared hw hs hi hne ?_
  simp [Role.type, Role.pins, GateType.apply, pinVal, operandPIs_left a a hi, operandPIs_right a a hi]

private theorem sum_raised (hw : 1 ≤ w) (hs : (adderRoles w)[k]? = some s) {i : Nat} (hi : i < w) (h0 : i ≠ 0)
    (h : roleVal w pis k 1 (.prop i) ≠ roleVal w pis k 1 (genRole w (i - 1))) :
    roleVal w pis k 1 (outRole w i) = true := by
  rw [outRole, if_pos hi, if_neg h0]
  exact raised hw hs ⟨hi, h0⟩ (bne_iff_ne.2 h)

private theorem output_raised (hw : 1 ≤ w) (hs : (adderRoles w)[k]? = some s) (hne : ∀ i, Role.prop i ≠ s)
    {a i L : Nat} (hi : i < w) (h : roleVal w (operandPIs w a a) k 1 (genRole L i) = true) :
    roleVal w (operandPIs w a a) k 1 (outRole w (i + 1)) = true := by
  have hfinal := genRole_final hw hs hi h
  by_cases hiw : i + 1 < w
  · refine sum_raised hw hs hiw (by omega) ?_
    rw [prop_clear hw hs hiw (hne _), Nat.add_sub_cancel, hfinal]
    decide
  · rw [outRole, if_neg hiw, show w - 1 = i by omega]
    exact hfinal

private theorem genRole_clear (hw : 1 ≤ w) {j : Nat} (hs : (adderRoles w)[k]? = some (.prop j)) {i L : Nat}
    (hi : i < w) : roleVal w (operandPIs w 0 0) k 1 (genRole L i) = false := by
  induction L generalizing i with
  | zero =>
    refine cleared hw hs (r := .gen i) hi (by simp) ?_
    simp [Role.type, Role.pins, GateType.apply, pinVal, operandPIs_left 0 0 hi]
  | succ L ih =>
    rw [genRole]
    by_cases hd : 2 ^ L ≤ i
    · have hlow : i - 2 ^ L < w := Nat.lt_of_le_of_lt (Nat.sub_le _ _) hi
      have hpand : roleVal w (operandPIs w 0 0) k 1 (.pand L i) = false := by
        refine cleared hw hs ⟨level_lt hd hi, hi, hd⟩ (by simp) ?_
        simp [Role.type, Role.pins, GateType.apply, pinVal, ih hlow]
      rw [if_pos hd]
      refine cleared hw hs ⟨level_lt hd hi, hi, hd⟩ (by simp) ?_
      simp [Role.type, Role.pins, GateType.apply, pinVal, ih hi, hpand]
    · rw [if_neg hd]
      exact ih hi

private theorem observable_of_output (hw : 1 ≤ w) {a i : Nat} (ha : a < 2 ^ w) (hi : i < w + 1)
    (hclean : (a + a).testBit i = false) (h : roleVal w (operandPIs w a a) k 1 (outRole w i) = true) :
    ¬Unobservable w k := by
  intro hun
  have heq := hun a a ha ha 1
  rw [evalNet_eq_roles hw, evalNet_eq_map (synthesizeAdder_wires 0 hw ha ha).2, (synthesizeAdder_wires 0 hw ha ha).1]
    at heq
  have hbit := congrArg (·[i]?) heq
  simp [hi, h, hclean] at hbit

private theorem observable_of_carry (hw : 1 ≤ w) (hs : (adderRoles w)[k]? = some s) (hne : ∀ i, Role.prop i ≠ s)
    {a i L : Nat} (ha : a < 2 ^ w) (hi : i < w) (hclean : (a + a).testBit (i + 1) = false)
    (h : roleVal w (operandPIs w a a) k 1 (genRole L i) = true) : ¬Unobservable w k :=
  observable_of_output hw ha (by omega) hclean (output_raised hw hs hne hi h)

private theorem observable_pandp (hw : 1 ≤ w) {l i : Nat} (hs : (adderRoles w)[k]? = some (.pandp l i))
    (hi : i < w) (hspan : 2 ^ (l + 1) ≤ i) : ¬Unobservable w k := by
  have hpos : 0 < 2 ^ (l + 1) := Nat.two_pow_pos _
  obtain ⟨j, hj⟩ : ∃ j, j = i - 2 ^ (l + 1) := ⟨_, rfl⟩
  have hjw : j < w := by omega
  have hgen : roleVal w (operandPIs w (2 ^ j) (2 ^ j)) k 1 (genRole (l + 1) j) = true := by
    refine genRole_raised hw hs hjw (L := 0) (raised hw hs (r := .gen j) hjw ?_) (Nat.zero_le _)
    simp [Role.type, Role.pins, GateType.apply, pinVal, operandPIs_left _ _ hjw, operandPIs_right _ _ hjw]
  have hprop : propRole (l + 1) i = .pandp l i := by
    rw [Nat.pow_succ] at hspan
    rw [propRole, if_pos (by omega)]
  have hpand : roleVal w (operandPIs w (2 ^ j) (2 ^ j)) k 1 (.pand (l + 1) i) = true := by
    refine raised hw hs ⟨level_lt hspan hi, hi, hspan⟩ ?_
    simp [Role.type, Role.pins, GateType.apply, pinVal, hprop, stuck_self hw hs, ← hj, hgen]
  refine observable_of_carry hw hs (by simp) (Nat.pow_lt_pow_right (by decide) hjw) hi ?_
    (gor_raised hw hs hi hspan (.inr hpand))
  rw [← Nat.two_mul, ← Nat.pow_succ', Nat.testBit_two_pow_of_ne (by omega)]

theorem observable_of_live (hw : 1 ≤ w) (hs : (adderRoles w)[k]? = some s) (hl : ¬s.Dead) : ¬Unobservable w k := by
  have hmem := mem_adderRoles.1 (List.mem_of_getElem? hs)
  have hself : roleVal w (operandPIs w 0 0) k 1 s = true := stuck_self hw hs
  have hpos := Nat.two_pow_pos w
  have hzero : ∀ i, (0 + 0 : Nat).testBit i = false := fun i => by simp
  cases s with
  | prop i =>
    have hi : i < w := hmem
    refine observable_of_output hw hpos (Nat.lt_succ_of_lt hi) (hzero i) ?_
    by_cases h0 : i = 0
    · subst h0
      rwa [outRole, if_pos hi, if_pos rfl]
    · -- the sum bit is the stuck propagate, as no carry comes in
      refine sum_raised hw hs hi h0 ?_
      rw [hself, genRole_clear hw hs (show i - 1 < w by omega)]
      decide
  | gen i => exact observable_of_carry hw hs (by simp) (L := 0) hpos hmem (hzero _) hself
  | pand l i =>
    obtain ⟨-, hi, hd⟩ := hmem
    exact observable_of_carry hw hs (by simp) hpos hi (hzero _) (gor_raised hw hs hi hd (.inr hself))
  | gor l i =>
    obtain ⟨-, hi, hd⟩ := hmem
    refine observable_of_carry hw hs (by simp) (L := l + 1) hpos hi (hzero _) ?_
    rwa [genRole, if_pos hd]
  | pandp l i =>
    obtain ⟨-, hi, hd⟩ := hmem
    refine observable_pandp hw hs hi ?_
    by_contra h
    rw [Nat.pow_succ] at h
    exact hl ⟨hd, by omega⟩
  | sum i =>
    refine observable_of_output hw hpos (Nat.lt_succ_of_lt hmem.1) (hzero i) ?_
    rwa [outRole, if_pos hmem.1, if_neg hmem.2]

end Live

/-! ### The set of unobservable gates -/

private theorem dead_roles (w : Nat) :
    ((adderRoles w).filter fun r => decide r.Dead).toFinset =
      (Finset.Ico 1 w).image fun i => Role.pandp (Nat.log 2 i) i := by
  ext r
  simp only [List.mem_toFinset, List.mem_filter, decide_eq_true_eq, Finset.mem_image, Finset.mem_Ico]
  constructor
  · rintro ⟨hr, hd⟩
    cases r with
    | pandp l i =>
      have hmem := mem_adderRoles.1 hr
      obtain ⟨hle, hlt⟩ : 2 ^ l ≤ i ∧ i < 2 * 2 ^ l := hd
      have hpos : 0 < 2 ^ l := Nat.two_pow_pos l
      have hlog : Nat.log 2 i = l := Nat.log_eq_of_pow_le_of_lt_pow hle (by rw [Nat.pow_succ]; omega)
      exact ⟨i, ⟨by omega, hmem.2.1⟩, by rw [hlog]⟩
    | _ => exact absurd hd id
  · rintro ⟨i, ⟨h1, hi⟩, rfl⟩
    have hle : 2 ^ Nat.log 2 i ≤ i := Nat.pow_log_le_self 2 (by omega)
    have hlt : i < 2 ^ (Nat.log 2 i + 1) := Nat.lt_pow_succ_log_self (by decide) i
    rw [Nat.pow_succ] at hlt
    exact ⟨mem_adderRoles.2 ⟨level_lt hle hi, hi, hle⟩, hle, by omega⟩

theorem dead_count (w : Nat) : ((adderRoles w).filter fun r => decide r.Dead).length = w - 1 := by
  have hinj : Function.Injective fun i => Role.pandp (Nat.log 2 i) i := by
    intro i j hij
    exact (Role.pandp.inj hij).2
  rw [← List.toFinset_card_of_nodup ((adderRoles_nodup w).filter _), dead_roles, Finset.card_image_of_injective _ hinj,
    Nat.card_Ico]

/-- The unobservable gates of the adder are the `w - 1` group propagates at distance `d` for bits `d ≤ i < 2d`; every
gate of the adder has one of the roles. -/
theorem adder_unobservable_iff (w : Nat) (hw : 1 ≤ w) :
    Labelled w (adderRoles w) (synthesizeAdder w).gates (adderRoles w) ∧
    ((adderRoles w).filter fun r => decide r.Dead).length = w - 1 ∧
    ∀ k r, (adderRoles w)[k]? = some r → (Unobservable w k ↔ r.Dead) := by
  refine ⟨(adder_labelled hw).1, dead_count w, fun k r hr => ⟨fun hun => ?_, unobservable_of_dead hw hr⟩⟩
  by_contra hl
  exact observable_of_live hw hr hl hun

/-- At width 4 the dead gates are the group propagates of bit 1 at distance 1 and of bits 2 and 3 at distance 2. -/
theorem adder_unobservable_four :
    1 ≤ 4 ∧ (∀ k r, (adderRoles 4)[k]? = some r → (Unobservable 4 k ↔ r.Dead)) ∧
    (adderRoles 4).filter (fun r => decide r.Dead) = [.pandp 0 1, .pandp 1 2, .pandp 1 3] :=
  ⟨by decide, (adder_unobservable_iff 4 (by decide)).2.2, by decide⟩

end GemFI.GateFU
