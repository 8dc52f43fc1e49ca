import GemFI.GateFU.Adder
import GemFI.GateFU.Order
import Mathlib.Data.List.Nodup

/-!
# The gates of the Kogge-Stone adder, one by one

`adderRoles w` lists what each gate of `synthesizeAdder w` is for, in the order of their creation; `adder_labelled`
says that every gate has the type of its role, and that its inputs are the gates of the roles that its role combines.
The roles are distinct, so a role names one gate.

The pins of the prefix cells are the last entries of the slices.  After `L` levels slice `i` ends in the cell of the
last level whose distance reaches from bit `i` to a bit below (`propRole`, `genRole`).
-/

namespace GemFI.GateFU

open StraightLine

/-- What a gate of the adder is for: the preprocessed propagate and generate of bit `i`, the three gates of the prefix
cell at distance `2 ^ l` for bit `i`, and the gate of sum bit `i`. -/
inductive Role where
  | prop (i : Nat)
  | gen (i : Nat)
  | pand (l i : Nat)
  | gor (l i : Nat)
  | pandp (l i : Nat)
  | sum (i : Nat)
  deriving DecidableEq, Repr

def preRoles (i : Nat) : List Role := [.prop i, .gen i]

def cellRoles (l i : Nat) : List Role := if 2 ^ l ≤ i then [.pand l i, .gor l i, .pandp l i] else []

/-- The gates of the level at distance `2 ^ l`; there are none once the distance reaches the width. -/
def levelRoles (w l : Nat) : List Role := (List.range w).flatMap (cellRoles l)

def sumRoles (i : Nat) : List Role := if i = 0 then [] else [.sum i]

def adderRoles (w : Nat) : List Role :=
  (List.range w).flatMap preRoles ++ (List.range w).flatMap (levelRoles w) ++ (List.range w).flatMap sumRoles

def propRole : Nat → Nat → Role
  | 0, i => .prop i
  | L + 1, i => if 2 ^ L ≤ i then .pandp L i else propRole L i

def genRole : Nat → Nat → Role
  | 0, i => .gen i
  | L + 1, i => if 2 ^ L ≤ i then .gor L i else genRole L i

inductive Pin where
  | pi (k : Nat)
  | gate (r : Role)

def Role.type : Role → GateType
  | .prop _ => .xor
  | .gen _ => .and
  | .pand _ _ => .and
  | .gor _ _ => .or
  | .pandp _ _ => .and
  | .sum _ => .xor

def Role.pins (w : Nat) : Role → Pin × Pin
  | .prop i => (.pi i, .pi (w + i))
  | .gen i => (.pi i, .pi (w + i))
  | .pand l i => (.gate (propRole l i), .gate (genRole l (i - 2 ^ l)))
  | .gor l i => (.gate (genRole l i), .gate (.pand l i))
  | .pandp l i => (.gate (propRole l i), .gate (propRole l (i - 2 ^ l)))
  | .sum i => (.gate (.prop i), .gate (genRole w (i - 1)))

/-- The gate behind output `k`: the sum bits, and the carry out at `k = w`. -/
def outRole (w k : Nat) : Role :=
  if k < w then if k = 0 then .prop 0 else .sum k else genRole w (w - 1)

/-! ### The roles -/

/-- The roles at width `w`: a prefix cell has gates where a slice lies `2 ^ l` bits below. -/
def Role.InWidth (w : Nat) : Role → Prop
  | .prop i => i < w
  | .gen i => i < w
  | .pand l i => l < w ∧ i < w ∧ 2 ^ l ≤ i
  | .gor l i => l < w ∧ i < w ∧ 2 ^ l ≤ i
  | .pandp l i => l < w ∧ i < w ∧ 2 ^ l ≤ i
  | .sum i => i < w ∧ i ≠ 0

theorem mem_adderRoles {w : Nat} {r : Role} : r ∈ adderRoles w ↔ r.InWidth w := by
  have hcell : ∀ l i, r ∈ cellRoles l i ↔ 2 ^ l ≤ i ∧ (r = .pand l i ∨ r = .gor l i ∨ r = .pandp l i) := by
    intro l i
    unfold cellRoles
    split <;> simp [*]
  have hsum : ∀ i, r ∈ sumRoles i ↔ i ≠ 0 ∧ r = .sum i := by
    intro i
    unfold sumRoles
    split <;> simp [*]
  simp only [adderRoles, levelRoles, preRoles, List.mem_append, List.mem_flatMap, List.mem_range, hcell, hsum]
  cases r <;> simp [Role.InWidth]

private theorem nodup_flatMap_range (key : Role → Nat) {f : Nat → List Role} (n : Nat) (hf : ∀ i, (f i).Nodup)
    (hkey : ∀ i, ∀ r ∈ f i, key r = i) : ((List.range n).flatMap f).Nodup := by
  rw [List.nodup_flatMap]
  refine ⟨fun i _ => hf i, List.nodup_range.imp fun {i j} hij r hi hj => hij ?_⟩
  rw [← hkey i r hi, hkey j r hj]

/-- The bit and the distance of a role tell the lists of `adderRoles` apart. -/
private def Role.bit : Role → Nat
  | .prop i => i
  | .gen i => i
  | .pand _ i => i
  | .gor _ i => i
  | .pandp _ i => i
  | .sum i => i

private def Role.level : Role → Nat
  | .pand l _ => l
  | .gor l _ => l
  | .pandp l _ => l
  | _ => 0

private theorem mem_cellRoles_level {l i : Nat} {r : Role} (h : r ∈ cellRoles l i) : r.level = l ∧ r.bit = i := by
  unfold cellRoles at h
  split at h
  · simp only [List.mem_cons, List.not_mem_nil, or_false] at h
    rcases h with rfl | rfl | rfl <;> exact ⟨rfl, rfl⟩
  · cases h

theorem adderRoles_nodup (w : Nat) : (adderRoles w).Nodup := by
  have hpre : ((List.range w).flatMap preRoles).Nodup :=
    nodup_flatMap_range Role.bit w (fun i => by simp [preRoles]) fun i r hr => by
      simp only [preRoles, List.mem_cons, List.not_mem_nil, or_false] at hr
      rcases hr with rfl | rfl <;> rfl
  have hlevel : ∀ l, (levelRoles w l).Nodup := fun l =>
    nodup_flatMap_range Role.bit w (fun i => by unfold cellRoles; split <;> simp)
      fun i r hr => (mem_cellRoles_level hr).2
  have hlevels : ((List.range w).flatMap (levelRoles w)).Nodup :=
    nodup_flatMap_range Role.level w hlevel fun l r hr => by
      obtain ⟨i, -, hi⟩ := List.mem_flatMap.1 hr
      exact (mem_cellRoles_level hi).1
  have hsum : ((List.range w).flatMap sumRoles).Nodup :=
    nodup_flatMap_range Role.bit w (fun i => by unfold sumRoles; split <;> simp) fun i r hr => by
      unfold sumRoles at hr
      split at hr
      · cases hr
      · rw [List.mem_singleton.1 hr]
        rfl
  -- the three parts hold different constructors
  unfold adderRoles
  rw [List.nodup_append, List.nodup_append]
  refine ⟨⟨hpre, hlevels, ?_⟩, hsum, ?_⟩ <;>
    simp only [levelRoles, cellRoles, sumRoles, preRoles, List.mem_append, List.mem_flatMap, List.mem_range] <;>
    grind

theorem genRole_stable {i L L' : Nat} (h : i < 2 ^ L) (hL : L ≤ L') : genRole L' i = genRole L i := by
  induction L', hL using Nat.le_induction with
  | base => rfl
  | succ L' hL ih =>
    have hpow : 2 ^ L ≤ 2 ^ L' := Nat.pow_le_pow_right (by decide) hL
    rw [genRole, if_neg (by omega), ih]

theorem genRole_covered {i L L' : Nat} (h : i < 2 ^ L) (h' : i < 2 ^ L') : genRole L i = genRole L' i := by
  rcases Nat.le_total L L' with hL | hL
  · exact (genRole_stable h hL).symm
  · exact genRole_stable h' hL

/-! ### Labelled netlists -/

section Labels

variable {R rs : List Role} {w : Nat} {gs gs' : List Gate}

/-- The gate input `i` is the gate with role `r`, which is one of `gs`. -/
def At (R : List Role) (n : Nat) (i : Int) (r : Role) : Prop := 0 ≤ i ∧ i.toNat < n ∧ R[i.toNat]? = some r

def PinAt (R : List Role) (n : Nat) (i : Int) : Pin → Prop
  | .pi k => i = -(k + 1 : Nat)
  | .gate r => At R n i r

/-- The gates `gs` have the roles `rs`, the first ones of `R`. -/
structure Labelled (w : Nat) (R : List Role) (gs : List Gate) (rs : List Role) : Prop where
  first : rs <+: R
  len : gs.length = rs.length
  gates : ∀ k g r, gs[k]? = some g → R[k]? = some r →
    g.type = r.type ∧ PinAt R k g.in0 (r.pins w).1 ∧ PinAt R k g.in1 (r.pins w).2

theorem At.mono {n n' : Nat} {i : Int} {r : Role} (h : At R n i r) (hn : n ≤ n') : At R n' i r :=
  ⟨h.1, Nat.lt_of_lt_of_le h.2.1 hn, h.2.2⟩

theorem At.ext {i : Int} {r : Role} (h : At R gs.length i r) (hp : gs <+: gs') : At R gs'.length i r :=
  h.mono hp.length_le

theorem Labelled.builds_synthGate {r : Role} {t : GateType} {in0 in1 : Int} (h : Labelled w R gs rs)
    (hr : rs ++ [r] <+: R) (ht : r.type = t) (h0 : PinAt R gs.length in0 (r.pins w).1)
    (h1 : PinAt R gs.length in1 (r.pins w).2) :
    Builds (synthGate t in0 in1) gs fun o gs' => Labelled w R gs' (rs ++ [r]) ∧ At R gs'.length o r := by
  obtain ⟨t', ht'⟩ := hr
  have hnext : R[gs.length]? = some r := by
    rw [← ht', h.len, List.append_assoc, List.getElem?_append_right (Nat.le_refl _)]
    simp
  have hlabel : Labelled w R (gs ++ [⟨t, in0, in1⟩]) (rs ++ [r]) := by
    refine ⟨⟨t', ht'⟩, by simp [h.len], fun k g x hg => ?_⟩
    revert k g
    refine forall_snoc.2 ⟨fun k g hg => h.gates k g x hg, fun hx => ?_⟩
    cases Option.some.inj (hnext.symm.trans hx)
    exact ⟨ht.symm, h0, h1⟩
  refine Builds.bind (P := fun (i : Nat) gs' => Labelled w R gs' (rs ++ [r]) ∧ At R gs'.length (i : Int) r)
    (builds_emit ⟨hlabel, by omega, by simp, by simpa using hnext⟩) ?_
  intro i gs' _ hi
  exact builds_pure hi

end Labels

/-! ### The adder -/

section Adder

variable {R rs : List Role} {w : Nat} {gs : List Gate}

private theorem flatMap_range_succ (f : Nat → List Role) (n : Nat) :
    (List.range (n + 1)).flatMap f = (List.range n).flatMap f ++ f n := by
  rw [List.range_succ, List.flatMap_append]
  simp

private theorem flatMap_range_first (f : Nat → List Role) {i n : Nat} (h : i ≤ n) :
    (List.range i).flatMap f <+: (List.range n).flatMap f := by
  induction n, h using Nat.le_induction with
  | base => exact List.prefix_refl _
  | succ n _ ih =>
    rw [flatMap_range_succ]
    exact ih.trans (List.prefix_append _ _)

private theorem round_first {f : Nat → List Role} {i n : Nat} (hR : rs ++ (List.range n).flatMap f <+: R) (hi : i < n) :
    (rs ++ (List.range i).flatMap f) ++ f i <+: R := by
  have h := flatMap_range_first f (show i + 1 ≤ n from hi)
  rw [flatMap_range_succ] at h
  rw [List.append_assoc]
  exact ((List.prefix_append_right_inj rs).2 h).trans hR

private theorem builds_preprocess_labels (hR : (List.range w).flatMap preRoles <+: R) :
    Builds (adderPreprocess w) [] fun pre gs' => Labelled w R gs' ((List.range w).flatMap preRoles) ∧
      pre.length = w ∧
      ∀ i x, pre[i]? = some x → At R gs'.length x.1 (.prop i) ∧ At R gs'.length x.2 (.gen i) := by
  refine builds_forRange_inv (J := fun i gs' => Labelled w R gs' ([] ++ (List.range i).flatMap preRoles)) ?_ ?_ ?_
  · rintro i x gs₁ gs₂ hp ⟨h0, h1⟩
    exact ⟨h0.ext hp, h1.ext hp⟩
  · exact ⟨List.nil_prefix, rfl, fun k g r hg => by cases hg⟩
  · intro i hi gs₀ _ hJ
    have hfirst : ([] ++ (List.range i).flatMap preRoles) ++ preRoles i <+: R := round_first hR hi
    have hgen : ([] ++ (List.range i).flatMap preRoles ++ [.prop i]) ++ [.gen i] <+: R := by
      simpa [preRoles] using hfirst
    refine (hJ.builds_synthGate ((List.prefix_append _ _).trans hgen) rfl rfl rfl).bind fun p gs₁ h₁ hp => ?_
    refine (hp.1.builds_synthGate hgen rfl rfl rfl).bind fun g gs₂ h₂ hg => builds_pure ⟨?_, hp.2.ext h₂, hg.2⟩
    rw [flatMap_range_succ]
    simpa [preRoles] using hg.1

private structure LevelInv (R : List Role) (w L : Nat) (p g : Slices) (gs : List Gate) : Prop where
  len_p : p.length = w
  len_g : g.length = w
  ne_p : ∀ i < w, p.getD i [] ≠ []
  front_p : ∀ i < w, At R gs.length (p.front i) (.prop i)
  back_p : ∀ i < w, At R gs.length (p.back i) (propRole L i)
  back_g : ∀ i < w, At R gs.length (g.back i) (genRole L i)

variable {L : Nat} {p g : Slices}

private theorem builds_cell_labels (hI : LevelInv R w L p g gs) {i : Nat} (hi : i < w) {gs' : List Gate}
    (hp : gs <+: gs') (hJ : Labelled w R gs' rs) (hR : rs ++ cellRoles L i <+: R) :
    Builds (prefixCell p g (2 ^ L) i) gs' fun x gs'' => Labelled w R gs'' (rs ++ cellRoles L i) ∧
      At R gs''.length x.1 (propRole (L + 1) i) ∧ At R gs''.length x.2 (genRole (L + 1) i) := by
  have hpv := (hI.back_p i hi).ext hp
  have hgv := (hI.back_g i hi).ext hp
  unfold cellRoles at hR ⊢
  by_cases hid : 2 ^ L ≤ i
  · have hlow : i - 2 ^ L < w := Nat.lt_of_le_of_lt (Nat.sub_le _ _) hi
    have hpg := (hI.back_p (i - 2 ^ L) hlow).ext hp
    have hgg := (hI.back_g (i - 2 ^ L) hlow).ext hp
    simp only [prefixCell, propRole, genRole, hid, ↓reduceIte] at hR ⊢
    have hR₃ : ((rs ++ [.pand L i]) ++ [.gor L i]) ++ [.pandp L i] <+: R := by simpa using hR
    have hR₂ := (List.prefix_append _ _).trans hR₃
    refine (hJ.builds_synthGate ((List.prefix_append _ _).trans hR₂) rfl hpv hgg).bind fun pand gs₁ h₁ hpand => ?_
    refine (hpand.1.builds_synthGate hR₂ rfl (hgv.ext h₁) hpand.2).bind fun gor gs₂ h₂ hgor => ?_
    refine (hgor.1.builds_synthGate hR₃ rfl (hpv.ext (h₁.trans h₂)) (hpg.ext (h₁.trans h₂))).bind
      fun pandp gs₃ h₃ hpandp => builds_pure ⟨?_, hpandp.2, hgor.2.ext h₃⟩
    simpa using hpandp.1
  · simp only [prefixCell, propRole, genRole, hid, ↓reduceIte, List.append_nil]
    exact builds_pure ⟨hJ, hpv, hgv⟩

private theorem LevelInv.push (hI : LevelInv R w L p g gs) {row : List (Int × Int)} {gs' : List Gate}
    (hp : gs <+: gs') (hlen : row.length = w)
    (hrow : ∀ i x, row[i]? = some x →
      At R gs'.length x.1 (propRole (L + 1) i) ∧ At R gs'.length x.2 (genRole (L + 1) i)) :
    LevelInv R w (L + 1) (p.push (row.map (·.1))) (g.push (row.map (·.2))) gs' := by
  have hget : ∀ i < w, ∃ x, row[i]? = some x := fun i hi => ⟨row[i], List.getElem?_eq_getElem (by omega)⟩
  have hlp := hI.len_p
  have hlg := hI.len_g
  refine ⟨by simp [Slices.push, hlp, hlen], by simp [Slices.push, hlg, hlen], ?_, ?_, ?_, ?_⟩ <;>
    intro i hi <;> obtain ⟨x, hx⟩ := hget i hi
  · exact getD_push_ne_nil (x := x.1) (by omega) (by simp [hx])
  · rw [front_push (x := x.1) (by omega) (hI.ne_p i hi) (by simp [hx])]
    exact (hI.front_p i hi).ext hp
  · rw [back_push (x := x.1) (by omega) (by simp [hx])]
    exact (hrow i x hx).1
  · rw [back_push (x := x.2) (by omega) (by simp [hx])]
    exact (hrow i x hx).2

private theorem levelRoles_eq_nil {l : Nat} (h : w ≤ 2 ^ l) : levelRoles w l = [] := by
  unfold levelRoles
  rw [List.flatMap_eq_nil_iff]
  intro i hi
  have := List.mem_range.1 hi
  rw [cellRoles, if_neg (by omega)]

private theorem flatMap_levels_stop (h : w ≤ 2 ^ L) {n : Nat} (hn : L ≤ n) :
    (List.range n).flatMap (levelRoles w) = (List.range L).flatMap (levelRoles w) := by
  induction n, hn using Nat.le_induction with
  | base => rfl
  | succ n hn ih =>
    have hpow : 2 ^ L ≤ 2 ^ n := Nat.pow_le_pow_right (by decide) hn
    rw [flatMap_range_succ, ih, levelRoles_eq_nil (by omega), List.append_nil]

private theorem builds_network_labels {pre : List Role} (hR : pre ++ (List.range w).flatMap (levelRoles w) <+: R)
    (fuel : Nat) (hfuel : L + fuel = w) (hI : LevelInv R w L p g gs)
    (hJ : Labelled w R gs (pre ++ (List.range L).flatMap (levelRoles w))) :
    Builds (prefixNetwork w fuel (2 ^ L) p g) gs fun x gs' =>
      Labelled w R gs' (pre ++ (List.range w).flatMap (levelRoles w)) ∧
      ∃ L', w ≤ 2 ^ L' ∧ LevelInv R w L' x.1 x.2 gs' := by
  induction fuel generalizing L p g gs with
  | zero =>
    have hLw : L = w := by omega
    subst hLw
    exact builds_pure ⟨hJ, L, Nat.lt_two_pow_self.le, hI⟩
  | succ fuel ih =>
    by_cases hd : 2 ^ L < w
    · simp only [prefixNetwork, hd, ↓reduceIte]
      have hRL := round_first hR (show L < w by omega)
      have hrow : Builds (forRange (prefixCell p g (2 ^ L)) w) gs fun row gs' =>
          Labelled w R gs' ((pre ++ (List.range L).flatMap (levelRoles w)) ++ levelRoles w L) ∧ row.length = w ∧
          ∀ i x, row[i]? = some x →
            At R gs'.length x.1 (propRole (L + 1) i) ∧ At R gs'.length x.2 (genRole (L + 1) i) := by
        refine builds_forRange_inv (J := fun i gs' => Labelled w R gs'
          ((pre ++ (List.range L).flatMap (levelRoles w)) ++ (List.range i).flatMap (cellRoles L))) ?_ ?_ ?_
        · rintro i x gs₁ gs₂ hp ⟨h0, h1⟩
          exact ⟨h0.ext hp, h1.ext hp⟩
        · simpa using hJ
        · intro i hi gs' hp hJ'
          rw [flatMap_range_succ, ← List.append_assoc]
          exact builds_cell_labels hI hi hp hJ' (round_first hRL hi)
      refine hrow.bind ?_
      rintro row gs' hp ⟨hJ', hlen, hx⟩
      rw [show 2 * 2 ^ L = 2 ^ (L + 1) by rw [Nat.pow_succ, Nat.mul_comm]]
      refine ih (by omega) (hI.push hp hlen hx) ?_
      rwa [flatMap_range_succ, ← List.append_assoc]
    · simp only [prefixNetwork, hd, ↓reduceIte]
      refine builds_pure ⟨?_, L, by omega, hI⟩
      rwa [flatMap_levels_stop (by omega) (show L ≤ w by omega)]

private theorem builds_sums_labels (hw : 0 < w) (hR : rs ++ (List.range w).flatMap sumRoles <+: R) (hL : w ≤ 2 ^ L)
    (hI : LevelInv R w L p g gs) (hJ : Labelled w R gs rs) :
    Builds (do
        let sums ← forRange (sumCell p g) w
        return sums ++ [g.back (w - 1)]) gs fun po gs' =>
      Labelled w R gs' (rs ++ (List.range w).flatMap sumRoles) ∧ po.length = w + 1 ∧
      ∀ k o, po[k]? = some o → At R gs'.length o (outRole w k) := by
  have hw2 : w < 2 ^ w := Nat.lt_two_pow_self
  have hcarry : ∀ i < w, At R gs.length (g.back i) (genRole w i) := by
    intro i hi
    rw [genRole_covered (show i < 2 ^ w by omega) (show i < 2 ^ L by omega)]
    exact hI.back_g i hi
  have hsums : Builds (forRange (sumCell p g) w) gs fun sums gs' =>
      Labelled w R gs' (rs ++ (List.range w).flatMap sumRoles) ∧ sums.length = w ∧
      ∀ k o, sums[k]? = some o → At R gs'.length o (if k = 0 then .prop 0 else .sum k) := by
    refine builds_forRange_inv (J := fun i gs' => Labelled w R gs' (rs ++ (List.range i).flatMap sumRoles)) ?_ ?_ ?_
    · intro k o gs₁ gs₂ hp h
      exact h.ext hp
    · simpa using hJ
    · intro k hk gs' hp hJ'
      rw [flatMap_range_succ, ← List.append_assoc]
      have hfirst := round_first hR hk
      by_cases hk0 : k = 0
      · subst hk0
        refine builds_pure ⟨?_, (hI.front_p 0 hk).ext hp⟩
        simpa [sumRoles] using hJ'
      · simp only [sumCell, sumRoles, hk0, ↓reduceIte] at hfirst ⊢
        exact hJ'.builds_synthGate hfirst rfl ((hI.front_p k hk).ext hp) ((hcarry (k - 1) (by omega)).ext hp)
  refine hsums.bind ?_
  rintro sums gs' hp ⟨hJ', hlen, hx⟩
  refine builds_pure ⟨hJ', by simp [hlen], ?_⟩
  intro k o ho
  unfold outRole
  by_cases hk : k < w
  · rw [List.getElem?_append_left (by omega)] at ho
    rw [if_pos hk]
    exact hx k o ho
  · rw [List.getElem?_append_right (by omega)] at ho
    obtain ⟨-, rfl⟩ := List.getElem?_eq_some_iff.1 ho
    rw [if_neg hk]
    simpa using (hcarry (w - 1) (by omega)).ext hp

end Adder

theorem adder_labelled {w : Nat} (hw : 1 ≤ w) :
    Labelled w (adderRoles w) (synthesizeAdder w).gates (adderRoles w) ∧
    (synthesizeAdder w).po_gates.length = w + 1 ∧
    ∀ k o, (synthesizeAdder w).po_gates[k]? = some o →
      At (adderRoles w) (synthesizeAdder w).gates.length o (outRole w k) := by
  have hlev : (List.range w).flatMap preRoles ++ (List.range w).flatMap (levelRoles w) <+: adderRoles w :=
    List.prefix_append _ _
  have hbuild : Builds (adderGates w) [] fun po gs' => Labelled w (adderRoles w) gs' (adderRoles w) ∧
      po.length = w + 1 ∧ ∀ k o, po[k]? = some o → At (adderRoles w) gs'.length o (outRole w k) := by
    refine (builds_preprocess_labels ((List.prefix_append _ _).trans hlev)).bind ?_
    rintro pre gs₁ - ⟨hJ, hlen, hpre⟩
    have hI : LevelInv (adderRoles w) w 0 (pre.map fun x => [x.1]) (pre.map fun x => [x.2]) gs₁ := by
      refine ⟨by simpa using hlen, by simpa using hlen, ?_, ?_, ?_, ?_⟩ <;> intro i hi <;>
        have hx := List.getElem?_eq_getElem (show i < pre.length by omega) <;>
        obtain ⟨h0, h1⟩ := hpre i _ hx <;>
        simp only [Slices.front, Slices.back, List.getD_eq_getElem?_getD, List.getElem?_map, hx, Option.map_some,
          Option.getD_some, List.headD_cons, List.getLastD_cons, List.getLastD_nil]
      · simp
      · exact h0
      · exact h0
      · exact h1
    refine (builds_network_labels (L := 0) hlev w (by omega) hI (by simpa using hJ)).bind ?_
    rintro ⟨p, g⟩ gs₂ - ⟨hJ', L, hL, hI'⟩
    exact builds_sums_labels hw (List.prefix_refl _) hL hI' hJ'
  exact hbuild.2

private theorem PinAt.inOrder {R : List Role} {n m : Nat} {i : Int} {x : Pin} (h : PinAt R n i x)
    (hpi : ∀ k, x = .pi k → k < m) : InOrder m n i := by
  cases x with
  | pi k =>
    have := hpi k rfl
    have hi : i = -(k + 1 : Nat) := h
    exact .inl ⟨by omega, by omega⟩
  | gate r => exact .inr ⟨h.1, h.2.1⟩

theorem synthesizeAdder_wellOrdered {w : Nat} (hw : 1 ≤ w) : WellOrdered (synthesizeAdder w) := by
  obtain ⟨hlabel, -, hout⟩ := adder_labelled hw
  refine ⟨?_, ?_⟩
  · intro k g hg
    have hk : k < (adderRoles w).length := hlabel.len ▸ (List.getElem?_eq_some_iff.1 hg).1
    have hr := List.getElem?_eq_getElem hk
    obtain ⟨-, h0, h1⟩ := hlabel.gates k g _ hg hr
    have hmem := mem_adderRoles.1 (List.getElem_mem hk)
    -- only the preprocessing reads primary inputs, those of its own bit
    refine ⟨h0.inOrder ?_, h1.inOrder ?_⟩ <;> intro j hj <;> show j < 2 * w <;>
      revert hmem hj <;> cases (adderRoles w)[k] <;> intro hmem hj <;> cases hj <;> dsimp only [Role.InWidth] at hmem <;>
      omega
  · intro o ho
    obtain ⟨k, hk, rfl⟩ := List.getElem_of_mem ho
    obtain ⟨h0, hlt, -⟩ := hout k _ (List.getElem?_eq_getElem hk)
    exact ⟨h0, hlt⟩

end GemFI.GateFU
