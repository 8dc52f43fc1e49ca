import GemFI.GateFU.AdderRoles
import GemFI.GateFU.Multiplier

/-!
# The synthesized netlists are well ordered

The order of the adder is read off its roles.  For the multiplier it is an invariant of the construction: every table
holds gates that exist already (`IsGate`), so a new gate reads primary inputs and earlier gates.
-/

namespace GemFI.GateFU

open StraightLine

def IsGate (n : Nat) (i : Int) : Prop := 0 ≤ i ∧ i.toNat < n

theorem IsGate.inOrder {n m : Nat} {i : Int} (h : IsGate n i) : InOrder m n i := .inr h

theorem IsGate.ext {gs gs' : List Gate} {i : Int} (h : IsGate gs.length i) (hp : gs <+: gs') : IsGate gs'.length i :=
  ⟨h.1, Nat.lt_of_lt_of_le h.2 hp.length_le⟩

section Rules

variable {m w : Nat} {gs : List Gate}

theorem builds_inOrder {t : GateType} {in0 in1 : Int} (h : GatesInOrder m gs) (h0 : InOrder m gs.length in0)
    (h1 : InOrder m gs.length in1) :
    Builds (synthGate t in0 in1) gs fun o gs' => GatesInOrder m gs' ∧ IsGate gs'.length o := by
  refine Builds.bind (P := fun (i : Nat) gs' => GatesInOrder m gs' ∧ IsGate gs'.length (i : Int))
    (builds_emit ⟨gatesInOrder_snoc.2 ⟨h, h0, h1⟩, by omega, by simp⟩) ?_
  intro i gs' _ hi
  exact builds_pure hi

private theorem inOrder_pi {k n : Nat} (hk : k < m) : InOrder m n (-(k + 1 : Nat)) := .inl ⟨by omega, by omega⟩

private theorem inOrder_fullAdderCell {x y c : Int} (h : GatesInOrder m gs) (hx : IsGate gs.length x)
    (hy : IsGate gs.length y) (hc : IsGate gs.length c) :
    Builds (fullAdderCell x y c) gs fun r gs' =>
      GatesInOrder m gs' ∧ IsGate gs'.length r.1 ∧ IsGate gs'.length r.2 := by
  unfold fullAdderCell
  refine (builds_inOrder h hx.inOrder hy.inOrder).bind fun xyc gs₁ h₁ hxyc => ?_
  refine (builds_inOrder hxyc.1 (hx.ext h₁).inOrder (hy.ext h₁).inOrder).bind fun xy gs₂ h₂ hxy => ?_
  have hxyc₂ := hxyc.2.ext h₂
  have hc₂ := hc.ext (h₁.trans h₂)
  refine (builds_inOrder hxy.1 hxyc₂.inOrder hc₂.inOrder).bind fun s gs₃ h₃ hs => ?_
  refine (builds_inOrder hs.1 (hxyc₂.ext h₃).inOrder (hc₂.ext h₃).inOrder).bind fun xc gs₄ h₄ hxc => ?_
  have hxy₄ := hxy.2.ext (h₃.trans h₄)
  refine (builds_inOrder hxc.1 hxy₄.inOrder hxc.2.inOrder).bind fun co gs₅ h₅ hco => ?_
  exact builds_pure ⟨hco.1, hs.2.ext (h₄.trans h₅), hco.2⟩

private def Gates (n : Nat) (l : List Int) : Prop := ∀ o ∈ l, IsGate n o

private theorem Gates.ext {l : List Int} {gs' : List Gate} (h : Gates gs.length l) (hp : gs <+: gs') :
    Gates gs'.length l := fun o ho => (h o ho).ext hp

private theorem Gates.getD {n k : Nat} {l : List Int} (h : Gates n l) (hk : k < l.length) : IsGate n (l.getD k 0) := by
  rw [List.getD_eq_getElem?_getD, List.getElem?_eq_getElem hk]
  exact h _ (List.getElem_mem hk)

private theorem Gates.snoc {n : Nat} {l : List Int} {o : Int} (h : Gates n l) (ho : IsGate n o) : Gates n (l ++ [o]) := by
  intro x hx
  rcases List.mem_append.1 hx with hx | hx
  · exact h x hx
  · rwa [List.mem_singleton.1 hx]

private theorem inOrder_rippleRow {pp : List (List Int)} {const0 : Int} {acc : List Int} {i : Nat}
    (h : GatesInOrder m gs) (h0 : IsGate gs.length const0) (hlen : acc.length = 2 * w) (hacc : Gates gs.length acc)
    (hrow : ∀ k, IsGate gs.length (rowInput w pp const0 i k)) :
    Builds (rippleRow w pp const0 acc i) gs fun r gs' =>
      GatesInOrder m gs' ∧ r.1.length = 2 * w ∧ Gates gs'.length r.1 ∧ IsGate gs'.length r.2 := by
  unfold rippleRow
  apply builds_foldRange (I := fun n (r : List Int × Int) gs' =>
    GatesInOrder m gs' ∧ r.1.length = n ∧ Gates gs'.length r.1 ∧ IsGate gs'.length r.2)
  · exact ⟨h, rfl, fun o ho => (List.not_mem_nil ho).elim, h0⟩
  · rintro k hk ⟨s, c⟩ gs₁ h₁ ⟨hJ, hslen, hs, hc⟩
    refine (inOrder_fullAdderCell hJ ((hacc.getD (by omega)).ext h₁) ((hrow k).ext h₁) hc).bind ?_
    rintro ⟨o, co⟩ gs₂ h₂ ⟨hJ', ho, hco⟩
    exact builds_pure ⟨hJ', by simpa using hslen, (hs.ext h₂).snoc ho, hco⟩

private theorem inOrder_multiplierRows {pp : List (List Int)} {const0 : Int} {acc : List Int}
    (h : GatesInOrder m gs) (h0 : IsGate gs.length const0) (hlen : acc.length = 2 * w) (hacc : Gates gs.length acc)
    (hrow : ∀ i < w, ∀ k, IsGate gs.length (rowInput w pp const0 i k)) :
    Builds (multiplierRows w pp const0 acc) gs fun r gs' => GatesInOrder m gs' ∧ Gates gs'.length r.1 := by
  have hrows : Builds (multiplierRows w pp const0 acc) gs fun r gs' =>
      GatesInOrder m gs' ∧ r.1.length = 2 * w ∧ Gates gs'.length r.1 := by
    unfold multiplierRows
    apply builds_foldRange (I := fun _ (st : List Int × List Int) gs' =>
      GatesInOrder m gs' ∧ st.1.length = 2 * w ∧ Gates gs'.length st.1)
    · exact ⟨h, hlen, hacc⟩
    · rintro r hr ⟨acc', cs⟩ gs₁ h₁ ⟨hJ, hlen', hacc'⟩
      refine (inOrder_rippleRow hJ (h0.ext h₁) hlen' hacc'
        fun k => (hrow (r + 1) (by omega) k).ext h₁).bind ?_
      rintro ⟨s, c⟩ gs₂ _ ⟨hJ', hslen, hs, -⟩
      exact builds_pure ⟨hJ', hslen, hs⟩
  exact hrows.imp fun r gs' _ hr => ⟨hr.1, hr.2.2⟩

private theorem inOrder_partialProducts (w : Nat) :
    Builds (partialProducts w) [] fun pp gs' => GatesInOrder (2 * w) gs' ∧ pp.length = w ∧
      ∀ (i : Nat) (row : List Int), pp[i]? = some row → row.length = w ∧
        ∀ (j : Nat) (o : Int), row[j]? = some o → IsGate gs'.length o := by
  refine builds_forRange_inv (J := fun _ gs' => GatesInOrder (2 * w) gs') ?_ (gatesInOrder_nil _) ?_
  · rintro i row gs₁ gs₂ hp ⟨hlen, hrow⟩
    exact ⟨hlen, fun j o ho => (hrow j o ho).ext hp⟩
  · intro i hi gs₁ _ hJ
    refine builds_forRange_inv (J := fun _ gs' => GatesInOrder (2 * w) gs') ?_ hJ ?_
    · intro j o gs₂ gs₃ hp ho
      exact ho.ext hp
    · intro j hj gs₂ _ hJ'
      exact builds_inOrder hJ' (inOrder_pi (by omega)) (inOrder_pi (by omega))

end Rules

theorem synthesizeMultiplier_wellOrdered {w : Nat} (hw : 1 ≤ w) : WellOrdered (synthesizeMultiplier w) := by
  have hbuild : Builds (multiplierGates w) [] fun r gs' => GatesInOrder (2 * w) gs' ∧ Gates gs'.length r.1 := by
    refine (inOrder_partialProducts w).bind ?_
    rintro pp gs₁ - ⟨hJ, hlen, hpp⟩
    have ha0 : ∀ n, InOrder (2 * w) n (-1) := fun n => inOrder_pi (k := 0) (by omega)
    refine (builds_inOrder hJ (ha0 _) (ha0 _)).bind fun not_a0 gs₂ h₂ hnot => ?_
    refine (builds_inOrder hnot.1 (ha0 _) hnot.2.inOrder).bind fun const0 gs₃ h₃ hc0 => ?_
    have hget : ∀ i < w, ∀ j < w, IsGate gs₃.length ((pp.getD i []).getD j 0) := by
      intro i hi j hj
      obtain ⟨hrl, hrow⟩ := hpp i _ (List.getElem?_eq_getElem (by omega))
      simp only [List.getD_eq_getElem?_getD, List.getElem?_eq_getElem (show i < pp.length by omega),
        Option.getD_some, List.getElem?_eq_getElem (show j < pp[i].length by omega)]
      exact (hrow j _ (List.getElem?_eq_getElem (by omega))).ext (h₂.trans h₃)
    refine inOrder_multiplierRows hc0.1 hc0.2 (by simp) ?_ ?_
    · intro o ho
      obtain ⟨j, -, rfl⟩ := List.mem_map.1 ho
      split
      · next hj => exact hget 0 hw j hj
      · exact hc0.2
    · intro i hi k
      unfold rowInput
      split
      · next hk => exact hget i hi (k - i) hk.2
      · exact hc0.2
  exact ⟨hbuild.2.1, hbuild.2.2⟩

/-- Both synthesized netlists are well ordered, and their evaluation reads initialised values within bounds only,
whichever gate is stuck. -/
theorem synthesize_wellOrdered (w : Nat) (hw : 1 ≤ w) :
    ∀ N ∈ [synthesizeAdder w, synthesizeMultiplier w], N.pi_width = 2 * w ∧ WellOrdered N ∧
      ∀ pis : List Bool, pis.length = 2 * w → ∀ stuck_gate stuck_val : Int,
        evalNet? N pis stuck_gate stuck_val = some (evalNet N pis stuck_gate stuck_val) := by
  intro N hN
  have hN' : N.pi_width = 2 * w ∧ WellOrdered N := by
    simp only [List.mem_cons, List.not_mem_nil, or_false] at hN
    rcases hN with rfl | rfl
    · exact ⟨rfl, synthesizeAdder_wellOrdered hw⟩
    · exact ⟨rfl, synthesizeMultiplier_wellOrdered hw⟩
  exact ⟨hN'.1, hN'.2, fun pis hpis sg sv => hN'.2.evalNet?_eq (hpis.trans hN'.1.symm)⟩

/-- The checked evaluation of the adder of width 2 at `3 + 1` with its first gate stuck at 1. -/
theorem synthesize_wellOrdered_two :
    1 ≤ 2 ∧ WellOrdered (synthesizeAdder 2) ∧
    evalNet? (synthesizeAdder 2) (operandPIs 2 3 1) 0 1 = some (evalNet (synthesizeAdder 2) (operandPIs 2 3 1) 0 1) := by
  have h := synthesize_wellOrdered 2 (by decide) (synthesizeAdder 2) List.mem_cons_self
  exact ⟨by decide, h.2.1, h.2.2 _ rfl 0 1⟩

end GemFI.GateFU
