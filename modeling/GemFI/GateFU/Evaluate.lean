import GemFI.GateFU.Order

/-!
# The writeback oracle of CHAOSGateFU

`evaluate` sends the first two integer sources of an instruction of the target class through the clean and the faulted
netlist and returns the exclusive or of the two results, if they differ.  The delta takes the clean result to the faulty
one, and of the two polarities of a gate the one that the gate has anyway gives no delta.
-/

namespace GemFI.GateFU

/-- A source register of an instruction: whether it is of the integer class, and its value. -/
structure SrcReg where
  isInt : Bool
  val : BitVec 64
  deriving DecidableEq, Repr

structure LogLine where
  cycle : Nat
  opClass : Int
  gate : Int
  polarity : Int
  a : BitVec 64
  b : BitVec 64
  clean : BitVec 64
  stuck : BitVec 64
  deriving DecidableEq, Repr

structure CHAOSGateFU where
  net : Netlist
  target_opclass : Int
  stuck_gate : Int
  stuck_val : Int
  first_clock : Nat
  write_log : Bool
  eval_count : Nat := 0
  diff_count : Nat := 0
  log : List LogLine := []

namespace CHAOSGateFU

def operands (srcs : List SrcReg) : Option (BitVec 64 × BitVec 64) :=
  if srcs.length < 2 then none
  else match srcs.filter (·.isInt) with
    | x :: y :: _ => some (x.val, y.val)
    | _ => none

/-- The operands that are sent through the netlists; none if the injector does not apply. -/
def applies (u : CHAOSGateFU) (op_class : Int) (curCycle : Nat) (srcs : List SrcReg) :
    Option (BitVec 64 × BitVec 64) :=
  if u.stuck_gate < 0 then none
  else if op_class ≠ u.target_opclass then none
  else if curCycle < u.first_clock then none
  else operands srcs

/-- The primary inputs: the bits of `a` from 0 on and those of `b` from 64 on, as far as the netlist has inputs. -/
def inputs (pi_width : Nat) (a b : BitVec 64) : List Bool :=
  (List.range pi_width).map fun i => if i < 64 then a.getLsbD i else if i < 128 then b.getLsbD (i - 64) else false

def pack (po : List Bool) : Nat → BitVec 64
  | 0 => 0
  | n + 1 => if po.getD n false then pack po n ||| 1#64 <<< n else pack po n

/-- The packed result of the netlist with a gate stuck; outputs from 64 on do not fit the word. -/
def netResult (u : CHAOSGateFU) (a b : BitVec 64) (stuck_gate stuck_val : Int) : BitVec 64 :=
  pack (evalNet u.net (inputs u.net.pi_width a b) stuck_gate stuck_val) (min u.net.po_gates.length 64)

def r_clean (u : CHAOSGateFU) (a b : BitVec 64) : BitVec 64 := netResult u a b (-1) 0

def r_stuck (u : CHAOSGateFU) (a b : BitVec 64) : BitVec 64 := netResult u a b u.stuck_gate u.stuck_val

/-- The new state, and the delta if the oracle returns true. -/
def evaluate (u : CHAOSGateFU) (op_class : Int) (curCycle : Nat) (srcs : List SrcReg) :
    CHAOSGateFU × Option (BitVec 64) :=
  match u.applies op_class curCycle srcs with
  | none => (u, none)
  | some (a, b) =>
    let clean := u.r_clean a b
    let stuck := u.r_stuck a b
    let u := { u with eval_count := u.eval_count + 1 }
    if stuck ≠ clean then
      let line : LogLine := ⟨curCycle, u.target_opclass, u.stuck_gate, u.stuck_val, a, b, clean, stuck⟩
      ({ u with
          diff_count := u.diff_count + 1
          log := if u.write_log ∧ u.eval_count ≤ 32 then u.log ++ [line] else u.log },
        some (clean ^^^ stuck))
    else (u, none)

/-! ### Packing -/

theorem getLsbD_pack (po : List Bool) {n : Nat} (hn : n ≤ 64) (i : Nat) :
    (pack po n).getLsbD i = (decide (i < n) && po.getD i false) := by
  induction n with
  | zero => simp [pack]
  | succ n ih =>
    have hbit : (1#64 <<< n).getLsbD i = decide (i = n) := by
      rw [BitVec.getLsbD_shiftLeft, BitVec.getLsbD_one, Bool.eq_iff_iff]
      simp only [Bool.and_eq_true, Bool.not_eq_true', decide_eq_true_eq, decide_eq_false_iff_not]
      omega
    rw [pack]
    by_cases hi : i = n
    · subst hi
      split
      · next h => rw [BitVec.getLsbD_or, hbit, h]; simp
      · next h => rw [ih (by omega), Bool.eq_false_iff.2 h]; simp
    · have hlt : (i < n + 1) = (i < n) := by
        rw [eq_iff_iff]
        omega
      simp only [hlt]
      split
      · rw [BitVec.getLsbD_or, hbit, decide_eq_false hi, Bool.or_false, ih (by omega)]
      · rw [ih (by omega)]

theorem netResult_getLsbD (u : CHAOSGateFU) (a b : BitVec 64) (sg sv : Int) {i : Nat} (hi : i < 64) :
    (netResult u a b sg sv).getLsbD i = (evalNet u.net (inputs u.net.pi_width a b) sg sv).getD i false := by
  have hlen : (evalNet u.net (inputs u.net.pi_width a b) sg sv).length = u.net.po_gates.length := by simp [evalNet]
  rw [netResult, getLsbD_pack _ (Nat.min_le_right _ _)]
  by_cases hout : i < u.net.po_gates.length
  · rw [decide_eq_true (Nat.lt_min.2 ⟨hout, hi⟩), Bool.true_and]
  · rw [List.getD_eq_getElem?_getD, List.getElem?_eq_none (by omega), Option.getD_none, Bool.and_false]

/-! ### The delta -/

theorem evaluate_snd (u : CHAOSGateFU) (op_class : Int) (curCycle : Nat) (srcs : List SrcReg) :
    (u.evaluate op_class curCycle srcs).2 =
      match u.applies op_class curCycle srcs with
      | none => none
      | some (a, b) => if u.r_stuck a b ≠ u.r_clean a b then some (u.r_clean a b ^^^ u.r_stuck a b) else none := by
  unfold evaluate
  cases u.applies op_class curCycle srcs with
  | none => rfl
  | some p =>
    obtain ⟨a, b⟩ := p
    dsimp only
    split <;> rfl

theorem r_stuck_eq_r_clean {u : CHAOSGateFU} {a b : BitVec 64} (h0 : 0 ≤ u.stuck_gate)
    (hv : decide (u.stuck_val ≠ 0) =
      (gateVals u.net (inputs u.net.pi_width a b) (-1) 0).getD u.stuck_gate.toNat false) :
    u.r_stuck a b = u.r_clean a b := by
  have h := evalNet_stuck_at_own u.net (inputs u.net.pi_width a b) u.stuck_gate.toNat u.stuck_val 0 hv
  rw [Int.toNat_of_nonneg h0] at h
  rw [r_stuck, r_clean, netResult, netResult, h]

private theorem evaluate_polarity (u : CHAOSGateFU) (op_class : Int) (curCycle : Nat) (srcs : List SrcReg) :
    ({ u with stuck_val := 0 }.evaluate op_class curCycle srcs).2 = none ∨
    ({ u with stuck_val := 1 }.evaluate op_class curCycle srcs).2 = none := by
  have happ : ∀ v, applies { u with stuck_val := v } op_class curCycle srcs = u.applies op_class curCycle srcs :=
    fun _ => rfl
  simp only [evaluate_snd, happ]
  cases hp : u.applies op_class curCycle srcs with
  | none => exact .inl rfl
  | some p =>
    obtain ⟨a, b⟩ := p
    have h0 : 0 ≤ u.stuck_gate := by
      by_contra h
      rw [applies, if_pos (by omega)] at hp
      cases hp
    cases hv : (gateVals u.net (inputs u.net.pi_width a b) (-1) 0).getD u.stuck_gate.toNat false with
    | false =>
      have heq : r_stuck { u with stuck_val := 0 } a b = r_clean { u with stuck_val := 0 } a b :=
        r_stuck_eq_r_clean h0 hv.symm
      exact .inl (if_neg (not_not.2 heq))
    | true =>
      have heq : r_stuck { u with stuck_val := 1 } a b = r_clean { u with stuck_val := 1 } a b :=
        r_stuck_eq_r_clean h0 hv.symm
      exact .inr (if_neg (not_not.2 heq))

private theorem xor_delta (x y : BitVec 64) : x ^^^ (if y ≠ x then some (x ^^^ y) else none).getD 0 = y := by
  by_cases h : y = x
  · rw [if_neg (not_not.2 h), h]
    exact BitVec.xor_zero
  · rw [if_pos h, Option.getD_some, ← BitVec.xor_assoc, BitVec.xor_self, BitVec.zero_xor]

/-- A gate stuck at its own fault-free value changes no output; so `evaluate` reports a delta for at most one of the two
polarities of a gate, a reported delta is not zero, and it takes the clean result to the faulty one, which hold the low
64 outputs. -/
theorem evaluate_delta (N : Netlist) (u : CHAOSGateFU) (op_class : Int) (curCycle : Nat) (srcs : List SrcReg) :
    (∀ (pis : List Bool) (k : Nat) (v : Int), decide (v ≠ 0) = (gateVals N pis (-1) 0).getD k false →
      evalNet N pis k v = evalNet N pis (-1) 0) ∧
    (({ u with stuck_val := 0 }.evaluate op_class curCycle srcs).2 = none ∨
      ({ u with stuck_val := 1 }.evaluate op_class curCycle srcs).2 = none) ∧
    (∀ δ, (u.evaluate op_class curCycle srcs).2 = some δ → δ ≠ 0) ∧
    ∀ a b, u.applies op_class curCycle srcs = some (a, b) →
      u.r_clean a b ^^^ (u.evaluate op_class curCycle srcs).2.getD 0 = u.r_stuck a b ∧
      ∀ i < 64,
        (u.r_clean a b).getLsbD i = (evalNet u.net (inputs u.net.pi_width a b) (-1) 0).getD i false ∧
        (u.r_stuck a b).getLsbD i =
          (evalNet u.net (inputs u.net.pi_width a b) u.stuck_gate u.stuck_val).getD i false := by
  refine ⟨fun pis k v hv => evalNet_stuck_at_own N pis k v 0 hv, evaluate_polarity u op_class curCycle srcs, ?_, ?_⟩
  · intro δ hδ
    rw [evaluate_snd] at hδ
    split at hδ
    · cases hδ
    · next a b _ =>
      split at hδ
      · next hne =>
        rw [← Option.some.inj hδ]
        intro hz
        exact hne (BitVec.xor_eq_zero_iff.1 hz).symm
      · cases hδ
  · intro a b hab
    refine ⟨?_, fun i hi => ⟨netResult_getLsbD u a b _ _ hi, netResult_getLsbD u a b _ _ hi⟩⟩
    rw [evaluate_snd, hab]
    exact xor_delta _ _

/-- A unit of one AND gate stuck at 1, at the operands 1 and 0: the delta is the first bit. -/
theorem evaluate_delta_and :
    let u : CHAOSGateFU := ⟨⟨[⟨.and, -1, -2⟩], [0], 2⟩, 1, 0, 1, 0, true, 0, 0, []⟩
    (u.evaluate 1 0 [⟨true, 1⟩, ⟨true, 0⟩]).2 = some 1 ∧
    ({ u with stuck_val := 0 }.evaluate 1 0 [⟨true, 1⟩, ⟨true, 0⟩]).2 = none ∧
    u.r_clean 1 0 ^^^ 1 = u.r_stuck 1 0 := by
  intro u
  have hdelta : (u.evaluate 1 0 [⟨true, 1⟩, ⟨true, 0⟩]).2 = some 1 := by decide
  obtain ⟨-, hpol, -, hxor⟩ := evaluate_delta u.net u 1 0 [⟨true, 1⟩, ⟨true, 0⟩]
  have hclean := (hxor 1 0 (by decide)).1
  rw [hdelta] at hclean
  refine ⟨hdelta, hpol.resolve_right ?_, hclean⟩
  show (u.evaluate 1 0 [⟨true, 1⟩, ⟨true, 0⟩]).2 ≠ none
  rw [hdelta]
  exact Option.some_ne_none 1

end CHAOSGateFU

end GemFI.GateFU
