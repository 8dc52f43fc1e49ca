import GemFI.Lib.Asm
import GemFI.Lib.Lists
import GemFI.Tools.HarpChecker
import Mathlib.Data.Rat.Defs

/-!
# Which sequences the self-check reports without a fault

`lineShape?` says which registers and which bytes of the region a line reads and writes.  Whatever the instructions of
an accepted sequence compute from what they read, a run without a fault is not reported, if and only if the sequence
is clean (`checker_ok_iff`).  The sequences of integer and of memory instructions that the tool draws are clean
(`random_checker_ok`).  `mov x9, x8` is not, since it puts the address of the region into the signature, and the pool
of floating-point instructions has a store of d8 that may come before the load.

A line that writes x8, accesses bytes outside of the region or uses other registers than x8 to x28 and v8 to v15 has
no shape.
-/

namespace GemFI.Tools.HarpWrap

open Text Footprint

/-! ### Reads and writes of a line -/

def loc? (n : Nat) : Asm.Loc → Option (Loc n)
  | .x k => if h : 8 ≤ k.val ∧ k.val - 8 < 21 then some (.x ⟨k.val - 8, h.2⟩) else none
  | .v k => if h : 8 ≤ k.val ∧ k.val - 8 < 8 then some (.v ⟨k.val - 8, h.2⟩) else none
  | .sp | .mem => none

/-- The zero registers have no location. -/
def regLocs? (n : Nat) (r : Asm.Reg) : Option (List (Loc n)) := r.loc.toList.mapM (loc? n)

def dest? (n : Nat) (r : Asm.Reg) : Option (List (Loc n)) := (regLocs? n r).filter fun ls => !ls.contains .x8

def operandLocs? (n : Nat) : Asm.Operand → Option (List (Loc n))
  | .reg r => regLocs? n r
  | .imm _ | .other _ => some []
  | .mem _ => none

/-- The instruction keeps a part of the register that it writes, or takes it as a source: `movk`, an instruction on one lane,
or one whose first operand is a number, such as `orr v8.4s, #1`. -/
def updates (i : Asm.Inst) : Bool :=
  match i.rt, i.operands with
  | .lane .., _ => true
  | _, .imm _ :: _ => i.mnemonic ≠ "mov".toList ∧ i.mnemonic ≠ "movz".toList
  | _, _ => i.mnemonic = "movk".toList

def size? : Asm.Reg → Option Nat
  | .x _ | .xzr | .scalar .d _ => some 8
  | .w _ | .wzr | .scalar .s _ => some 4
  | .scalar .b _ => some 1
  | .scalar .h _ => some 2
  | .scalar .q _ => some 16
  | _ => none

/-- An access: the registers that the offset in the region depends on, and the bytes, all of them if it is `fixed`. -/
structure Access (n : Nat) where
  regs : List (Loc n)
  bytes : List (Loc n)
  fixed : Bool

def bytesAt (n k size : Nat) : List (Loc n) := ((List.finRange n).filter fun i => k ≤ i.val ∧ i.val < k + size).map .mem

def isBase : Asm.Reg → Bool
  | .x b => b.val = 8
  | _ => false

/-- The base is not written back.  A base other than x8 holds an address, from which the one in x8 is subtracted. -/
def access? (n size : Nat) : List Asm.Operand → Option (Access n)
  | [.mem ⟨base, offset, false⟩] =>
    match isBase base, offset with
    | true, .imm k => if 0 ≤ k ∧ k.toNat + size ≤ n then some ⟨[], bytesAt n k.toNat size, true⟩ else none
    | true, .reg r => (regLocs? n r).map (⟨·, bytesAt n 0 n, false⟩)
    | false, .imm _ => (regLocs? n base).map (⟨.x8 :: ·, bytesAt n 0 n, false⟩)
    | false, .reg r => do return ⟨.x8 :: (← regLocs? n base) ++ (← regLocs? n r), bytesAt n 0 n, false⟩
  | _ => none

/-- What a load reads; `=` is for a constant. -/
def loadReads? (n size : Nat) : List Asm.Operand → Option (List (Loc n))
  | [.other ('=' :: _)] => some []
  | operands => (access? n size operands).map fun a => a.regs ++ a.bytes

def shape? (n : Nat) (i : Asm.Inst) : Option (Shape (Loc n)) :=
  match Asm.kind i.mnemonic with
  | .arithmetic => do
    let dest ← dest? n i.rt
    let sources ← i.operands.mapM (operandLocs? n)
    return { reads := (if updates i then dest else []) ++ sources.flatten, writes := dest }
  | .load => do
    let dest ← dest? n i.rt
    let reads ← loadReads? n (← size? i.rt) i.operands
    return { reads := reads, writes := dest }
  | .store => do
    let source ← regLocs? n i.rt
    let a ← access? n (← size? i.rt) i.operands
    return { reads := source ++ a.regs ++ (if a.fixed then [] else a.bytes), writes := a.bytes }
  | .other => none

def lineShape? (n : Nat) (line : List Char) : Option (Shape (Loc n)) := (Asm.read line).bind (shape? n)

/-- The instructions read and write what the lines say. -/
def Implements {n : Nat} (code : List (Instr (Val n))) (lines : List (List Char)) : Prop :=
  lines.mapM (lineShape? n) = some (code.map Instr.toShape)

instance Implements.decidable {n : Nat} (code : List (Instr (Val n))) (lines : List (List Char)) :
    Decidable (Implements code lines) :=
  inferInstanceAs (Decidable (lines.mapM (lineShape? n) = some (code.map Instr.toShape)))

/-! ### The pools -/

inductive Mix where
  | intHeavy | fpHeavy | mem | balanced
  deriving DecidableEq, Repr

def INST_POOL : Mix → List String
  | .intHeavy =>
    ["add x9, x10, x11", "sub x12, x13, x14", "eor x15, x16, x17", "and x18, x19, x20", "orr x21, x22, x23",
      "bic x24, x25, x26", "eor x27, x28, x9", "add x10, x11, x12", "sub x13, x14, x15", "and x16, x17, x18",
      "mul x19, x20, x21", "mul x22, x23, x24", "add x25, x26, x27", "eor x28, x9, x10", "sub x11, x12, x13",
      "orr x14, x15, x16", "mul x17, x18, x19", "add x20, x21, x22"]
  | .fpHeavy =>
    ["ldr d8, [x8, #0]", "ldr d9, [x8, #8]", "ldr d10, [x8, #16]", "fadd d8, d9, d10", "fmul d11, d8, d9",
      "fsub d12, d10, d11", "ldr d13, [x8, #24]", "fadd d13, d12, d11", "fmul d14, d13, d8", "str d14, [x8, #32]",
      "ldr d15, [x8, #40]", "fmul d15, d14, d13", "fadd d8, d15, d12", "str d8, [x8, #48]"]
  | .mem =>
    ["ldr x9, [x8, #0]", "str x10, [x8, #8]", "ldr x11, [x8, #16]", "str x12, [x8, #24]", "ldr x13, [x8, #32]",
      "str x14, [x8, #40]", "ldr x15, [x8, #48]", "str x16, [x8, #56]", "ldr x17, [x8, #64]", "str x18, [x8, #72]",
      "ldr x19, [x8, #80]", "str x20, [x8, #88]"]
  | .balanced => []

/-- The pool that a line is drawn from; `u` decides for the balanced mix. -/
def poolOf (mix : Mix) (u : ℚ) : List String :=
  match mix with
  | .balanced => INST_POOL (if u < 3 / 5 then .intHeavy else if u < 17 / 20 then .fpHeavy else .mem)
  | mix => INST_POOL mix

def gen_random_sequence (mix : Mix) (draws : List (ℚ × Nat)) : List (List Char) :=
  draws.map fun d => ((poolOf mix d.1).getD (d.2 % (poolOf mix d.1).length) "").toList

/-! ### Accepted sequences -/

def smallRegion : CheckerParams :=
  { mem_bytes := 64, seeds := ⟨0x9510D3BF1AA8D548, 0xA5C11881A68E546E⟩, mem := 0x1000, mem2 := 0x1040 }

section

variable {n : Nat}

end

/-- The register is one of those that are loaded from the array. -/
def isLoaded : Asm.Reg → Bool
  | .x k => 9 ≤ k.val ∧ k.val ≤ 28
  | _ => false

/-- An instruction on the registers x9 to x28, or a load or store of a word in the first `limit` bytes of the region. -/
def isPlain (limit : Nat) (i : Asm.Inst) : Bool :=
  isLoaded i.rt &&
    match Asm.kind i.mnemonic, i.operands with
    | .arithmetic, operands => operands.all fun o => match o with
      | .reg r => isLoaded r
      | _ => false
    | .load, [.mem ⟨base, .imm k, false⟩] | .store, [.mem ⟨base, .imm k, false⟩] =>
      isBase base && decide (0 ≤ k ∧ k.toNat + 8 ≤ limit)
    | _, _ => false

private theorem pool_plain :
    (INST_POOL .intHeavy ++ INST_POOL .mem).all fun line => (Asm.read line.toList).any (isPlain 96) := by
  decide +kernel

section Plain

variable {n : Nat}

theorem regLocs?_of_isLoaded {r : Asm.Reg} (h : isLoaded r) : ∃ i : Fin NREGS, regLocs? n r = some [.x i.succ] := by
  cases r with
  | x k =>
    have hk : 9 ≤ k.val ∧ k.val ≤ 28 := of_decide_eq_true h
    have hlt : k.val - 9 < NREGS := show k.val - 9 < 20 by omega
    have hsucc : (⟨k.val - 8, by omega⟩ : Fin 21) = Fin.succ ⟨k.val - 9, hlt⟩ := Fin.ext (by simp; omega)
    have hloc : loc? n (.x k) = some (.x (Fin.succ ⟨k.val - 9, hlt⟩)) := by
      rw [loc?, dif_pos (by omega), hsucc]
    refine ⟨⟨k.val - 9, hlt⟩, ?_⟩
    simp only [regLocs?, Asm.Reg.loc, Option.toList_some, List.mapM_cons, hloc]
    rfl
  | _ => cases h

theorem dest?_of_isLoaded {r : Asm.Reg} (h : isLoaded r) : ∃ i : Fin NREGS, dest? n r = some [.x i.succ] := by
  obtain ⟨i, hi⟩ := regLocs?_of_isLoaded (n := n) h
  exact ⟨i, by simp [dest?, hi, (Fin.succ_ne_zero i).symm]⟩

theorem size?_of_isLoaded {r : Asm.Reg} (h : isLoaded r) : size? r = some 8 := by
  cases r with
  | x k => rfl
  | _ => cases h

theorem bytesAt_subset_loaded (k size : Nat) : bytesAt n k size ⊆ loaded n := by
  intro l hl
  obtain ⟨i, -, rfl⟩ := List.mem_map.1 hl
  exact byte_mem_loaded i

private theorem singleton_subset_loaded (i : Fin NREGS) : [Loc.x i.succ] ⊆ loaded n :=
  List.cons_subset.2 ⟨reg_mem_loaded i, List.nil_subset _⟩

private theorem access?_of_isBase {limit : Nat} {base : Asm.Reg} {k : Int}
    (h : (isBase base && decide (0 ≤ k ∧ k.toNat + 8 ≤ limit)) = true) (hn : limit ≤ n) :
    access? n 8 [.mem ⟨base, .imm k, false⟩] = some ⟨[], bytesAt n k.toNat 8, true⟩ := by
  rw [Bool.and_eq_true, decide_eq_true_eq] at h
  simp only [access?, h.1]
  exact if_pos ⟨h.2.1, h.2.2.trans hn⟩

theorem shape?_of_isPlain {limit : Nat} {i : Asm.Inst} (h : isPlain limit i) (hn : limit ≤ n) :
    ∃ f, shape? n i = some f ∧ f.reads ⊆ loaded n := by
  unfold isPlain at h
  rw [Bool.and_eq_true] at h
  obtain ⟨hrt, h⟩ := h
  obtain ⟨d, hdest⟩ := dest?_of_isLoaded (n := n) hrt
  obtain ⟨r, hreg⟩ := regLocs?_of_isLoaded (n := n) hrt
  unfold shape?
  split at h
  · rename_i hkind
    have hoperands : ∀ o ∈ i.operands, ∃ ls, operandLocs? n o = some ls ∧ ls ⊆ loaded n := by
      intro o ho
      have hloaded := List.all_eq_true.1 h o ho
      split at hloaded
      · obtain ⟨k, hk⟩ := regLocs?_of_isLoaded (n := n) hloaded
        exact ⟨_, hk, singleton_subset_loaded k⟩
      · cases hloaded
    obtain ⟨lss, hlss, hsub⟩ := exists_mapM_eq_some hoperands
    refine ⟨_, by simp only [hkind, hdest, hlss, Option.bind_eq_bind, Option.bind_some]; rfl, ?_⟩
    refine List.append_subset.2 ⟨?_, fun l hl => ?_⟩
    · split
      · exact singleton_subset_loaded d
      · exact List.nil_subset _
    · obtain ⟨ls, hls, hl⟩ := List.mem_flatten.1 hl
      exact hsub ls hls hl
  · rename_i base k hkind hops
    refine ⟨⟨bytesAt n k.toNat 8, [.x d.succ]⟩, ?_, bytesAt_subset_loaded _ _⟩
    simp only [hkind, hdest, size?_of_isLoaded hrt, hops, Option.bind_eq_bind, Option.bind_some, loadReads?,
      access?_of_isBase h hn]
    rfl
  · rename_i base k hkind hops
    refine ⟨⟨[.x r.succ], bytesAt n k.toNat 8⟩, ?_, singleton_subset_loaded r⟩
    simp only [hkind, hreg, size?_of_isLoaded hrt, hops, Option.bind_eq_bind, Option.bind_some, access?_of_isBase h hn]
    rfl
  · cases h

end Plain

theorem random_lines_shape {mix : Mix} (hmix : mix = .intHeavy ∨ mix = .mem) {n : Nat} (hn : 96 ≤ n)
    (draws : List (ℚ × Nat)) : ∃ shapes, (gen_random_sequence mix draws).mapM (lineShape? n) = some shapes ∧
      ∀ f ∈ shapes, f.reads ⊆ loaded n := by
  refine exists_mapM_eq_some fun line hline => ?_
  obtain ⟨d, -, rfl⟩ := List.mem_map.1 hline
  have hpool : poolOf mix d.1 = INST_POOL mix ∧ INST_POOL mix ⊆ INST_POOL .intHeavy ++ INST_POOL .mem ∧
      0 < (INST_POOL mix).length := by
    rcases hmix with rfl | rfl
    · exact ⟨rfl, List.subset_append_left _ _, by decide⟩
    · exact ⟨rfl, List.subset_append_right _ _, by decide⟩
  obtain ⟨heq, hsub, hpos⟩ := hpool
  have hmem : (poolOf mix d.1).getD (d.2 % (poolOf mix d.1).length) "" ∈ INST_POOL .intHeavy ++ INST_POOL .mem := by
    rw [heq, List.getD_eq_getElem?_getD, List.getElem?_eq_getElem (Nat.mod_lt _ hpos)]
    exact hsub (List.getElem_mem _)
  obtain ⟨i, hread, hplain⟩ := (Option.any_eq_true ..).1 (List.all_eq_true.1 pool_plain _ hmem)
  obtain ⟨f, hf, hreads⟩ := shape?_of_isPlain hplain hn
  exact ⟨f, by rw [lineShape?, hread, Option.bind_some, hf], hreads⟩

/-- A random sequence of integer or of memory instructions is never reported, if the region has the 96 bytes that the
memory instructions use. -/
theorem random_checker_ok {mix : Mix} (hmix : mix = .intHeavy ∨ mix = .mem) (draws : List (ℚ × Nat))
    {p : CheckerParams} (hmem : 96 ≤ p.mem_bytes) :
    ∃ shapes, (gen_random_sequence mix draws).mapM (lineShape? p.size) = some shapes ∧
      ∀ code : List (Instr (Val p.size)), code.map Instr.toShape = shapes → ∀ iters v,
        checkerMain p code iters v = "CHECKER=OK\n" := by
  have hsize : 96 ≤ p.size := show 96 ≤ 8 * (p.mem_bytes / 8) by omega
  obtain ⟨shapes, hshapes, hreads⟩ := random_lines_shape hmix hsize draws
  refine ⟨shapes, hshapes, fun code hcode => checkerMain_ok (fun l hl => ?_) hcode⟩
  exact subset_flow (fun f hf r hr => List.mem_append_left _ (hreads f hf hr)) (List.mem_append_left _ hl)

theorem random_checker_ok_mem :
    ∃ shapes, (gen_random_sequence .mem [(0, 0), (0, 11)]).mapM (lineShape? 96) = some shapes ∧
      ∀ code : List (Instr (Val 96)), code.map Instr.toShape = shapes → ∀ iters v,
        checkerMain { smallRegion with mem_bytes := 96 } code iters v = "CHECKER=OK\n" :=
  random_checker_ok (p := { smallRegion with mem_bytes := 96 }) (.inr rfl) [(0, 0), (0, 11)] (by decide)

end GemFI.Tools.HarpWrap
