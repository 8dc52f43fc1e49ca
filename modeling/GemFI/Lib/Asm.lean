import GemFI.Lib.Bytes
import GemFI.Lib.Text
import Mathlib.Logic.Function.Basic

/-!
# Lines of AArch64 assembler

A line is a mnemonic, a register and further operands (`read`); names of registers may be written in either case.  For
the arithmetic instructions, loads and stores, `Inst.Writes` says which registers the instruction writes and whether
it writes the memory; `exec?` gives the effect of those that move words between 64-bit registers and the memory or add
to them, and does not change more than that (`exec?_frame`).
-/

namespace GemFI.Asm

open Text

/-! ### Registers -/

inductive View where
  | b | h | s | d | q
  deriving DecidableEq, Repr

inductive Arrangement where
  | b8 | b16 | h4 | h8 | s2 | s4 | d1 | d2
  deriving DecidableEq, Repr

inductive Reg where
  | x (n : Fin 31)
  | w (n : Fin 31)
  | sp
  | wsp
  | xzr
  | wzr
  | scalar (view : View) (n : Fin 32)
  | vector (n : Fin 32) (arr : Arrangement)
  | lane (n : Fin 32) (view : View) (k : Nat)
  deriving DecidableEq, Repr

/-- What an instruction may change: the 64-bit registers, the stack pointer, the vector registers and the memory. -/
inductive Loc where
  | x (n : Fin 31)
  | sp
  | v (n : Fin 32)
  | mem
  deriving DecidableEq, Repr

def Reg.loc : Reg → Option Loc
  | .x n | .w n => some (.x n)
  | .sp | .wsp => some .sp
  | .xzr | .wzr => none
  | .scalar _ n | .vector n _ | .lane n _ _ => some (.v n)

def View.letter : View → Char
  | .b => 'b'
  | .h => 'h'
  | .s => 's'
  | .d => 'd'
  | .q => 'q'

def Arrangement.suffix : Arrangement → List Char
  | .b8 => ['8', 'b']
  | .b16 => ['1', '6', 'b']
  | .h4 => ['4', 'h']
  | .h8 => ['8', 'h']
  | .s2 => ['2', 's']
  | .s4 => ['4', 's']
  | .d1 => ['1', 'd']
  | .d2 => ['2', 'd']

def digits (n : Nat) : List Char := Nat.toDigits 10 n

/-- A number in base 10, with a sign or without, or in base 16. -/
def number? (t : List Char) : Option Int :=
  match t with
  | '0' :: 'x' :: ds => if ds ≠ [] ∧ ds.all isHexDigit then some (ofHex ds) else none
  | t => int? t

def xName (n : Nat) : List Char := 'x' :: digits n

def index? (n : Nat) (t : List Char) : Option (Fin n) :=
  (nat? t).bind fun k => if h : k < n ∧ digits k = t then some ⟨k, h.1⟩ else none

def arrangements : List Arrangement := [.b8, .b16, .h4, .h8, .s2, .s4, .d1, .d2]

scoped instance neZeroRegisters : NeZero 31 := ⟨by decide⟩

/-- Names without a number, and other names of numbered registers. -/
def aliases : List (List Char × Reg) :=
  [(['s', 'p'], .sp), (['w', 's', 'p'], .wsp), (['x', 'z', 'r'], .xzr), (['w', 'z', 'r'], .wzr), (['l', 'r'], .x 30),
    (['f', 'p'], .x 29), (['i', 'p', '0'], .x 16), (['i', 'p', '1'], .x 17)]

def view? (c : Char) : Option View := [View.b, .h, .s, .d, .q].find? fun view => view.letter = c

/-- What stands behind the number of a vector register: its lanes, or one of them. -/
def suffix? (n : Fin 32) : List Char → Option Reg
  | '.' :: t =>
    ((arrangements.find? fun arr => arr.suffix = t).map (Reg.vector n)).or <|
      match t with
      | c :: '[' :: k =>
        if k.getLast? = some ']' then do return .lane n (← view? c) (← number? k.dropLast).toNat else none
      | _ => none
  | _ => none

def numbered? : List Char → Option Reg
  | [] => none
  | c :: t =>
    if c = 'x' then (index? 31 t).map .x
    else if c = 'w' then (index? 31 t).map .w
    else if c = 'v' then (index? 32 (t.takeWhile (· ≠ '.'))).bind fun n => suffix? n (t.dropWhile (· ≠ '.'))
    else (view? c).bind fun view => (index? 32 t).map (.scalar view)

def reg? (t : List Char) : Option Reg :=
  let t := t.map Char.toLower
  ((aliases.find? fun e => e.1 = t).map (·.2)).or (numbered? t)

/-! ### Operands -/

inductive Offset where
  | imm (i : Int)
  | reg (r : Reg)
  deriving DecidableEq, Repr

/-- An operand in brackets; `pre` is for the mark `!` behind them. -/
structure Mem where
  base : Reg
  offset : Offset
  pre : Bool
  deriving DecidableEq, Repr

inductive Operand where
  | reg (r : Reg)
  | imm (i : Int)
  | mem (m : Mem)
  | other (t : List Char)
  deriving DecidableEq, Repr

/-- A number; the mark `#` may be left out. -/
def imm? : List Char → Option Int
  | '#' :: t => number? t
  | t => number? t

/-- What stands in the brackets: the base, and an offset, which may be shifted or extended. -/
def inside? (pre : Bool) (t : List Char) : Option Mem :=
  match (t.splitOn ',').map strip with
  | [] => none
  | [base] => (reg? base).map (⟨·, .imm 0, pre⟩)
  | base :: offset :: _ => do
    let base ← reg? base
    let offset ← ((imm? offset).map Offset.imm).or ((reg? offset).map .reg)
    return ⟨base, offset, pre⟩

def isPlain (c : Char) : Bool := isWord c || [' ', '#', '=', '+', '-', '.'].contains c

def operand? (t : List Char) : Option Operand :=
  match t with
  | '[' :: t =>
    let rest := t.dropWhile (· ≠ ']')
    if rest = [']'] ∨ rest = [']', '!'] then (inside? (rest = [']', '!']) (t.takeWhile (· ≠ ']'))).map .mem else none
  | t =>
    ((imm? t).map Operand.imm).or <| ((reg? t).map Operand.reg).or <|
      if t ≠ [] ∧ t.all isPlain then some (.other t) else none

def splitOperands : Nat → List Char → List (List Char)
  | _, [] => [[]]
  | depth, c :: t =>
    if c = ',' ∧ depth = 0 then [] :: splitOperands depth t
    else (splitOperands (if c = '[' then depth + 1 else if c = ']' then depth - 1 else depth) t).modifyHead (c :: ·)

structure Inst where
  mnemonic : List Char
  rt : Reg
  operands : List Operand
  deriving DecidableEq, Repr

def read (line : List Char) : Option Inst :=
  match (splitOperands 0 (line.dropWhile (· ≠ ' '))).map strip with
  | [] => none
  | rt :: rest => do
    let rt ← reg? rt
    let operands ← rest.mapM operand?
    return ⟨line.takeWhile (· ≠ ' '), rt, operands⟩

variable {i : Inst} {c : Char}

theorem mnemonic_of_read {line : List Char} (h : read line = some i) : i.mnemonic = line.takeWhile (· ≠ ' ') := by
  rw [read] at h
  split at h
  · cases h
  · simp only [Option.bind_eq_bind, Option.bind_eq_some_iff] at h
    obtain ⟨rt, -, operands, -, hi⟩ := h
    cases hi
    rfl

theorem isDigit_of_mem_digits {n : Nat} (h : c ∈ digits n) : c.isDigit = true :=
  Nat.isDigit_of_mem_toDigits (by omega) (by omega) h

theorem reg?_xName : ∀ n : Fin 31, reg? (xName n) = some (.x n) := by decide +kernel

theorem imm?_digits (k : Nat) : imm? ('#' :: digits k) = some (k : Int) := by
  have hread := int?_toString k
  rw [Int.toString_eq_repr, Int.repr_eq_if, if_pos (Int.natCast_nonneg k), Int.toNat_natCast,
    Nat.repr_eq_ofList_toDigits, String.toList_ofList] at hread
  rw [imm?, number?]
  · exact hread
  · -- a number in base 10 has no `x`
    intro ds hds
    have hx : 'x' ∈ digits k := by simp [hds]
    exact absurd (isDigit_of_mem_digits hx) (by decide)

theorem splitOperands_append {depth : Nat} {t : List Char}
    (h : ∀ c ∈ t, c ≠ '[' ∧ c ≠ ']' ∧ (c = ',' → depth ≠ 0)) (rest : List Char) :
    splitOperands depth (t ++ rest) = (splitOperands depth rest).modifyHead (t ++ ·) := by
  induction t with
  | nil => exact (congrFun List.modifyHead_id _).symm
  | cons c t ih =>
    obtain ⟨hopen, hclose, hcomma⟩ := h c List.mem_cons_self
    rw [List.cons_append, splitOperands, if_neg fun hc => hcomma hc.1 hc.2, if_neg hopen, if_neg hclose,
      ih fun c hc => h c (List.mem_cons_of_mem _ hc), List.modifyHead_modifyHead]
    rfl

/-- A load or store of a 64-bit register, with a number as the offset. -/
def accessLine (mnemonic : List Char) (t : Nat) (base : List Char) (k : Nat) : List Char :=
  mnemonic ++ ' ' :: xName t ++ ',' :: ' ' :: '[' :: base ++ ',' :: ' ' :: '#' :: digits k ++ [']']

private theorem isWord_of_mem_digits {n : Nat} (h : c ∈ digits n) : isWord c = true := by
  simp [isWord, Char.isAlphanum, isDigit_of_mem_digits h]

theorem isWord_of_mem_xName {n : Nat} (h : c ∈ xName n) : isWord c = true := by
  rcases List.mem_cons.1 h with rfl | h
  · decide
  · exact isWord_of_mem_digits h

theorem ne_of_isWord {c d : Char} (hc : isWord c = true) (hd : isWord d = false) : c ≠ d := by
  rintro rfl
  rw [hc] at hd
  cases hd

private theorem mem_immediate {k : Nat} (h : c ∈ '#' :: digits k) : isWord c = true ∨ c = '#' := by
  rcases List.mem_cons.1 h with rfl | h
  · exact .inr rfl
  · exact .inl (isWord_of_mem_digits h)

private theorem strip_blank_cons {t : List Char} (hhead : ∀ c ∈ t.head?, isSpace c = false)
    (hlast : ∀ c ∈ t.getLast?, isSpace c = false) : strip (' ' :: t) = t := by
  have hstrip := strip_append (a := [' ']) (b := []) (List.forall_mem_singleton.2 (by decide)) (by simp) hhead hlast
  rwa [List.append_nil] at hstrip

private theorem strip_blank_word {t : List Char} (h : ∀ c ∈ t, isSpace c = false) : strip (' ' :: t) = t :=
  strip_blank_cons (fun c hc => h c (List.mem_of_mem_head? hc)) fun c hc => h c (List.mem_of_getLast? hc)

private theorem strip_immediate (k : Nat) : strip (' ' :: '#' :: digits k) = '#' :: digits k := by
  refine strip_blank_word fun c hc => ?_
  rcases mem_immediate hc with hword | rfl
  · exact isSpace_of_isWord hword
  · decide

private def inside (b : Fin 31) (k : Nat) : List Char := xName b ++ ',' :: ' ' :: '#' :: digits k

private theorem mem_inside {b : Fin 31} {k : Nat} (h : c ∈ inside b k) :
    isWord c = true ∨ c = ',' ∨ c = ' ' ∨ c = '#' := by
  rcases List.mem_append.1 h with h | h
  · exact .inl (isWord_of_mem_xName h)
  · rcases List.mem_cons.1 h with rfl | h
    · simp
    · rcases List.mem_cons.1 h with rfl | h
      · simp
      · rcases mem_immediate h with h | rfl
        · exact .inl h
        · simp

private theorem inside_ne {b : Fin 31} {k : Nat} (h : c ∈ inside b k) : c ≠ '[' ∧ c ≠ ']' := by
  rcases mem_inside h with h | rfl | rfl | rfl
  · exact ⟨ne_of_isWord h (by decide), ne_of_isWord h (by decide)⟩
  all_goals decide

private theorem inside?_inside (b : Fin 31) (k : Nat) : inside? false (inside b k) = some ⟨.x b, .imm k, false⟩ := by
  have hbase : ∀ c ∈ xName b, (c == ',') = false := fun c hc =>
    beq_eq_false_iff_ne.2 (ne_of_isWord (isWord_of_mem_xName hc) (by decide))
  have hoffset : ∀ c ∈ ' ' :: '#' :: digits k, (c == ',') = false := by
    intro c hc
    rw [beq_eq_false_iff_ne]
    rcases List.mem_cons.1 hc with rfl | hc
    · decide
    · rcases mem_immediate hc with hword | rfl
      · exact ne_of_isWord hword (by decide)
      · decide
  have hsplit : (inside b k).splitOn ',' = [xName b, ' ' :: '#' :: digits k] := by
    rw [List.splitOn, inside, List.splitOnP_append_cons_of_forall_mem hbase _ (by decide),
      List.splitOnP_eq_singleton hoffset]
  have hname : strip (xName b) = xName b := strip_eq_self fun c hc => isSpace_of_isWord (isWord_of_mem_xName hc)
  simp [inside?, hsplit, hname, strip_immediate, reg?_xName, imm?_digits]

private theorem operand?_inside (b : Fin 31) (k : Nat) :
    operand? ('[' :: (inside b k ++ [']'])) = some (.mem ⟨.x b, .imm k, false⟩) := by
  have hin : ∀ c ∈ inside b k, decide (c ≠ ']') = true := fun c hc => decide_eq_true (inside_ne hc).2
  have htake : (inside b k ++ [']']).takeWhile (· ≠ ']') = inside b k := by
    rw [List.takeWhile_append_of_pos hin]
    simp
  have hdrop : (inside b k ++ [']']).dropWhile (· ≠ ']') = [']'] := by
    rw [List.dropWhile_append_of_pos hin]
    simp
  have hmark : decide ([']'] = [']', '!']) = false := by decide
  rw [operand?, htake, hdrop, if_pos (.inl rfl), hmark, inside?_inside, Option.map_some]

private theorem splitOperands_access (t b : Fin 31) (k : Nat) :
    splitOperands 0 (' ' :: xName t ++ ',' :: ' ' :: '[' :: (inside b k ++ [']'])) =
      [' ' :: xName t, ' ' :: '[' :: (inside b k ++ [']'])] := by
  have hfirst : ∀ c ∈ ' ' :: xName t, c ≠ '[' ∧ c ≠ ']' ∧ (c = ',' → 0 ≠ 0) := by
    intro c hc
    rcases List.mem_cons.1 hc with rfl | hc
    · decide
    · have hword := isWord_of_mem_xName hc
      exact ⟨ne_of_isWord hword (by decide), ne_of_isWord hword (by decide),
        fun h => absurd h (ne_of_isWord hword (by decide))⟩
  have hin : ∀ c ∈ inside b k, c ≠ '[' ∧ c ≠ ']' ∧ (c = ',' → 1 ≠ 0) := fun c hc =>
    ⟨(inside_ne hc).1, (inside_ne hc).2, fun _ => by decide⟩
  have hclose : splitOperands 1 [']'] = [[']']] := by decide
  rw [splitOperands_append hfirst, splitOperands, if_pos ⟨rfl, rfl⟩, splitOperands, if_neg (by decide),
    if_neg (by decide), if_neg (by decide), splitOperands, if_neg (by decide), if_pos rfl, splitOperands_append hin, hclose]
  simp

theorem read_accessLine {mnemonic : List Char} (hm : ' ' ∉ mnemonic) (t b : Fin 31) (k : Nat) :
    read (accessLine mnemonic t (xName b) k) = some ⟨mnemonic, .x t, [.mem ⟨.x b, .imm k, false⟩]⟩ := by
  have hline : accessLine mnemonic t (xName b) k =
      mnemonic ++ (' ' :: xName t ++ ',' :: ' ' :: '[' :: (inside b k ++ [']'])) := by
    simp [accessLine, inside]
  have hne : ∀ c ∈ mnemonic, decide (c ≠ ' ') = true := by
    intro c hc
    rw [decide_eq_true_iff]
    rintro rfl
    exact hm hc
  have htake : (accessLine mnemonic t (xName b) k).takeWhile (· ≠ ' ') = mnemonic := by
    rw [hline, List.takeWhile_append_of_pos hne]
    simp
  have hdrop : (accessLine mnemonic t (xName b) k).dropWhile (· ≠ ' ') =
      ' ' :: xName t ++ ',' :: ' ' :: '[' :: (inside b k ++ [']']) := by
    rw [hline, List.dropWhile_append_of_pos hne]
    simp
  have hfirst : strip (' ' :: xName t) = xName t :=
    strip_blank_word fun c hc => isSpace_of_isWord (isWord_of_mem_xName hc)
  have hsecond : strip (' ' :: '[' :: (inside b k ++ [']'])) = '[' :: (inside b k ++ [']']) := by
    refine strip_blank_cons (by simp; decide) ?_
    rw [← List.cons_append, List.getLast?_concat]
    simp
    decide
  rw [read, htake, hdrop, splitOperands_access]
  simp [hfirst, hsecond, reg?_xName, operand?_inside]

/-! ### What an instruction writes -/

/-- The instructions that write their first register and nothing else. -/
def arithmetic : List String :=
  ["add", "sub", "eor", "and", "orr", "bic", "mul", "neg", "madd", "mneg", "mov", "movk", "movz", "fadd", "fsub", "fmul",
    "fneg", "fabs", "fmadd"]

/-- The base registers that are written back: those with the mark `!`, and those with an offset behind the brackets. -/
def writeBacks : List Operand → List Loc
  | [] => []
  | .mem m :: rest => (if m.pre ∨ rest ≠ [] then m.base.loc.toList else []) ++ writeBacks rest
  | _ :: rest => writeBacks rest

inductive Kind where
  | arithmetic | load | store | other
  deriving DecidableEq, Repr

def kind (mnemonic : List Char) : Kind :=
  if mnemonic ∈ arithmetic.map String.toList then .arithmetic
  else if mnemonic = "ldr".toList then .load
  else if mnemonic = "str".toList then .store
  else .other

def Inst.Writes (i : Inst) (l : Loc) : Prop :=
  match kind i.mnemonic with
  | .arithmetic => l ∈ i.rt.loc
  | .load => l ∈ i.rt.loc ∨ l ∈ writeBacks i.operands
  | .store => l = .mem ∨ l ∈ writeBacks i.operands
  | .other => True

def Operand.base? : Operand → Option Reg
  | .mem m => some m.base
  | _ => none

/-- The bases of the memory operands; a load or store without brackets is relative to the program counter. -/
def Inst.bases (i : Inst) : List (Option Reg) :=
  let bases := (i.operands.filterMap Operand.base?).map some
  if bases = [] ∧ (kind i.mnemonic = .load ∨ kind i.mnemonic = .store) then [none] else bases

theorem Reg.loc_ne_mem (r : Reg) : r.loc ≠ some .mem := by
  cases r <;> simp [Reg.loc]

theorem Inst.forall_writes_iff {P : Loc → Prop} (hkind : kind i.mnemonic ≠ .other) (hmem : P .mem) :
    (∀ l, i.Writes l → P l) ↔ (kind i.mnemonic ≠ .store → ∀ l ∈ i.rt.loc, P l) ∧
      (kind i.mnemonic ≠ .arithmetic → ∀ l ∈ writeBacks i.operands, P l) := by
  unfold Inst.Writes
  cases hk : kind i.mnemonic with
  | arithmetic => simp
  | load => simp [or_imp, forall_and]
  | store => simp [or_imp, forall_and, hmem]
  | other => exact absurd hk hkind

theorem mem_bases {m : Mem} (h : Operand.mem m ∈ i.operands) : some m.base ∈ i.bases := by
  have hmem : some m.base ∈ (i.operands.filterMap Operand.base?).map some :=
    List.mem_map.2 ⟨m.base, List.mem_filterMap.2 ⟨_, h, rfl⟩, rfl⟩
  rw [Inst.bases, if_neg fun hnil => List.ne_nil_of_mem hmem hnil.1]
  exact hmem

theorem mem_writeBacks {operands : List Operand} {l : Loc} (h : l ∈ writeBacks operands) :
    ∃ m, Operand.mem m ∈ operands ∧ l ∈ m.base.loc := by
  induction operands with
  | nil => cases h
  | cons o rest ih =>
    have hrest : l ∈ writeBacks rest → ∃ m, Operand.mem m ∈ o :: rest ∧ l ∈ m.base.loc := fun h =>
      (ih h).imp fun m hm => ⟨List.mem_cons_of_mem _ hm.1, hm.2⟩
    cases o with
    | mem m =>
      rw [writeBacks, List.mem_append] at h
      rcases h with h | h
      · split at h
        · exact ⟨m, List.mem_cons_self, by simpa using h⟩
        · cases h
      · exact hrest h
    | reg r => exact hrest h
    | imm k => exact hrest h
    | other t => exact hrest h

theorem kind_add : kind "add".toList = .arithmetic := by decide +kernel

theorem kind_sub : kind "sub".toList = .arithmetic := by decide +kernel

theorem kind_ldr : kind "ldr".toList = .load := by decide +kernel

theorem kind_str : kind "str".toList = .store := by decide +kernel

theorem Inst.writes_rt {l : Loc} (hl : l ∈ i.rt.loc)
    (h : kind i.mnemonic = .arithmetic ∨ kind i.mnemonic = .load) : i.Writes l := by
  rcases h with h | h <;> rw [Inst.Writes, h]
  · exact hl
  · exact .inl hl

/-! ### What an instruction does -/

structure State where
  x : Fin 31 → BitVec 64
  sp : BitVec 64
  v : Fin 32 → BitVec 128
  mem : BitVec 64 → BitVec 8

def State.setX (s : State) (n : Fin 31) (w : BitVec 64) : State := { s with x := Function.update s.x n w }

def State.load (s : State) (a : BitVec 64) : BitVec 64 := Bytes.littleEndian 64 (fun b => s.mem (a + BitVec.ofNat 64 b)) 8

def State.store (s : State) (a w : BitVec 64) : State :=
  { s with mem := fun k => if (k - a).toNat < 8 then Bytes.byteOf w (k - a).toNat else s.mem k }

/-- The address of an access, if the base is a 64-bit register, the offset is a number and nothing is written back. -/
def Inst.address? (i : Inst) (s : State) : Option (BitVec 64) :=
  match i.operands with
  | [.mem ⟨.x n, .imm k, false⟩] => some (s.x n + BitVec.ofInt 64 k)
  | _ => none

/-- The effect of an instruction that adds a number to a 64-bit register, loads one or stores one. -/
def exec? (i : Inst) (s : State) : Option State :=
  match i.rt, i.operands with
  | .x d, [.reg (.x n), .imm k] =>
    if i.mnemonic = "add".toList then some (s.setX d (s.x n + BitVec.ofInt 64 k))
    else if i.mnemonic = "sub".toList then some (s.setX d (s.x n - BitVec.ofInt 64 k))
    else none
  | .x t, _ =>
    match kind i.mnemonic with
    | .load => (i.address? s).map fun a => s.setX t (s.load a)
    | .store => (i.address? s).map fun a => s.store a (s.x t)
    | _ => none
  | _, _ => none

theorem exec?_add (d n : Fin 31) (k : Int) (s : State) :
    exec? ⟨"add".toList, .x d, [.reg (.x n), .imm k]⟩ s = some (s.setX d (s.x n + BitVec.ofInt 64 k)) := by
  simp [exec?]

theorem exec?_sub (d n : Fin 31) (k : Int) (s : State) :
    exec? ⟨"sub".toList, .x d, [.reg (.x n), .imm k]⟩ s = some (s.setX d (s.x n - BitVec.ofInt 64 k)) := by
  simp [exec?]

theorem exec?_ldr (t n : Fin 31) (k : Int) (s : State) :
    exec? ⟨"ldr".toList, .x t, [.mem ⟨.x n, .imm k, false⟩]⟩ s =
      some (s.setX t (s.load (s.x n + BitVec.ofInt 64 k))) := by
  simp only [exec?, kind_ldr, Inst.address?, Option.map_some]

theorem exec?_str (t n : Fin 31) (k : Int) (s : State) :
    exec? ⟨"str".toList, .x t, [.mem ⟨.x n, .imm k, false⟩]⟩ s =
      some (s.store (s.x n + BitVec.ofInt 64 k) (s.x t)) := by
  simp only [exec?, kind_str, Inst.address?, Option.map_some]

@[simp] theorem State.setX_self (s : State) (n : Fin 31) (w : BitVec 64) : (s.setX n w).x n = w := by
  show Function.update s.x n w n = w
  exact Function.update_self _ _ _

theorem State.setX_of_ne {n d : Fin 31} (h : n ≠ d) (s : State) (w : BitVec 64) : (s.setX d w).x n = s.x n := by
  show Function.update s.x d w n = s.x n
  exact Function.update_of_ne h _ _

theorem exec?_frame {s s' : State} {n : Fin 31} (h : exec? i s = some s') (hn : ¬i.Writes (.x n)) :
    s'.x n = s.x n := by
  -- a destination is written, and so it is another register
  have hset : ∀ {d : Fin 31} {w : BitVec 64}, i.rt = .x d → (kind i.mnemonic = .arithmetic ∨ kind i.mnemonic = .load) →
      (s.setX d w).x n = s.x n := by
    intro d w hrt hkind
    refine State.setX_of_ne ?_ s w
    rintro rfl
    exact hn (Inst.writes_rt (by rw [hrt]; rfl) hkind)
  rw [exec?] at h
  split at h
  · rename_i d k r hrt _
    split at h
    · rename_i hadd
      cases h
      exact hset hrt (.inl (hadd ▸ kind_add))
    · split at h
      · rename_i hsub
        cases h
        exact hset hrt (.inl (hsub ▸ kind_sub))
      · cases h
  · rename_i t _ hrt _
    split at h
    · rename_i hkind
      obtain ⟨a, -, rfl⟩ := Option.map_eq_some_iff.1 h
      exact hset hrt (.inr hkind)
    · obtain ⟨a, -, rfl⟩ := Option.map_eq_some_iff.1 h
      rfl
    · cases h
  · cases h

/-- A line is executed; `other` is what the lines do that are not covered here. -/
def step (other : List Char → State → State) (line : List Char) (s : State) : State :=
  ((read line).bind fun i => exec? i s).getD (other line s)

def run (other : List Char → State → State) (lines : List (List Char)) (s : State) : State :=
  lines.foldl (fun s line => step other line s) s

/-- The lines that are not covered change no more than `Inst.Writes` says. -/
def Respects (other : List Char → State → State) : Prop :=
  ∀ line i s n, read line = some i → ¬i.Writes (.x n) → (other line s).x n = s.x n

section

variable {other : List Char → State → State}

theorem run_append (lines lines' : List (List Char)) (s : State) :
    run other (lines ++ lines') s = run other lines' (run other lines s) := List.foldl_append

theorem step_of_read {line : List Char} {i : Inst} {s s' : State} (hread : read line = some i)
    (hexec : exec? i s = some s') : step other line s = s' := by
  rw [step, hread, Option.bind_some, hexec, Option.getD_some]

theorem step_frame (hother : Respects other) {line : List Char} {i : Inst} {n : Fin 31} (hread : read line = some i)
    (hn : ¬i.Writes (.x n)) (s : State) : (step other line s).x n = s.x n := by
  cases hexec : exec? i s with
  | some s' =>
    rw [step_of_read hread hexec]
    exact exec?_frame hexec hn
  | none =>
    rw [step, hread, Option.bind_some, hexec, Option.getD_none]
    exact hother line i s n hread hn

theorem run_frame (hother : Respects other) {n : Fin 31} {lines : List (List Char)}
    (h : ∀ line ∈ lines, ∃ i, read line = some i ∧ ¬i.Writes (.x n)) (s : State) : (run other lines s).x n = s.x n := by
  induction lines generalizing s with
  | nil => rfl
  | cons line lines ih =>
    obtain ⟨i, hread, hn⟩ := h line List.mem_cons_self
    show (run other lines (step other line s)).x n = s.x n
    rw [ih fun line hline => h line (List.mem_cons_of_mem _ hline), step_frame hother hread hn]

end

def accesses (other : List Char → State → State) : List (List Char) → State → List (BitVec 64)
  | [], _ => []
  | line :: lines, s => ((read line).bind fun i => i.address? s).toList ++ accesses other lines (step other line s)

theorem accesses_append {other : List Char → State → State} (lines lines' : List (List Char)) (s : State) :
    accesses other (lines ++ lines') s = accesses other lines s ++ accesses other lines' (run other lines s) := by
  induction lines generalizing s with
  | nil => rfl
  | cons line lines ih =>
    rw [List.cons_append, accesses, accesses, ih, List.append_assoc]
    rfl

/-! ### Lines that move a base register -/

/-- From every state with `b` in the register `n` the lines access the addresses `as` and leave `b'` in `n`. -/
def Tracks (other : List Char → State → State) (n : Fin 31) (lines : List (List Char)) (b : BitVec 64)
    (as : List (BitVec 64)) (b' : BitVec 64) : Prop :=
  ∀ s : State, s.x n = b → accesses other lines s = as ∧ (run other lines s).x n = b'

section

variable {other : List Char → State → State} {n t : Fin 31} {line : List Char} {b : BitVec 64} {k : Int}

theorem Tracks.nil : Tracks other n [] b [] b := fun _ hs => ⟨rfl, hs⟩

theorem Tracks.append {lines lines' : List (List Char)} {as as' : List (BitVec 64)} {b' b'' : BitVec 64}
    (h : Tracks other n lines b as b') (h' : Tracks other n lines' b' as' b'') :
    Tracks other n (lines ++ lines') b (as ++ as') b'' := by
  intro s hs
  obtain ⟨has, hb⟩ := h s hs
  obtain ⟨has', hb'⟩ := h' _ hb
  exact ⟨by rw [accesses_append, has, has'], by rw [run_append, hb']⟩

theorem Tracks.replicate {lines : List (List Char)} {as : List (BitVec 64)} (h : Tracks other n lines b as b) (m : Nat) :
    Tracks other n (List.replicate m lines).flatten b (List.replicate m as).flatten b := by
  induction m with
  | zero => exact .nil
  | succ m ih =>
    rw [List.replicate_succ, List.replicate_succ, List.flatten_cons, List.flatten_cons]
    exact h.append ih

private theorem tracks_of_read {i : Inst} {as : List (BitVec 64)} {b' : BitVec 64} (hread : read line = some i)
    (haddress : ∀ s : State, s.x n = b → (i.address? s).toList = as)
    (hexec : ∀ s : State, s.x n = b → ∃ s', exec? i s = some s' ∧ s'.x n = b') : Tracks other n [line] b as b' := by
  intro s hs
  obtain ⟨s', hs', hb'⟩ := hexec s hs
  constructor
  · rw [accesses, accesses, List.append_nil, hread, Option.bind_some, haddress s hs]
  · show (step other line s).x n = b'
    rw [step_of_read hread hs', hb']

theorem Tracks.of_add (hread : read line = some ⟨"add".toList, .x n, [.reg (.x n), .imm k]⟩) :
    Tracks other n [line] b [] (b + BitVec.ofInt 64 k) :=
  tracks_of_read hread (fun _ _ => rfl) fun s hs => ⟨_, exec?_add n n k s, by rw [State.setX_self, hs]⟩

theorem Tracks.of_sub (hread : read line = some ⟨"sub".toList, .x n, [.reg (.x n), .imm k]⟩) :
    Tracks other n [line] b [] (b - BitVec.ofInt 64 k) :=
  tracks_of_read hread (fun _ _ => rfl) fun s hs => ⟨_, exec?_sub n n k s, by rw [State.setX_self, hs]⟩

theorem Tracks.of_ldr (hread : read line = some ⟨"ldr".toList, .x t, [.mem ⟨.x n, .imm k, false⟩]⟩) (ht : n ≠ t) :
    Tracks other n [line] b [b + BitVec.ofInt 64 k] b :=
  tracks_of_read hread (fun _ hs => by subst hs; rfl) fun s hs =>
    ⟨_, exec?_ldr t n k s, by rw [State.setX_of_ne ht, hs]⟩

theorem Tracks.of_str (hread : read line = some ⟨"str".toList, .x t, [.mem ⟨.x n, .imm k, false⟩]⟩) :
    Tracks other n [line] b [b + BitVec.ofInt 64 k] b :=
  tracks_of_read hread (fun _ hs => by subst hs; rfl) fun s hs => ⟨_, exec?_str t n k s, hs⟩

end

example : read "ldr x9, [x10, #0x80]".toList = some ⟨"ldr".toList, .x 9, [.mem ⟨.x 10, .imm 128, false⟩]⟩ ∧
    read "str D8, [x8, x9, lsl #3]".toList = some ⟨"str".toList, .scalar .d 8, [.mem ⟨.x 8, .reg (.x 9), false⟩]⟩ ∧
    read "add v8.2d, v9.2d, v10.2d".toList =
      some ⟨"add".toList, .vector 8 .d2, [.reg (.vector 9 .d2), .reg (.vector 10 .d2)]⟩ := by
  decide +kernel

end GemFI.Asm
