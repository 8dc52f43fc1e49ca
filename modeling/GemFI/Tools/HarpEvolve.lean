import GemFI.Lib.Asm
import Mathlib.Data.Finset.Card

/-!
# Steps that follow the advice

A step of `harp_evolve.py` rewrites a sequence for a target.  For the functional units it replaces a line by an
instruction of the unit, for the register file it gives a line other registers.  For the second-level cache it puts a
window before the sequence, which accesses two pages behind the base x8 and sets x8 back.  The window of the next step
begins at the same base, so the windows access these two pages however many there are, and the number of pages keeps
up with the number of steps for two steps only (`l2c_pages_iff`).
-/

namespace GemFI.Tools.HarpEvolve

open Text Asm

/-! ### The step -/

inductive Target where
  | fuIntAdd | fuIntMul | fuFpAdd | fuFpMul | irf | l2c
  deriving DecidableEq, Repr

def Target.repl : Target → Option String
  | .fuIntAdd => some "add x9, x10, x11"
  | .fuIntMul => some "mul x19, x20, x21"
  | .fuFpAdd => some "fadd d8, d9, d10"
  | .fuFpMul => some "fmul d11, d12, d13"
  | .irf => none
  | .l2c => none

def window : List (List Char) :=
  ["add x8, x8, 4096".toList, "str x9, [x8]".toList, "ldr x10, [x8]".toList, "add x8, x8, 4096".toList,
    "str x11, [x8]".toList, "ldr x12, [x8]".toList, "sub x8, x8, 8192".toList]

def digitsBehind (sep t : List Char) : Option (List Char × List Char) :=
  if sep.isPrefixOf t then
    let t := t.drop sep.length
    let ds := t.takeWhile Char.isDigit
    if ds = [] then none else some (ds, t.dropWhile Char.isDigit)
  else none

structure ThreeRegs where
  op : List Char
  d : List Char
  n : List Char
  m : List Char

/-- The match of `(\w+) x(\d+), x(\d+), x(\d+)` at the beginning of a line. -/
def threeRegs? (line : List Char) : Option ThreeRegs := do
  let op := line.takeWhile isWord
  let (d, t) ← digitsBehind [' ', 'x'] (line.dropWhile isWord)
  let (n, t) ← digitsBehind [',', ' ', 'x'] t
  let (m, _) ← digitsBehind [',', ' ', 'x'] t
  if op = [] then none else some ⟨op, d, n, m⟩

def ofDigits (ds : List Char) : Nat := Nat.ofDigitChars 10 ds 0

def coldest (hist : List Nat) : List Nat → Option Nat
  | [] => none
  | r :: rs =>
    match coldest hist rs with
    | none => some r
    | some r' => some (if hist.count r' < hist.count r then r' else r)

def chainOps : List String := ["add", "sub", "eor", "and", "orr", "mul", "bic"]

/-- What a line becomes, if it is one to rewrite: a line that depends on its own destination gets other sources, and a
destination that is written more than once gets a cold register. -/
def rewriteLine (hist cold : List Nat) (line : List Char) : Option (List Char) :=
  (threeRegs? line).bind fun r =>
    if chainOps.any fun op => op.toList = r.op then
      let d := ofDigits r.d
      if r.d = r.n ∧ r.n = r.m then
        some (['a', 'd', 'd', ' '] ++ xName d ++ [',', ' '] ++ xName ((d + 1) % 20 + 9) ++ [',', ' '] ++
          xName ((d + 2) % 20 + 9))
      else
        match cold with
        | [] => none
        | c :: _ =>
          if 1 < hist.count d ∧ c ≠ d then
            some (r.op ++ ' ' :: xName c ++ [',', ' ', 'x'] ++ r.n ++ [',', ' ', 'x'] ++ r.m)
          else none
    else none

def rewriteFirst (f : List Char → Option (List Char)) : List (List Char) → List (List Char)
  | [] => []
  | line :: lines =>
    match f line with
    | some line' => line' :: lines
    | none => line :: rewriteFirst f lines

/-- One step for a target.  `setOrder` is the order in which the members of a set are visited, and `draw` decides the
choice of a line. -/
def advice_step (setOrder : List Nat → List Nat) (target : Target) (draw : Nat) (lines : List (List Char)) :
    List (List Char) :=
  match target, target.repl with
  | .l2c, _ => if 400 < lines.length then lines else window ++ lines
  | _, none =>
    let hist := (lines.filterMap threeRegs?).map fun r => ofDigits r.d
    let unused := (List.range' 9 20).filter fun r => r ∉ hist
    let cold := if unused = [] then (coldest hist (setOrder hist)).toList else unused
    rewriteFirst (rewriteLine hist cold) lines
  | _, some repl =>
    let op := repl.toList.takeWhile (· ≠ ' ')
    let idxs := (lines.zipIdx.filter fun l => ¬op.isPrefixOf l.1).map (·.2)
    if idxs = [] then lines else lines.set (idxs.getD (draw % idxs.length) 0) repl.toList

def evolve (setOrder : List Nat → List Nat) (target : Target) (draws : List Nat) (lines : List (List Char)) :
    List (List Char) :=
  draws.foldl (fun lines draw => advice_step setOrder target draw lines) lines

/-! ### The windows -/

def pages (base : BitVec 64) (as : List (BitVec 64)) : Finset Nat := (as.map fun a => (a - base).toNat / 4096).toFinset

section

variable {setOrder : List Nat → List Nat}

theorem evolve_l2c {draws : List Nat} {lines : List (List Char)}
    (hguard : ∀ k < draws.length, (evolve setOrder .l2c (draws.take k) lines).length ≤ 400) :
    evolve setOrder .l2c draws lines = (List.replicate draws.length window).flatten ++ lines := by
  induction draws generalizing lines with
  | nil => rfl
  | cons draw draws ih =>
    have hlen : lines.length ≤ 400 := hguard 0 (Nat.succ_pos _)
    have hstep : advice_step setOrder .l2c draw lines = window ++ lines := if_neg (by omega)
    have htail := @ih (window ++ lines) fun k hk => by
      have hnext := hguard (k + 1) (Nat.succ_lt_succ hk)
      rwa [List.take_succ_cons, evolve, List.foldl_cons, hstep] at hnext
    rw [evolve, List.foldl_cons, hstep, ← evolve, htail, List.length_cons, List.replicate_succ', List.flatten_append,
      List.flatten_singleton, List.append_assoc]

theorem window_tracks (other : List Char → State → State) (b : BitVec 64) :
    Asm.Tracks other 8 window b [b + 4096#64, b + 4096#64, b + 8192#64, b + 8192#64] b := by
  have hadd : ∀ c, Asm.Tracks other 8 ["add x8, x8, 4096".toList] c [] (c + 4096#64) := fun c =>
    .of_add (k := 4096) (by decide +kernel)
  have hsub : ∀ c, Asm.Tracks other 8 ["sub x8, x8, 8192".toList] c [] (c - 8192#64) := fun c =>
    .of_sub (k := 8192) (by decide +kernel)
  -- a store and a load at the base
  have hfirst : ∀ c, Asm.Tracks other 8 ["str x9, [x8]".toList, "ldr x10, [x8]".toList] c [c + 0#64, c + 0#64] c :=
    fun c => .append (.of_str (t := 9) (k := 0) (by decide +kernel))
      (.of_ldr (t := 10) (k := 0) (by decide +kernel) (by decide))
  have hsecond : ∀ c, Asm.Tracks other 8 ["str x11, [x8]".toList, "ldr x12, [x8]".toList] c [c + 0#64, c + 0#64] c :=
    fun c => .append (.of_str (t := 11) (k := 0) (by decide +kernel))
      (.of_ldr (t := 12) (k := 0) (by decide +kernel) (by decide))
  have hall := ((((hadd b).append (hfirst _)).append (hadd _)).append (hsecond _)).append (hsub _)
  have htwice : b + 4096#64 + 4096#64 = b + 8192#64 := by bv_omega
  rw [htwice, BitVec.add_sub_cancel, BitVec.add_zero, BitVec.add_zero] at hall
  exact hall

private theorem pages_windows (b : BitVec 64) (n : Nat) :
    pages b (List.replicate n [b + 4096#64, b + 4096#64, b + 8192#64, b + 8192#64]).flatten =
      if n = 0 then ∅ else {1, 2} := by
  have hfirst : (b + 4096#64 - b).toNat / 4096 = 1 := by
    rw [show b + 4096#64 - b = 4096#64 by bv_omega]
    rfl
  have hsecond : (b + 8192#64 - b).toNat / 4096 = 2 := by
    rw [show b + 8192#64 - b = 8192#64 by bv_omega]
    rfl
  ext p
  rw [pages, List.mem_toFinset, List.mem_map]
  by_cases hn : n = 0
  · simp [hn]
  · rw [if_neg hn]
    simp only [List.mem_flatten, List.mem_replicate, Finset.mem_insert, Finset.mem_singleton]
    constructor
    · rintro ⟨a, ⟨as, ⟨-, rfl⟩, ha⟩, rfl⟩
      simp only [List.mem_cons, List.not_mem_nil, or_false, or_self_left] at ha
      rcases ha with rfl | rfl | rfl
      · exact .inl hfirst
      · exact .inr hsecond
      · exact .inr hsecond
    · rintro (rfl | rfl)
      · exact ⟨b + 4096#64, ⟨_, ⟨hn, rfl⟩, by simp⟩, hfirst⟩
      · exact ⟨b + 8192#64, ⟨_, ⟨hn, rfl⟩, by simp⟩, hsecond⟩

/-- The steps put windows before the sequence that set x8 back, and the windows access at least as many pages behind x8 as
there are steps if and only if there are at most two steps. -/
theorem l2c_pages_iff (setOrder : List Nat → List Nat) (lines : List (List Char)) (draws : List Nat)
    (hguard : ∀ k < draws.length, (evolve setOrder .l2c (draws.take k) lines).length ≤ 400)
    (other : List Char → State → State) (s : State) :
    ∃ inserted, evolve setOrder .l2c draws lines = inserted ++ lines ∧ (run other inserted s).x 8 = s.x 8 ∧
      (draws.length ≤ (pages (s.x 8) (accesses other inserted s)).card ↔ draws.length ≤ 2) := by
  obtain ⟨has, hback⟩ := (window_tracks other (s.x 8)).replicate draws.length s rfl
  refine ⟨_, evolve_l2c hguard, hback, ?_⟩
  rw [has, pages_windows]
  by_cases hn : draws.length = 0
  · simp [hn]
  · rw [if_neg hn]
    rfl

end

def atBase (b : BitVec 64) : State := ⟨fun n => if n = 8 then b else 0, 0, fun _ => 0, fun _ => 0⟩

/-- Three steps, and two pages. -/
theorem three_windows_two_pages :
    evolve id .l2c [0, 0, 0] ["add x9, x10, x11".toList] = window ++ window ++ window ++ ["add x9, x10, x11".toList] ∧
    pages 0x420000 (accesses (fun _ s => s) (window ++ window ++ window) (atBase 0x420000)) = {1, 2} := by
  decide +kernel

theorem l2c_pages_two :
    ∃ inserted, evolve id .l2c [0, 0] ["add x9, x10, x11".toList] = inserted ++ ["add x9, x10, x11".toList] ∧
      (run (fun _ s => s) inserted (atBase 0x420000)).x 8 = 0x420000 ∧
      2 ≤ (pages 0x420000 (accesses (fun _ s => s) inserted (atBase 0x420000))).card := by
  obtain ⟨inserted, heq, hback, hpages⟩ := l2c_pages_iff id ["add x9, x10, x11".toList] [0, 0] (by decide +kernel)
    (fun _ s => s) (atBase 0x420000)
  exact ⟨inserted, heq, hback, hpages.2 (Nat.le_refl 2)⟩

end GemFI.Tools.HarpEvolve
