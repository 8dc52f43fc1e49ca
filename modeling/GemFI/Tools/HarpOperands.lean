import GemFI.Tools.HarpSyntax

/-!
# The base register of a wrapped sequence

The asm statement of the wrapper loads x9 to x28 from the array `[regs]`, runs the sequence, which uses x8 as the base
of its accesses, and stores the registers.  The address of the data is the operand `[base]`, for which the compiler
chooses a register; nothing in the statement moves it to x8.  So x8 holds the address of the data when the sequence
begins if and only if the compiler happens to choose x8 for `[base]`, and the sequence leaves x8 as it was, for the
next iteration (`base_at_core_iff`).

The lines of the statement are taken as they are given to the assembler.
-/

namespace GemFI.Tools.HarpOperands

open Text Asm
open HarpWrap (load_sequence)
open HarpSyntax (declared)

/-! ### The statement -/

def regsBody (mnemonic : String) : List (List Char) :=
  (List.finRange 20).map fun i => accessLine mnemonic.toList (9 + i.val) "%[regs]".toList (8 * i.val)

def load_body : List (List Char) := regsBody "ldr"

def store_body : List (List Char) := regsBody "str"

def statement (seq_lines : List (List Char)) : List (List Char) := load_body ++ seq_lines ++ store_body

def substitute (regs base : List Char) : List Char → List Char
  | [] => []
  | '%' :: '[' :: 'r' :: 'e' :: 'g' :: 's' :: ']' :: t => regs ++ substitute regs base t
  | '%' :: '[' :: 'b' :: 'a' :: 's' :: 'e' :: ']' :: t => base ++ substitute regs base t
  | '%' :: '0' :: t => regs ++ substitute regs base t
  | '%' :: '1' :: t => base ++ substitute regs base t
  | '%' :: '%' :: t => '%' :: substitute regs base t
  | c :: t => c :: substitute regs base t

theorem substitute_append {regs base : List Char} {t : List Char} (h : '%' ∉ t) (u : List Char) :
    substitute regs base (t ++ u) = t ++ substitute regs base u := by
  induction t with
  | nil => rfl
  | cons c t ih =>
    simp only [List.mem_cons, not_or] at h
    rw [List.cons_append, substitute, ih h.2, List.cons_append]
    -- the first character is no mark of an operand
    all_goals exact fun _ hc => absurd hc.symm h.1

theorem substitute_accessLine {regs base mnemonic : List Char} (hm : '%' ∉ mnemonic) (t k : Nat) :
    substitute regs base (accessLine mnemonic t "%[regs]".toList k) = accessLine mnemonic t regs k := by
  have hname : '%' ∉ xName t := fun h => ne_of_isWord (isWord_of_mem_xName h) (by decide) rfl
  have hdigits : '%' ∉ digits k := fun h => absurd (isDigit_of_mem_digits h) (by decide)
  have hbefore : '%' ∉ mnemonic ++ ' ' :: xName t ++ [',', ' ', '['] := by
    simp [hm, hname]
  have hafter : '%' ∉ ',' :: ' ' :: '#' :: digits k ++ [']'] := by
    simp [hdigits]
  have hline : ∀ r : List Char, accessLine mnemonic t r k =
      (mnemonic ++ ' ' :: xName t ++ [',', ' ', '[']) ++ (r ++ (',' :: ' ' :: '#' :: digits k ++ [']'])) := by
    intro r
    simp [accessLine]
  have hmark : "%[regs]".toList = ['%', '[', 'r', 'e', 'g', 's', ']'] := by decide +kernel
  have hrest : substitute regs base (',' :: ' ' :: '#' :: digits k ++ [']']) = ',' :: ' ' :: '#' :: digits k ++ [']'] := by
    have happend : substitute regs base (_ ++ []) = _ ++ substitute regs base [] := substitute_append hafter []
    rwa [List.append_nil, substitute, List.append_nil] at happend
  have hoperand : ∀ u, substitute regs base (['%', '[', 'r', 'e', 'g', 's', ']'] ++ u) = regs ++ substitute regs base u :=
    fun _ => rfl
  rw [hline, hline, substitute_append hbefore, hmark, hoperand, hrest]

/-! ### Iterations -/

/-- The registers that the compiler chooses for the operands: different ones, which are not in the list. -/
structure Alloc where
  regs : Fin 31
  base : Fin 31
  ne : regs ≠ base
  regs_free : Loc.x regs ∉ declared
  base_free : Loc.x base ∉ declared

structure Pass where
  regs : BitVec 64
  data : BitVec 64
  ne : regs ≠ data

structure Statics where
  g_reg : BitVec 64
  mem : BitVec 64
  g_reg2 : BitVec 64
  mem2 : BitVec 64
  ne : g_reg ≠ mem
  ne2 : g_reg2 ≠ mem2

inductive Template where
  | wrapper | checker
  deriving DecidableEq, Repr

def Template.passes : Template → Statics → List Pass
  | .wrapper, a => [⟨a.g_reg, a.mem, a.ne⟩]
  | .checker, a => [⟨a.g_reg, a.mem, a.ne⟩, ⟨a.g_reg2, a.mem2, a.ne2⟩]

section

variable (other : List Char → State → State) (alloc : Alloc)

def assembled (lines : List (List Char)) : List (List Char) :=
  lines.map (substitute (xName alloc.regs) (xName alloc.base))

def atCore (s : State) : State := run other (assembled alloc load_body) s

def exit (seq_lines : List (List Char)) (s : State) : State := run other (assembled alloc (statement seq_lines)) s

/-- The states in which the iterations begin.  The operands are in their registers at first.  The statement does not say
that it changes them, so the compiler may set them again or leave them as they are. -/
structure Loop (seq_lines : List (List Char)) (p : Pass) where
  entry : Nat → State
  first : (entry 0).x alloc.regs = p.regs ∧ (entry 0).x alloc.base = p.data
  regs_next : ∀ k, (entry (k + 1)).x alloc.regs = p.regs ∨
    (entry (k + 1)).x alloc.regs = (exit other alloc seq_lines (entry k)).x alloc.regs
  base_next : ∀ k, (entry (k + 1)).x alloc.base = p.data ∨
    (entry (k + 1)).x alloc.base = (exit other alloc seq_lines (entry k)).x alloc.base

end

section

variable {other : List Char → State → State} {alloc : Alloc} {seq_lines : List (List Char)} {p : Pass}

theorem atCore_x8 (s : State) : (atCore other alloc s).x 8 = s.x 8 := by
  rw [atCore, assembled, load_body, regsBody, List.map_map]
  generalize List.finRange 20 = is
  induction is generalizing s with
  | nil => rfl
  | cons i is ih =>
    have hldr : ' ' ∉ "ldr".toList := by decide
    have hread := read_accessLine hldr ⟨9 + i.val, by omega⟩ alloc.regs (8 * i.val)
    have hne : (8 : Fin 31) ≠ ⟨9 + i.val, by omega⟩ := by
      intro h
      have hval := congrArg Fin.val h
      simp at hval
      omega
    rw [List.map_cons]
    show (run other _ (step other _ s)).x 8 = _
    rw [ih, Function.comp_apply, substitute_accessLine (by decide), step_of_read hread (exec?_ldr _ _ _ _),
      State.setX_of_ne hne]

/-- The loop in which the compiler never sets the operands again. -/
def Loop.follow (s : State) (h : s.x alloc.regs = p.regs ∧ s.x alloc.base = p.data) : Loop other alloc seq_lines p where
  entry k := (exit other alloc seq_lines)^[k] s
  first := h
  regs_next k := .inr (by rw [Function.iterate_succ_apply'])
  base_next k := .inr (by rw [Function.iterate_succ_apply'])

/-- The entries of a loop up to the iteration `k`, and then those without setting the operands again. -/
def keepEntry (l : Loop other alloc seq_lines p) (k j : Nat) : State :=
  if j ≤ k then l.entry j else (exit other alloc seq_lines)^[j - k] (l.entry k)

theorem keepEntry_of_le (l : Loop other alloc seq_lines p) {k j : Nat} (h : j ≤ k) : keepEntry l k j = l.entry j := if_pos h

theorem keepEntry_succ (l : Loop other alloc seq_lines p) {k j : Nat} (h : k ≤ j) :
    keepEntry l k (j + 1) = exit other alloc seq_lines (keepEntry l k j) := by
  rw [keepEntry, if_neg (by omega), Nat.succ_sub h, Function.iterate_succ_apply']
  by_cases hj : j ≤ k
  · obtain rfl : j = k := by omega
    rw [keepEntry_of_le l (Nat.le_refl j), Nat.sub_self]
    rfl
  · rw [keepEntry, if_neg hj]

def Loop.keepFrom (l : Loop other alloc seq_lines p) (k : Nat) : Loop other alloc seq_lines p where
  entry := keepEntry l k
  first := l.first
  regs_next j := by
    by_cases hj : j + 1 ≤ k
    · rw [keepEntry_of_le l hj, keepEntry_of_le l (Nat.le_of_succ_le hj)]
      exact l.regs_next j
    · exact .inr (by rw [keepEntry_succ l (by omega)])
  base_next j := by
    by_cases hj : j + 1 ≤ k
    · rw [keepEntry_of_le l hj, keepEntry_of_le l (Nat.le_of_succ_le hj)]
      exact l.base_next j
    · exact .inr (by rw [keepEntry_succ l (by omega)])

def misplaced (alloc : Alloc) (p : Pass) : State where
  x n := if n = alloc.regs then p.regs else if n = alloc.base then p.data else p.data + 1
  sp := 0
  v _ := 0
  mem _ := 0

theorem misplaced_x (n : Fin 31) : (misplaced alloc p).x n =
    if n = alloc.regs then p.regs else if n = alloc.base then p.data else p.data + 1 := rfl

theorem misplaced_operands : (misplaced alloc p).x alloc.regs = p.regs ∧ (misplaced alloc p).x alloc.base = p.data := by
  constructor
  · rw [misplaced_x, if_pos rfl]
  · rw [misplaced_x, if_neg alloc.ne.symm, if_pos rfl]

theorem misplaced_x8 (h : alloc.base ≠ 8) : (misplaced alloc p).x 8 ≠ p.data := by
  rw [misplaced_x]
  by_cases hregs : 8 = alloc.regs
  · rw [if_pos hregs]
    exact p.ne
  · rw [if_neg hregs, if_neg h.symm]
    bv_omega

end

/-- In every asm statement of both templates x8 holds the address of the data at the beginning of the sequence, whatever
the compiler does with the operands between the iterations, if and only if the operand `[base]` is in x8 and x8 holds that
address again behind each iteration but the last. -/
theorem base_at_core_iff (template : Template) (statics : Statics) (iters : Nat) (file seq_lines : List (List Char))
    (_hload : load_sequence file = (seq_lines, [])) (p : Pass) (_hp : p ∈ template.passes statics) (alloc : Alloc)
    (other : List Char → State → State) :
    (∀ loop : Loop other alloc seq_lines p, ∀ k < iters, (atCore other alloc (loop.entry k)).x 8 = p.data) ↔
      iters = 0 ∨ alloc.base = 8 ∧ ∀ loop : Loop other alloc seq_lines p, ∀ k, k + 1 < iters →
        (exit other alloc seq_lines (loop.entry k)).x 8 = p.data := by
  constructor
  · intro h
    rcases Nat.eq_zero_or_pos iters with hiters | hiters
    · exact .inl hiters
    · refine .inr ⟨?_, fun loop k hk => ?_⟩
      · by_contra hbase
        have hfirst := h (.follow (misplaced alloc p) misplaced_operands) 0 hiters
        rw [atCore_x8] at hfirst
        exact misplaced_x8 hbase hfirst
      · -- the compiler may leave x8 as it is behind the iteration `k`
        have hnext := h (loop.keepFrom k) (k + 1) hk
        rw [atCore_x8] at hnext
        rwa [show (loop.keepFrom k).entry (k + 1) = _ from keepEntry_succ loop (Nat.le_refl k),
          keepEntry_of_le loop (Nat.le_refl k)] at hnext
  · rintro (rfl | ⟨hbase, hexit⟩) loop k hk
    · exact absurd hk (Nat.not_lt_zero k)
    · rw [atCore_x8]
      cases k with
      | zero =>
        have hfirst := loop.first.2
        rwa [hbase] at hfirst
      | succ k =>
        have hnext := loop.base_next k
        rw [hbase, hexit loop k hk, or_self] at hnext
        exact hnext

def arrays : Statics := ⟨0x420000, 0x421000, 0x430000, 0x431000, by decide, by decide⟩

def addFile : List (List Char) := ["add x9, x10, x11\n".toList]

def inX8 : Alloc := ⟨0, 8, by decide, by decide, by decide⟩

def firstFree : Alloc := ⟨0, 1, by decide, by decide, by decide⟩

theorem base_misplaced :
    load_sequence addFile = (["add x9, x10, x11".toList], []) ∧
    ∃ p ∈ Template.passes .wrapper arrays, ∃ loop : Loop (fun _ s => s) firstFree ["add x9, x10, x11".toList] p,
      (atCore (fun _ s => s) firstFree (loop.entry 0)).x 8 ≠ p.data := by
  refine ⟨by decide +kernel, _, List.mem_singleton.2 rfl, .follow (misplaced firstFree _) misplaced_operands, ?_⟩
  rw [atCore_x8]
  exact misplaced_x8 (by decide)

theorem base_at_core_x8 :
    load_sequence addFile = (["add x9, x10, x11".toList], []) ∧
    ∀ loop : Loop (fun _ s => s) inX8 ["add x9, x10, x11".toList] ⟨arrays.g_reg, arrays.mem, arrays.ne⟩,
      ∀ k < 1, (atCore (fun _ s => s) inX8 (loop.entry k)).x 8 = arrays.mem := by
  have hload : load_sequence addFile = (["add x9, x10, x11".toList], []) := by decide +kernel
  exact ⟨hload, (base_at_core_iff .wrapper arrays 1 addFile _ hload ⟨arrays.g_reg, arrays.mem, arrays.ne⟩
    (List.mem_singleton.2 rfl) inX8 (fun _ s => s)).2 (.inr ⟨rfl, fun _ k hk => absurd hk (by omega)⟩)⟩

/-! ### Sequences that keep the base -/

section

variable {other : List Char → State → State} {alloc : Alloc} {seq_lines : List (List Char)} {p : Pass}

private theorem regsBody_keeps {mnemonic : String} (hm : '%' ∉ mnemonic.toList ∧ ' ' ∉ mnemonic.toList)
    (hkind : kind mnemonic.toList = .load ∨ kind mnemonic.toList = .store) :
    ∀ line ∈ assembled alloc (regsBody mnemonic), ∃ i, read line = some i ∧ ¬i.Writes (.x 8) := by
  rw [assembled, regsBody, List.map_map]
  rintro line hline
  obtain ⟨i, -, rfl⟩ := List.mem_map.1 hline
  rw [Function.comp_apply, substitute_accessLine hm.1]
  refine ⟨_, read_accessLine hm.2 ⟨9 + i.val, by omega⟩ alloc.regs (8 * i.val), ?_⟩
  rcases hkind with hkind | hkind <;> rw [Inst.Writes, hkind]
  · rintro (h | h)
    · have hval := congrArg Fin.val (Loc.x.inj (Option.mem_some.1 h))
      simp at hval
      omega
    · cases h
  · rintro (h | h) <;> cases h

/-- If the operand is in x8 and no line of the sequence writes x8, x8 holds the address of the data in every iteration. -/
theorem base_kept (hother : Respects other) (hbase : alloc.base = 8)
    (hlines : ∀ line ∈ assembled alloc seq_lines, ∃ i, read line = some i ∧ ¬i.Writes (.x 8))
    (loop : Loop other alloc seq_lines p) (k : Nat) : (atCore other alloc (loop.entry k)).x 8 = p.data := by
  have hall : ∀ line ∈ assembled alloc (statement seq_lines), ∃ i, read line = some i ∧ ¬i.Writes (.x 8) := by
    rw [assembled, statement, List.map_append, List.map_append, List.forall_mem_append, List.forall_mem_append]
    exact ⟨⟨regsBody_keeps (by decide) (.inl kind_ldr), hlines⟩, regsBody_keeps (by decide) (.inr kind_str)⟩
  rw [atCore_x8]
  induction k with
  | zero =>
    have hfirst := loop.first.2
    rwa [hbase] at hfirst
  | succ k ih =>
    have hnext := loop.base_next k
    rw [hbase, exit, run_frame hother hall, ih, or_self] at hnext
    exact hnext

theorem base_kept_add :
    ∃ loop : Loop (fun _ s => s) inX8 ["add x9, x10, x11".toList] ⟨arrays.g_reg, arrays.mem, arrays.ne⟩,
      ∀ k, (atCore (fun _ s => s) inX8 (loop.entry k)).x 8 = arrays.mem := by
  refine ⟨.follow (misplaced inX8 _) misplaced_operands, base_kept (fun _ _ _ _ _ _ => rfl) rfl ?_ _⟩
  refine List.forall_mem_singleton.2 ⟨⟨"add".toList, .x 9, [.reg (.x 10), .reg (.x 11)]⟩, by decide +kernel, ?_⟩
  rw [Inst.Writes, kind_add]
  decide

end

end GemFI.Tools.HarpOperands
