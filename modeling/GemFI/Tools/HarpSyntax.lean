import GemFI.Lib.Asm
import GemFI.Tools.HarpChecker
import Mathlib.Algebra.Order.Ring.Int

/-!
# What the sanitizer lets through

`sanitize_asm_line` cuts a comment off a line and accepts the rest by its first characters and by the occurrence of
`x8` in the first brackets (`sanitize_eq_some_iff`).  Two things follow that are not meant.

* The registers of an accepted instruction are not looked at: it keeps to the registers that the wrapper declares if
  its destination and its bases do (`confined_iff`).
* An immediate begins with `#`, which outside of brackets begins a comment.  So an instruction with an immediate is
  cut before it, and one whose mnemonic is followed by a tab is not accepted (`sanitize_intact_iff`).
-/

namespace GemFI.Tools.HarpSyntax

open Text Asm
open HarpWrap (cutComment inBrackets sanitize_asm_line MNEMONIC_WHITELIST)

/-! ### Acceptance -/

def uncommented (line : List Char) : List Char := strip (breakOn [';'] (breakOn ['/', '/'] (cutComment line 0)).1).1

structure Accepted (s : List Char) : Prop where
  ne_nil : s ≠ []
  no_directive : s.head? ≠ some '.'
  no_label : ':' ∉ s
  mnemonic : ∃ p ∈ MNEMONIC_WHITELIST, p.toList <+: s
  base : '[' ∈ s → ['x', '8'] <:+: inBrackets s

theorem sanitize_eq_some_iff {line s : List Char} {lineno : Nat} :
    sanitize_asm_line line lineno = (some s, none) ↔ s = uncommented line ∧ Accepted s := by
  have hany : ∀ t : List Char, (MNEMONIC_WHITELIST.any fun p => p.toList.isPrefixOf t) = true ↔
      ∃ p ∈ MNEMONIC_WHITELIST, p.toList <+: t := by
    intro t
    simp only [List.any_eq_true, List.isPrefixOf_iff_prefix]
  rw [sanitize_asm_line, ← uncommented]
  constructor
  · intro h
    dsimp only at h
    split at h
    · cases h
    · rename_i hstart
      split at h
      · cases h
      · rename_i hlabel
        split at h
        · cases h
        · rename_i hmnemonic
          split at h
          · cases h
          · rename_i hbase
            cases h
            rw [not_or] at hstart
            exact ⟨rfl, hstart.1, hstart.2, hlabel, (hany _).1 (not_not.1 hmnemonic),
              fun h => by_contra fun hn => hbase ⟨h, hn⟩⟩
  · rintro ⟨rfl, hne, hdir, hlabel, hmn, hbase⟩
    dsimp only
    rw [if_neg (not_or.2 ⟨hne, hdir⟩), if_neg hlabel, if_neg (not_not.2 ((hany _).2 hmn)),
      if_neg fun h => h.2 (hbase h.1)]

/-! ### Registers that an accepted instruction writes -/

def SEQ_REGS : List (Fin 31) := (List.finRange 20).map fun i => ⟨9 + i.val, by omega⟩

def declared : List Loc := SEQ_REGS.map .x ++ (List.finRange 8).map fun i => .v ⟨8 + i.val, by omega⟩

/-- The instruction writes declared registers and memory only, and every access has the base x8. -/
def Confined (i : Inst) : Prop := (∀ l, i.Writes l → l ∈ declared ∨ l = .mem) ∧ ∀ base ∈ i.bases, base = some (.x 8)

private theorem x8_not_declared : Loc.x 8 ∉ declared := by decide

private theorem whitelist_kinds : ∀ p ∈ MNEMONIC_WHITELIST,
    ' ' ∈ p.toList ∧ kind (p.toList.takeWhile (· ≠ ' ')) ≠ .other := by
  decide +kernel

theorem Accepted.kind_ne {s : List Char} (h : Accepted s) : kind (s.takeWhile (· ≠ ' ')) ≠ .other := by
  obtain ⟨p, hp, t, rfl⟩ := h.mnemonic
  obtain ⟨hblank, hkind⟩ := whitelist_kinds p hp
  have hlt : (p.toList.takeWhile (· ≠ ' ')).length ≠ p.toList.length := by
    intro hlen
    have hall := (List.takeWhile_sublist (p := (· ≠ ' ')) (l := p.toList)).eq_of_length hlen
    rw [List.takeWhile_eq_self_iff] at hall
    exact absurd (hall ' ' hblank) (by decide)
  rwa [List.takeWhile_append, if_neg hlt]

private theorem writeBacks_eq_nil {i : Inst} (hbase : ∀ base ∈ i.bases, base = some (.x 8))
    (h : ∀ l ∈ writeBacks i.operands, l ∈ declared ∨ l = .mem) : writeBacks i.operands = [] := by
  refine List.eq_nil_iff_forall_not_mem.2 fun l hl => ?_
  obtain ⟨m, hm, hloc⟩ := mem_writeBacks hl
  have hx8 : m.base = .x 8 := Option.some.inj (hbase _ (mem_bases hm))
  rw [hx8, show (Reg.x 8).loc = some (Loc.x 8) from rfl, Option.mem_some] at hloc
  subst hloc
  rcases h _ hl with h | h
  · exact x8_not_declared h
  · cases h

/-- An accepted instruction writes nothing else than the declared registers and the memory, with x8 as the base of every
access, if and only if its destination is declared, its bases are x8 and none is written back.  None of this is
checked. -/
theorem confined_iff {line s : List Char} {lineno : Nat} {i : Inst}
    (haccepted : sanitize_asm_line line lineno = (some s, none)) (hread : read s = some i) :
    Confined i ↔ (kind i.mnemonic ≠ .store → ∀ l ∈ i.rt.loc, l ∈ declared) ∧
      (∀ base ∈ i.bases, base = some (.x 8)) ∧ (kind i.mnemonic ≠ .arithmetic → writeBacks i.operands = []) := by
  have hkind : kind i.mnemonic ≠ .other := by
    rw [mnemonic_of_read hread]
    exact (sanitize_eq_some_iff.1 haccepted).2.kind_ne
  rw [Confined, Inst.forall_writes_iff hkind (.inr rfl)]
  constructor
  · rintro ⟨⟨hrt, hback⟩, hbase⟩
    refine ⟨fun hk l hl => (hrt hk l hl).resolve_right ?_, hbase, fun hk => writeBacks_eq_nil hbase (hback hk)⟩
    rintro rfl
    exact i.rt.loc_ne_mem hl
  · rintro ⟨hrt, hbase, hback⟩
    refine ⟨⟨fun hk l hl => .inl (hrt hk l hl), fun hk l hl => ?_⟩, hbase⟩
    rw [hback hk] at hl
    cases hl

theorem undeclared_written :
    (sanitize_asm_line "mov x0, x9".toList 1 = (some "mov x0, x9".toList, none) ∧
      ∃ i, read "mov x0, x9".toList = some i ∧ ¬Confined i) ∧
    (sanitize_asm_line "ldr x9, [x10, x8]".toList 1 = (some "ldr x9, [x10, x8]".toList, none) ∧
      ∃ i, read "ldr x9, [x10, x8]".toList = some i ∧ ¬Confined i) ∧
    sanitize_asm_line "ldr x9, [x10, #0x80]".toList 1 = (some "ldr x9, [x10, #0x80]".toList, none) ∧
      ∃ i, read "ldr x9, [x10, #0x80]".toList = some i ∧ ¬Confined i := by
  refine ⟨⟨by decide +kernel, ⟨"mov".toList, .x 0, [.reg (.x 9)]⟩, by decide +kernel, fun h => ?_⟩,
    ⟨by decide +kernel, ⟨"ldr".toList, .x 9, [.mem ⟨.x 10, .reg (.x 8), false⟩]⟩, by decide +kernel, fun h => ?_⟩,
    by decide +kernel, ⟨"ldr".toList, .x 9, [.mem ⟨.x 10, .imm 128, false⟩]⟩, by decide +kernel, fun h => ?_⟩
  · -- x0 is written
    have hwrites := h.1 (.x 0) (Inst.writes_rt rfl (.inl (by decide +kernel)))
    revert hwrites
    decide
  · exact absurd (h.2 _ (mem_bases (List.mem_singleton.2 rfl))) (by decide)
  · exact absurd (h.2 _ (mem_bases (List.mem_singleton.2 rfl))) (by decide)

theorem confined_ldr :
    sanitize_asm_line "  ldr x9, [x8, #16] // load".toList 1 = (some "ldr x9, [x8, #16]".toList, none) ∧
    Confined ⟨"ldr".toList, .x 9, [.mem ⟨.x 8, .imm 16, false⟩]⟩ := by
  have haccepted : sanitize_asm_line "  ldr x9, [x8, #16] // load".toList 1 = (some "ldr x9, [x8, #16]".toList, none) := by
    decide +kernel
  refine ⟨haccepted, (confined_iff haccepted (by decide +kernel)).2 ?_⟩
  exact ⟨fun _ => by decide, by decide +kernel, fun _ => by decide⟩

/-! ### Instructions in standard syntax -/

def isAtom (c : Char) : Bool := c.isAlphanum || c == '.' || c == '+' || c == '-'

abbrev Blank := {t : List Char // ∀ c ∈ t, isSpace c = true}

structure Register where
  text : List Char
  isReg : (reg? text).isSome
  atoms : ∀ c ∈ text, isAtom c = true

structure Numeral where
  text : List Char
  isNumber : (number? text).isSome
  atoms : ∀ c ∈ text, isAtom c = true

/-- A register, an immediate, or the base x8 in brackets, with an offset or without. -/
inductive StdOperand where
  | reg (r : Register)
  | imm (n : Numeral)
  | mem (before after : Blank) (offset : Option (Blank × Numeral × Blank))

def StdOperand.isImm : StdOperand → Bool
  | .imm _ => true
  | _ => false

def offsetText : Option (Blank × Numeral × Blank) → List Char
  | none => []
  | some (before, n, after) => ',' :: before.val ++ '#' :: n.text ++ after.val

def StdOperand.text : StdOperand → List Char
  | .reg r => r.text
  | .imm n => '#' :: n.text
  | .mem before after offset => '[' :: (before.val ++ ['x', '8'] ++ after.val ++ offsetText offset) ++ [']']

structure Line where
  lead : Blank
  mnemonic : List Char
  listed : ∃ p ∈ MNEMONIC_WHITELIST, p.toList = mnemonic ++ [' ']
  gap : Blank
  gap_ne : gap.val ≠ []
  first : StdOperand
  rest : List (Blank × Blank × StdOperand)
  trail : Blank

def Line.operands (l : Line) : List StdOperand := l.first :: l.rest.map (·.2.2)

def Line.core (l : Line) : List Char :=
  l.mnemonic ++ l.gap.val ++ l.first.text ++ l.rest.flatMap fun o => o.1.val ++ ',' :: o.2.1.val ++ o.2.2.text

def Line.text (l : Line) : List Char := l.lead.val ++ l.core ++ l.trail.val

/-! ### How the line is scanned -/

def Plain (c : Char) : Prop := isAtom c = true ∨ isSpace c = true ∨ c = ','

/-- A text that is put together from plain characters, memory operands and immediates; the mark says whether an immediate
is among them. -/
inductive Scanned : Bool → List Char → Prop
  | plain {t : List Char} (h : ∀ c ∈ t, Plain c) : Scanned false t
  | mem {t : List Char} (h : ∀ c ∈ t, Plain c ∨ c = '#') (hbase : ['x', '8'] <:+: t) : Scanned false ('[' :: t ++ [']'])
  | imm {t : List Char} (h : ∀ c ∈ t, Plain c) : Scanned true ('#' :: t)
  | append {a b : Bool} {t u : List Char} (ht : Scanned a t) (hu : Scanned b u) : Scanned (a || b) (t ++ u)

theorem Plain.ne {c d : Char} (hc : Plain c) (hd : ¬Plain d) : c ≠ d := by
  rintro rfl
  exact hd hc

instance (c : Char) : Decidable (Plain c) := inferInstanceAs (Decidable (_ ∨ _ ∨ _))

def depth (t : List Char) : Int := (t.map fun c => if c = '[' then 1 else if c = ']' then -1 else 0).sum

theorem depth_append (t u : List Char) : depth (t ++ u) = depth t + depth u := by
  rw [depth, List.map_append, List.sum_append]
  rfl

theorem depth_cons (c : Char) (t : List Char) :
    depth (c :: t) = (if c = '[' then 1 else if c = ']' then -1 else 0) + depth t := by
  rw [depth, List.map_cons, List.sum_cons]
  rfl

theorem depth_eq_zero {t : List Char} (h : ∀ c ∈ t, c ≠ '[' ∧ c ≠ ']') : depth t = 0 := by
  induction t with
  | nil => rfl
  | cons c t ih =>
    obtain ⟨hopen, hclose⟩ := h c List.mem_cons_self
    rw [depth_cons, if_neg hopen, if_neg hclose, ih fun c hc => h c (List.mem_cons_of_mem _ hc)]
    rfl

theorem Plain.not_bracket {c : Char} (h : Plain c ∨ c = '#') : c ≠ '[' ∧ c ≠ ']' := by
  rcases h with h | rfl
  · exact ⟨h.ne (by decide), h.ne (by decide)⟩
  · decide

variable {b : Bool} {t : List Char}

theorem Scanned.depth_eq_zero (h : Scanned b t) : depth t = 0 := by
  induction h with
  | plain h => exact HarpSyntax.depth_eq_zero fun c hc => Plain.not_bracket (.inl (h c hc))
  | mem h _ =>
    rw [List.cons_append, depth_cons, depth_append, HarpSyntax.depth_eq_zero fun c hc => Plain.not_bracket (h c hc)]
    decide
  | imm h =>
    rw [depth_cons, HarpSyntax.depth_eq_zero fun c hc => Plain.not_bracket (.inl (h c hc))]
    decide
  | append _ _ iht ihu => rw [depth_append, iht, ihu, add_zero]

private theorem cutComment_append {t : List Char} {d : Int}
    (h : ∀ c ∈ t, (c ≠ '[' ∧ c ≠ ']') ∧ (c = '#' → d ≠ 0)) (u : List Char) :
    cutComment (t ++ u) d = t ++ cutComment u d := by
  induction t with
  | nil => rfl
  | cons c t ih =>
    obtain ⟨⟨hopen, hclose⟩, hmark⟩ := h c List.mem_cons_self
    rw [List.cons_append, cutComment, if_neg hopen, if_neg hclose, if_neg fun hc => hmark hc.1 hc.2,
      ih fun c hc => h c (List.mem_cons_of_mem _ hc)]
    rfl

theorem Scanned.cutComment_append (h : Scanned b t) (hb : b = false) (u : List Char) :
    cutComment (t ++ u) 0 = t ++ cutComment u 0 := by
  induction h generalizing u with
  | plain h =>
    refine HarpSyntax.cutComment_append (fun c hc => ⟨Plain.not_bracket (.inl (h c hc)), ?_⟩) u
    rintro rfl
    exact absurd (h _ hc) (by decide)
  | mem h _ =>
    rw [List.append_assoc, List.cons_append, cutComment, if_pos rfl,
      HarpSyntax.cutComment_append fun c hc => ⟨Plain.not_bracket (h c hc), fun _ => by decide⟩, List.singleton_append,
      cutComment, if_neg (by decide), if_pos rfl]
    simp
  | imm h => cases hb
  | append _ _ iht ihu =>
    obtain ⟨ha, hb⟩ := Bool.or_eq_false_iff.1 hb
    rw [List.append_assoc, iht ha, ihu hb, List.append_assoc]

theorem Scanned.exists_mark (h : Scanned b t) (hb : b = true) :
    ∃ v w, t = v ++ '#' :: w ∧ depth v = 0 := by
  induction h with
  | plain h => cases hb
  | mem h _ => cases hb
  | imm h => exact ⟨[], _, rfl, rfl⟩
  | @append a b t u ht hu iht ihu =>
    cases a with
    | true =>
      obtain ⟨v, w, rfl, hv⟩ := iht rfl
      exact ⟨v, w ++ u, by simp, hv⟩
    | false =>
      obtain ⟨v, w, rfl, hv⟩ := ihu hb
      exact ⟨t ++ v, w, by simp, by rw [depth_append, ht.depth_eq_zero, hv, add_zero]⟩

theorem cutComment_prefix {v : List Char} {d : Int} (h : d + depth v = 0) (w : List Char) :
    cutComment (v ++ '#' :: w) d <+: v := by
  induction v generalizing d with
  | nil =>
    have hd : d = 0 := by simpa [depth] using h
    subst hd
    exact List.nil_prefix
  | cons c v ih =>
    rw [depth_cons] at h
    rw [List.cons_append, cutComment]
    by_cases hopen : c = '['
    · rw [if_pos hopen] at h ⊢
      exact (List.prefix_cons_inj c).2 (ih (by omega))
    · rw [if_neg hopen] at h ⊢
      by_cases hclose : c = ']'
      · rw [if_pos hclose] at h ⊢
        exact (List.prefix_cons_inj c).2 (ih (by omega))
      · rw [if_neg hclose] at h ⊢
        split
        · exact List.nil_prefix
        · exact (List.prefix_cons_inj c).2 (ih (by omega))

def solid (t : List Char) : Nat := t.countP fun c => !isSpace c

private theorem solid_dropWhile (t : List Char) : solid (t.dropWhile isSpace) = solid t := by
  have hnone : solid (t.takeWhile isSpace) = 0 :=
    List.countP_eq_zero.2 fun c hc => by simp [List.mem_takeWhile_imp hc]
  calc solid (t.dropWhile isSpace)
      = solid (t.takeWhile isSpace) + solid (t.dropWhile isSpace) := by rw [hnone, Nat.zero_add]
    _ = solid t := by rw [solid, solid, ← List.countP_append, List.takeWhile_append_dropWhile, ← solid]

theorem solid_strip (t : List Char) : solid (strip t) = solid t := by
  have hrev : ∀ u : List Char, solid u.reverse = solid u := fun u => List.countP_reverse
  rw [strip, List.rdropWhile, hrev, solid_dropWhile, hrev, solid_dropWhile]

theorem solid_le_of_prefix {t u : List Char} (h : t <+: u) : solid t ≤ solid u := h.sublist.countP_le

/-! ### What is returned -/

theorem Scanned.char (h : Scanned b t) : ∀ c ∈ t, Plain c ∨ c = '#' ∨ c = '[' ∨ c = ']' := by
  induction h with
  | plain h => exact fun c hc => .inl (h c hc)
  | mem h _ =>
    intro c hc
    simp only [List.cons_append, List.mem_cons, List.mem_append, List.not_mem_nil, or_false] at hc
    rcases hc with hc | hc | hc
    · simp [hc]
    · rcases h c hc with h | h <;> simp [h]
    · simp [hc]
  | imm h =>
    intro c hc
    rcases List.mem_cons.1 hc with hc | hc
    · exact .inr (.inl hc)
    · exact .inl (h c hc)
  | append _ _ iht ihu => exact List.forall_mem_append.2 ⟨iht, ihu⟩

theorem Scanned.not_mem (h : Scanned b t) {d : Char} (hplain : ¬Plain d)
    (hd : d ≠ '#' ∧ d ≠ '[' ∧ d ≠ ']') : d ∉ t := by
  intro hmem
  rcases h.char d hmem with h | h | h | h
  · exact hplain h
  · exact hd.1 h
  · exact hd.2.1 h
  · exact hd.2.2 h

theorem Scanned.uncommented_eq (h : Scanned false t) : uncommented t = strip t := by
  have hcut := h.cutComment_append rfl []
  rw [List.append_nil, cutComment, List.append_nil] at hcut
  rw [uncommented, hcut, breakOn_of_not_mem (h.not_mem (by decide) (by decide)),
    breakOn_of_not_mem (h.not_mem (by decide) (by decide))]

theorem Scanned.uncommented_ne (h : Scanned true t) : uncommented t ≠ strip t := by
  intro heq
  obtain ⟨v, w, rfl, hv⟩ := h.exists_mark rfl
  have hle : solid (uncommented (v ++ '#' :: w)) ≤ solid v := by
    rw [uncommented, solid_strip]
    exact solid_le_of_prefix ((prefix_of_breakOn _ _).trans <| (prefix_of_breakOn _ _).trans <|
      cutComment_prefix (by rw [hv]; rfl) w)
  have hlt : solid v < solid (v ++ '#' :: w) := by
    rw [solid, solid, List.countP_append, List.countP_cons_of_pos (by decide)]
    omega
  rw [heq, solid_strip] at hle
  omega

theorem Scanned.bracket (h : Scanned b t) {v w : List Char} (heq : t = v ++ '[' :: w) :
    ∃ inner rest, w = inner ++ ']' :: rest ∧ (∀ c ∈ inner, c ≠ '[' ∧ c ≠ ']') ∧ ['x', '8'] <:+: inner := by
  induction h generalizing v w with
  | plain h => exact absurd (h '[' (by simp [heq])) (by decide)
  | @mem t h hbase =>
    have hopen : '[' ∉ t ++ [']'] := by
      intro hmem
      rcases List.mem_append.1 hmem with hmem | hmem
      · exact (Plain.not_bracket (h _ hmem)).1 rfl
      · revert hmem
        decide
    cases v with
    | nil =>
      rw [List.nil_append, List.cons_append] at heq
      cases heq
      exact ⟨t, [], rfl, fun c hc => Plain.not_bracket (h c hc), hbase⟩
    | cons c v =>
      rw [List.cons_append, List.cons_append] at heq
      exact absurd (by simp [(List.cons.inj heq).2]) hopen
  | @imm t h =>
    have hmem : '[' ∈ '#' :: t := by simp [heq]
    rcases List.mem_cons.1 hmem with hmem | hmem
    · cases hmem
    · exact absurd (h _ hmem) (by decide)
  | @append a b t u ht hu iht ihu =>
    rcases List.append_eq_append_iff.1 heq with ⟨m, rfl, hm⟩ | ⟨m, rfl, hm⟩
    · exact ihu hm
    · cases m with
      | nil => exact ihu (v := []) hm.symm
      | cons c m =>
        rw [List.cons_append] at hm
        obtain ⟨rfl, rfl⟩ := List.cons.inj hm
        obtain ⟨inner, rest, rfl, hinner, hbase⟩ := iht rfl
        exact ⟨inner, rest ++ u, by simp, hinner, hbase⟩

theorem Scanned.inBrackets (h : Scanned b t) (hopen : '[' ∈ t) :
    ['x', '8'] <:+: inBrackets t := by
  obtain ⟨v, w, rfl, hv⟩ := List.eq_append_cons_of_mem hopen
  obtain ⟨inner, rest, rfl, hinner, hbase⟩ := h.bracket rfl
  have hnext : ∀ c ∈ inner, decide (c ≠ '[') = true := fun c hc => decide_eq_true (hinner c hc).1
  have hclose : ∀ c ∈ inner, decide (c ≠ ']') = true := fun c hc => decide_eq_true (hinner c hc).2
  have hfirst : HarpWrap.inBrackets (v ++ '[' :: (inner ++ ']' :: rest)) = inner := by
    rw [HarpWrap.inBrackets, breakOn_append_cons hv, Option.getD_some, breakOn_singleton_fst, breakOn_singleton_fst,
      List.takeWhile_append_of_pos hnext, List.takeWhile_cons_of_pos (by decide), List.takeWhile_append_of_pos hclose]
    simp
  rwa [hfirst]

private theorem whitelist_atoms : ∀ p ∈ MNEMONIC_WHITELIST, p.toList.getLast? = some ' ' ∧
    p.toList.dropLast.head?.any (· ≠ '.') ∧ p.toList.dropLast.all isAtom := by
  decide +kernel

theorem isSpace_of_isAtom {c : Char} (h : isAtom c = true) : isSpace c = false := by
  simp only [isAtom, Bool.or_eq_true, beq_iff_eq] at h
  rcases h with ((h | rfl) | rfl) | rfl
  · exact isSpace_of_isWord (by simp [isWord, h])
  all_goals decide

private theorem takeWhile_atoms {m : List Char} (hm : ∀ c ∈ m, isAtom c = true) {g : Char} (hg : isSpace g = true)
    (t : List Char) : (m ++ g :: t).takeWhile (fun c => !isSpace c) = m := by
  rw [List.takeWhile_append_of_pos fun c hc => by simp [isSpace_of_isAtom (hm c hc)],
    List.takeWhile_cons_of_neg (by simp [hg]), List.append_nil]

theorem Scanned.blank (t : Blank) : Scanned false t.val := .plain fun c hc => .inr (.inl (t.property c hc))

theorem StdOperand.scanned (o : StdOperand) : Scanned o.isImm o.text := by
  cases o with
  | reg r => exact .plain fun c hc => .inl (r.atoms c hc)
  | imm n => exact .imm fun c hc => .inl (n.atoms c hc)
  | mem before after offset =>
    have hblank : ∀ t : Blank, ∀ c ∈ t.val, Plain c ∨ c = '#' := fun t c hc => .inl (.inr (.inl (t.property c hc)))
    have hoffset : ∀ c ∈ offsetText offset, Plain c ∨ c = '#' := by
      cases offset with
      | none => exact fun c hc => absurd hc List.not_mem_nil
      | some p =>
        obtain ⟨before, n, after⟩ := p
        simp only [offsetText, List.cons_append, List.forall_mem_cons, List.forall_mem_append]
        exact ⟨.inl (.inr (.inr rfl)), ⟨hblank before, .inr trivial, fun c hc => .inl (.inl (n.atoms c hc))⟩, hblank after⟩
    refine .mem ?_ ?_
    · simp only [List.forall_mem_append]
      have hx8 : ∀ c ∈ ['x', '8'], Plain c ∨ c = '#' :=
        List.forall_mem_cons.2 ⟨.inl (by decide), List.forall_mem_singleton.2 (.inl (by decide))⟩
      exact ⟨⟨⟨hblank before, hx8⟩, hblank after⟩, hoffset⟩
    · exact ⟨before.val, after.val ++ offsetText offset, by simp⟩

theorem StdOperand.last (o : StdOperand) : ∃ c ∈ o.text.getLast?, isSpace c = false := by
  cases o with
  | reg r =>
    have hne : r.text ≠ [] := by
      intro hnil
      have hreg := r.isReg
      rw [hnil] at hreg
      revert hreg
      decide +kernel
    exact ⟨_, List.getLast?_eq_getLast_of_ne_nil hne, isSpace_of_isAtom (r.atoms _ (List.getLast_mem hne))⟩
  | imm n =>
    by_cases hnil : n.text = []
    · exact ⟨'#', by simp [StdOperand.text, hnil], by decide⟩
    · refine ⟨_, ?_, isSpace_of_isAtom (n.atoms _ (List.getLast_mem hnil))⟩
      rw [StdOperand.text, List.getLast?_cons_of_ne_nil hnil]
      exact List.getLast?_eq_getLast_of_ne_nil hnil
  | mem before after offset => exact ⟨']', List.getLast?_concat, by decide⟩

private theorem rest_scanned (rest : List (Blank × Blank × StdOperand)) :
    Scanned (rest.any fun o => o.2.2.isImm) (rest.flatMap fun o => o.1.val ++ ',' :: o.2.1.val ++ o.2.2.text) := by
  induction rest with
  | nil => exact .plain (by simp)
  | cons o rest ih =>
    have hsep : Scanned false (o.1.val ++ ',' :: o.2.1.val) := by
      refine .append (a := false) (b := false) (Scanned.blank o.1) (.plain ?_)
      rw [List.forall_mem_cons]
      exact ⟨.inr (.inr rfl), fun c hc => .inr (.inl (o.2.1.property c hc))⟩
    rw [List.any_cons, List.flatMap_cons]
    exact (hsep.append o.2.2.scanned).append ih

namespace Line

variable (l : Line)

theorem mnemonic_atoms : ∀ c ∈ l.mnemonic, isAtom c = true := by
  obtain ⟨p, hp, heq⟩ := l.listed
  have hall := (whitelist_atoms p hp).2.2
  rw [heq, List.dropLast_concat, List.all_eq_true] at hall
  exact hall

theorem core_scanned : Scanned (l.operands.any StdOperand.isImm) l.core := by
  have hmnemonic : Scanned false l.mnemonic := .plain fun c hc => .inl (l.mnemonic_atoms c hc)
  have h := ((hmnemonic.append (Scanned.blank l.gap)).append l.first.scanned).append (rest_scanned l.rest)
  rw [Bool.false_or, Bool.false_or] at h
  rw [operands, List.any_cons, List.any_map]
  exact h

theorem text_scanned : Scanned (l.operands.any StdOperand.isImm) l.text := by
  have h := ((Scanned.blank l.lead).append l.core_scanned).append (Scanned.blank l.trail)
  rwa [Bool.false_or, Bool.or_false] at h

theorem mnemonic_cons : ∃ c t, l.mnemonic = c :: t ∧ c ≠ '.' := by
  obtain ⟨p, hp, heq⟩ := l.listed
  have hhead := (whitelist_atoms p hp).2.1
  rw [heq, List.dropLast_concat] at hhead
  cases hm : l.mnemonic with
  | nil => simp [hm] at hhead
  | cons c t => exact ⟨c, t, rfl, by simpa [hm] using hhead⟩

theorem core_last : ∃ c ∈ l.core.getLast?, isSpace c = false := by
  rcases List.eq_nil_or_concat l.rest with hrest | ⟨rest, o, hrest⟩
  · obtain ⟨c, hc, hspace⟩ := l.first.last
    refine ⟨c, ?_, hspace⟩
    rw [core, hrest, List.flatMap_nil, List.append_nil, List.getLast?_append, Option.mem_def.1 hc, Option.some_or]
    rfl
  · obtain ⟨c, hc, hspace⟩ := o.2.2.last
    refine ⟨c, ?_, hspace⟩
    rw [core, hrest, List.concat_eq_append, List.flatMap_append, List.flatMap_singleton, ← List.append_assoc,
      ← List.append_assoc, List.getLast?_append, Option.mem_def.1 hc, Option.some_or]
    rfl

theorem strip_text : strip l.text = l.core := by
  refine strip_append l.lead.property l.trail.property ?_ ?_
  · obtain ⟨c, t, hm, -⟩ := l.mnemonic_cons
    intro d hd
    rw [core, hm] at hd
    obtain rfl : c = d := by simpa using hd
    exact isSpace_of_isAtom (l.mnemonic_atoms c (by simp [hm]))
  · obtain ⟨c, hc, hspace⟩ := l.core_last
    intro d hd
    obtain rfl := Option.mem_unique hc hd
    exact hspace

theorem prefix_iff : (∃ p ∈ MNEMONIC_WHITELIST, p.toList <+: l.core) ↔ l.gap.val.head? = some ' ' := by
  obtain ⟨g, gap, hgap⟩ := List.exists_cons_of_ne_nil l.gap_ne
  obtain ⟨t, ht⟩ : ∃ t, l.core = l.mnemonic ++ g :: t := by
    rw [core, hgap, List.append_assoc, List.append_assoc]
    exact ⟨_, rfl⟩
  rw [hgap, List.head?_cons, Option.some.injEq]
  constructor
  · rintro ⟨p, hp, u, hu⟩
    obtain ⟨hlast, -, hatoms⟩ := whitelist_atoms p hp
    rw [← List.dropLast_append_getLast? _ hlast, List.append_assoc, List.singleton_append, ht] at hu
    -- both mnemonics end before the first white space
    have hsame := congrArg (List.takeWhile fun c => !isSpace c) hu
    rw [takeWhile_atoms (List.all_eq_true.1 hatoms) (by decide),
      takeWhile_atoms l.mnemonic_atoms (l.gap.property g (by simp [hgap]))] at hsame
    rw [hsame] at hu
    exact (List.cons.inj (List.append_cancel_left hu)).1.symm
  · rintro rfl
    obtain ⟨p, hp, heq⟩ := l.listed
    exact ⟨p, hp, t, by rw [heq, ht, List.append_assoc]; rfl⟩

end Line

/-- A line in standard syntax is returned as it is if and only if the mnemonic is followed by a blank, not by another kind
of white space, and no operand is an immediate. -/
theorem sanitize_intact_iff (l : Line) (lineno : Nat) :
    sanitize_asm_line l.text lineno = (some (strip l.text), none) ↔
      l.gap.val.head? = some ' ' ∧ ∀ o ∈ l.operands, o.isImm = false := by
  have hscanned := l.text_scanned
  rw [sanitize_eq_some_iff]
  constructor
  · rintro ⟨heq, haccepted⟩
    rw [l.strip_text] at haccepted
    refine ⟨l.prefix_iff.1 haccepted.mnemonic, fun o ho => ?_⟩
    cases himm : o.isImm with
    | false => rfl
    | true =>
      rw [List.any_eq_true.2 ⟨o, ho, himm⟩] at hscanned
      exact absurd heq.symm hscanned.uncommented_ne
  · rintro ⟨hgap, himm⟩
    have hnone : l.operands.any StdOperand.isImm = false := by
      rw [List.any_eq_false]
      exact fun o ho => by simp [himm o ho]
    rw [hnone] at hscanned
    have hcore := l.core_scanned
    obtain ⟨c, t, hm, hc⟩ := l.mnemonic_cons
    have hstart : l.core.head? = some c := by
      rw [Line.core, hm]
      rfl
    refine ⟨hscanned.uncommented_eq.symm, ?_⟩
    rw [l.strip_text]
    exact {
      ne_nil := by
        intro hnil
        rw [hnil] at hstart
        cases hstart
      no_directive := by
        rw [hstart, ne_eq, Option.some.injEq]
        exact hc
      no_label := hcore.not_mem (by decide) (by decide)
      mnemonic := l.prefix_iff.2 hgap
      base := hcore.inBrackets }

def Blank.none : Blank := ⟨[], List.forall_mem_nil _⟩

def Blank.one : Blank := ⟨[' '], List.forall_mem_singleton.2 (by decide)⟩

def addImmediate : Line where
  lead := .none
  mnemonic := ['a', 'd', 'd']
  listed := ⟨"add ", List.mem_cons_self, by decide +kernel⟩
  gap := .one
  gap_ne := List.cons_ne_nil _ _
  first := .reg ⟨xName 9, by decide +kernel, List.all_eq_true.1 (by decide +kernel)⟩
  rest := [(.none, .one, .reg ⟨xName 10, by decide +kernel, List.all_eq_true.1 (by decide +kernel)⟩),
    (.none, .one, .imm ⟨['5'], by decide +kernel, List.forall_mem_singleton.2 (by decide)⟩)]
  trail := .none

theorem immediate_lost :
    addImmediate.text = "add x9, x10, #5".toList ∧
    sanitize_asm_line addImmediate.text 1 = (some "add x9, x10,".toList, none) ∧
    sanitize_asm_line "add\tx9, x10, x11".toList 1 =
      (none, some "line 1: mnemonic not in whitelist ('add\tx9, x10, x11')") := by
  decide +kernel

end GemFI.Tools.HarpSyntax
