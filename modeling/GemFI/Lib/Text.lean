import Mathlib.Algebra.Order.Ring.Nat
import Mathlib.Data.List.DropRight
import Mathlib.Data.List.Infix
import Mathlib.Data.Rat.Defs

/-!
# Texts

The operations of Python on texts, which are lists of characters here: lines, words, and the numbers that are printed
into a text and read back.  Digits and letters are those of ASCII.

`Avoids mks t`: none of the texts `mks` occurs in `t`.  For a text with numbers and names in it (`Fits`) this is decided on
its fixed parts: `mayOccur` follows an occurrence over the seams (`Fits.avoids`).
-/

namespace GemFI.Text

/-! ### Occurrences -/

section

variable {α : Type} {l a b : List α}

theorem prefix_append_cons_iff {c : α} (hc : c ∉ l) : l <+: a ++ c :: b ↔ l <+: a := by
  constructor
  · intro h
    rcases List.prefix_or_prefix_of_prefix h (List.prefix_append a (c :: b)) with hl | ⟨m, rfl⟩
    · exact hl
    · rw [List.prefix_append_right_inj] at h
      cases m with
      | nil => rw [List.append_nil]
      | cons x m =>
        obtain ⟨rfl, -⟩ := List.cons_prefix_cons.1 h
        exact absurd (List.mem_append_right a List.mem_cons_self) hc
  · exact fun h => h.trans (List.prefix_append a (c :: b))

def Avoids (mks : List (List α)) (t : List α) : Prop := ∀ mk ∈ mks, ¬mk <:+: t

instance [DecidableEq α] (mks : List (List α)) (t : List α) : Decidable (Avoids mks t) :=
  inferInstanceAs (Decidable (∀ mk ∈ mks, ¬mk <:+: t))

end

/-! ### Lines and words -/

def isSpace (c : Char) : Bool :=
  let n := c.toNat
  (9 ≤ n && n ≤ 13) || (28 ≤ n && n ≤ 32) || n == 0x85 || n == 0xa0 || n == 0x1680 || (0x2000 ≤ n && n ≤ 0x200a) ||
    n == 0x2028 || n == 0x2029 || n == 0x202f || n == 0x205f || n == 0x3000

def isWord (c : Char) : Bool := c.isAlphanum || c == '_'

def search {β : Type} (m : List Char → Option β) (t : List Char) : Option β := t.tails.findSome? m

/-- A pair of `\r` and `\n` is one end of a line. -/
def joinBreaks : List Char → List Char
  | '\r' :: '\n' :: t => '\n' :: joinBreaks t
  | c :: t => c :: joinBreaks t
  | [] => []

def linesBy (isBreak : Char → Bool) (t : List Char) : List (List Char) :=
  let pieces := (joinBreaks t).splitOnP isBreak
  -- behind the end of the last line there is no further line
  if pieces.getLast? = some [] then pieces.dropLast else pieces

def fileLines : List Char → List (List Char) := linesBy fun c => c == '\n' || c == '\r'

def isLineBreak (c : Char) : Bool := [10, 11, 12, 13, 28, 29, 30, 0x85, 0x2028, 0x2029].contains c.toNat

/-- `str.splitlines`. -/
def splitlines : List Char → List (List Char) := linesBy isLineBreak

def unlines (ls : List (List Char)) : List Char := ls.flatMap (· ++ ['\n'])

/-- `str.split` at white space. -/
def words (t : List Char) : List (List Char) := (t.splitOnP isSpace).filter fun w => !w.isEmpty

def strip (t : List Char) : List Char := (t.dropWhile isSpace).rdropWhile isSpace

theorem search_cons {β : Type} (m : List Char → Option β) (c : Char) (t : List Char) :
    search m (c :: t) = (m (c :: t)).or (search m t) := by
  rw [search, List.tails_cons, List.findSome?_cons]
  cases m (c :: t) <;> rfl

variable {c : Char}

theorem isSpace_of_isWord (h : isWord c = true) : isSpace c = false := by
  rw [isWord, Bool.or_eq_true, beq_iff_eq] at h
  rcases h with h | rfl
  · change ((decide (c.val ≥ 'A'.val ∧ c.val ≤ 'Z'.val) || (decide (c.val ≥ 'a'.val) && decide (c.val ≤ 'z'.val))) ||
      (decide (c.val ≥ '0'.val) && decide (c.val ≤ '9'.val))) = true at h
    simp only [Bool.or_eq_true, Bool.and_eq_true, decide_eq_true_eq, UInt32.le_iff_toNat_le, ge_iff_le] at h
    have hrange : ((65 ≤ c.toNat ∧ c.toNat ≤ 90) ∨ 97 ≤ c.toNat ∧ c.toNat ≤ 122) ∨ 48 ≤ c.toNat ∧ c.toNat ≤ 57 := h
    simp only [isSpace, Bool.or_eq_false_iff, Bool.and_eq_false_iff, decide_eq_false_iff_not, beq_eq_false_iff_ne]
    omega
  · decide

theorem strip_ne_nil {t : List Char} (hc : c ∈ t) (hspace : isSpace c = false) : strip t ≠ [] := by
  intro h
  have hdrop : (t.dropWhile isSpace).dropWhile isSpace = [] :=
    List.dropWhile_eq_nil_iff.2 (List.rdropWhile_eq_nil_iff.1 h)
  rw [List.dropWhile_idempotent, List.dropWhile_eq_nil_iff] at hdrop
  rw [hdrop c hc] at hspace
  cases hspace

theorem strip_eq_self {t : List Char} (h : ∀ c ∈ t, isSpace c = false) : strip t = t := by
  have hdrop : ∀ l : List Char, (∀ c ∈ l, isSpace c = false) → l.dropWhile isSpace = l := by
    intro l hl
    cases l with
    | nil => rfl
    | cons c l => rw [List.dropWhile_cons_of_neg (by simp [hl c List.mem_cons_self])]
  have hrev : ∀ c ∈ t.reverse, isSpace c = false := fun c hc => h c (List.mem_reverse.1 hc)
  rw [strip, hdrop t h, List.rdropWhile, hdrop _ hrev, List.reverse_reverse]

theorem strip_append {a t b : List Char} (ha : ∀ c ∈ a, isSpace c = true) (hb : ∀ c ∈ b, isSpace c = true)
    (hhead : ∀ c ∈ t.head?, isSpace c = false) (hlast : ∀ c ∈ t.getLast?, isSpace c = false) :
    strip (a ++ t ++ b) = t := by
  rw [strip, List.append_assoc, List.dropWhile_append_of_pos ha]
  cases t with
  | nil =>
    have hnil : b.dropWhile isSpace = [] := List.dropWhile_eq_nil_iff.2 hb
    rw [List.nil_append, hnil]
    rfl
  | cons c t =>
    have hc : isSpace c = false := hhead c rfl
    have hrev : ∀ c ∈ b.reverse, isSpace c = true := fun c hc => hb c (List.mem_reverse.1 hc)
    rw [List.cons_append, List.dropWhile_cons_of_neg (by simp [hc]), ← List.cons_append, List.rdropWhile,
      List.reverse_append, List.dropWhile_append_of_pos hrev, ← List.rdropWhile, List.rdropWhile_eq_self_iff]
    intro hne
    rw [hlast _ (List.getLast?_eq_getLast_of_ne_nil hne)]
    exact Bool.false_ne_true

theorem joinBreaks_append {l : List Char} (h : '\r' ∉ l) (t : List Char) :
    joinBreaks (l ++ '\n' :: t) = l ++ '\n' :: joinBreaks t := by
  induction l with
  | nil => rfl
  | cons c l ih =>
    simp only [List.mem_cons, not_or] at h
    rw [List.cons_append, joinBreaks, ih h.2, List.cons_append]
    rintro t' rfl -
    exact h.1 rfl

section

variable {isBreak : Char → Bool} (hn : isBreak '\n' = true) (hr : isBreak '\r' = true)

include hn hr

theorem linesBy_append {l : List Char} (h : ∀ c ∈ l, isBreak c = false) (t : List Char) :
    linesBy isBreak (l ++ '\n' :: t) = l :: linesBy isBreak t := by
  have hnot : '\r' ∉ l := by
    intro hmem
    rw [h _ hmem] at hr
    cases hr
  have hne := List.splitOnP_ne_nil isBreak (joinBreaks t)
  unfold linesBy
  rw [joinBreaks_append hnot, List.splitOnP_append_cons_of_forall_mem h _ hn]
  dsimp only
  rw [List.getLast?_cons_of_ne_nil hne, List.dropLast_cons_of_ne_nil hne]
  split <;> rfl

theorem linesBy_unlines_append {ls : List (List Char)} (h : ∀ l ∈ ls, ∀ c ∈ l, isBreak c = false) (t : List Char) :
    linesBy isBreak (unlines ls ++ t) = ls ++ linesBy isBreak t := by
  induction ls with
  | nil => rfl
  | cons l ls ih =>
    have htail := ih fun l hl => h l (List.mem_cons_of_mem _ hl)
    rw [unlines] at htail
    rw [unlines, List.flatMap_cons, List.append_assoc, List.append_assoc, List.singleton_append,
      linesBy_append hn hr (h l List.mem_cons_self), htail, List.cons_append]

theorem linesBy_unlines {ls : List (List Char)} (h : ∀ l ∈ ls, ∀ c ∈ l, isBreak c = false) :
    linesBy isBreak (unlines ls) = ls := by
  simpa [linesBy, joinBreaks] using linesBy_unlines_append hn hr h []

end

theorem isSpace_of_isLineBreak (h : isLineBreak c = true) : isSpace c = true := by
  simp only [isLineBreak, List.contains_cons, List.contains_nil, Bool.or_false, Bool.or_eq_true, beq_iff_eq] at h
  simp only [isSpace, Bool.or_eq_true, Bool.and_eq_true, decide_eq_true_eq, beq_iff_eq]
  omega

theorem forall_mem_intercalate {p : Char → Prop} {sep : List Char} {ws : List (List Char)} (hsep : ∀ c ∈ sep, p c)
    (h : ∀ w ∈ ws, ∀ c ∈ w, p c) : ∀ c ∈ sep.intercalate ws, p c := by
  induction ws with
  | nil => simp
  | cons w ws ih =>
    have htail := ih fun w hw => h w (List.mem_cons_of_mem _ hw)
    cases ws with
    | nil =>
      rw [List.intercalate_singleton]
      exact h w List.mem_cons_self
    | cons w' ws =>
      rw [List.intercalate_cons_cons, List.forall_mem_append, List.forall_mem_append]
      exact ⟨⟨h w List.mem_cons_self, hsep⟩, htail⟩

theorem words_intercalate {ws : List (List Char)} (h : ∀ w ∈ ws, w ≠ [] ∧ ∀ c ∈ w, isSpace c = false) :
    words ([' '].intercalate ws) = ws := by
  induction ws with
  | nil => rfl
  | cons w ws ih =>
    obtain ⟨hne, hspace⟩ := h w List.mem_cons_self
    have htail := ih fun w hw => h w (List.mem_cons_of_mem _ hw)
    have hkeep : (!w.isEmpty) = true := by simpa using hne
    cases ws with
    | nil =>
      rw [List.intercalate_singleton, words, List.splitOnP_eq_singleton hspace]
      simp [hkeep]
    | cons w' ws =>
      rw [words] at htail
      rw [List.intercalate_cons_cons, List.append_assoc, List.singleton_append, words,
        List.splitOnP_append_cons_of_forall_mem hspace _ (by decide), List.filter_cons_of_pos (p := fun w : List Char => !w.isEmpty) hkeep,
        htail]

/-! ### Numbers -/

theorem isDigit_of_mem_toString {n : Nat} (h : c ∈ (toString n).toList) : c.isDigit = true := by
  rw [Nat.toString_eq_repr, Nat.repr_eq_ofList_toDigits, String.toList_ofList] at h
  exact Nat.isDigit_of_mem_toDigits (by omega) (by omega) h

theorem mem_toString_int {i : Int} (h : c ∈ (toString i).toList) : (c.isDigit || c == '-') = true := by
  have hdigits : ∀ n : Nat, c ∈ n.repr.toList → (c.isDigit || c == '-') = true := by
    intro n hn
    rw [← Nat.toString_eq_repr] at hn
    simp [isDigit_of_mem_toString hn]
  rw [Int.toString_eq_repr, Int.repr_eq_if] at h
  split at h
  · exact hdigits _ h
  · rw [String.toList_append, List.mem_append] at h
    rcases h with h | h
    · have hminus : ∀ c ∈ "-".toList, (c.isDigit || c == '-') = true := by simp
      exact hminus c h
    · exact hdigits _ h

/-- `std::bitset` as it is printed: the highest bit first. -/
def bitset {w : Nat} (x : BitVec w) : String :=
  String.ofList ((List.range w).reverse.map fun i => if x.getLsbD i then '1' else '0')

theorem isDigit_of_mem_bitset {w : Nat} {x : BitVec w} (h : c ∈ (bitset x).toList) : c.isDigit = true := by
  rw [bitset, String.toList_ofList, List.mem_map] at h
  obtain ⟨i, -, rfl⟩ := h
  split <;> decide

def hex (n : Nat) : String := String.ofList (Nat.toDigits 16 n)

def isHexDigit (c : Char) : Bool := c.isDigit || ('a' ≤ c && c ≤ 'f') || ('A' ≤ c && c ≤ 'F')

def hexDigit (c : Char) : Nat :=
  if c.isDigit then c.toNat - '0'.toNat
  else if 'a' ≤ c then c.toNat - 'a'.toNat + 10
  else c.toNat - 'A'.toNat + 10

def ofHex (ds : List Char) : Nat := ds.foldl (fun n c => 16 * n + hexDigit c) 0

private theorem digitChar_hex : ∀ d < 16, isHexDigit d.digitChar = true ∧ hexDigit d.digitChar = d := by decide

theorem isHexDigit_of_mem_hex {n : Nat} (h : c ∈ (hex n).toList) : isHexDigit c = true := by
  rw [hex, String.toList_ofList] at h
  induction n using Nat.strong_induction_on with
  | _ n ih =>
    rw [Nat.toDigits_eq_if (by omega)] at h
    by_cases hlt : n < 16
    · rw [if_pos hlt, List.mem_singleton] at h
      rw [h]
      exact (digitChar_hex n hlt).1
    · rw [if_neg hlt, List.mem_append, List.mem_singleton] at h
      rcases h with h | h
      · exact ih (n / 16) (by omega) h
      · rw [h]
        exact (digitChar_hex (n % 16) (by omega)).1

theorem ofHex_hex (n : Nat) : ofHex (hex n).toList = n := by
  rw [hex, String.toList_ofList]
  induction n using Nat.strong_induction_on with
  | _ n ih =>
    rw [Nat.toDigits_eq_if (by omega)]
    by_cases hlt : n < 16
    · rw [if_pos hlt]
      simp [ofHex, (digitChar_hex n hlt).2]
    · have hinit := ih (n / 16) (by omega)
      rw [ofHex] at hinit
      rw [if_neg hlt, ofHex, List.foldl_append, hinit]
      simp only [List.foldl_cons, List.foldl_nil, (digitChar_hex (n % 16) (by omega)).2]
      omega

def nat? (t : List Char) : Option Nat :=
  let parts := t.splitOn '_'
  if parts.all fun w => !w.isEmpty && w.all Char.isDigit then some (Nat.ofDigitChars 10 parts.flatten 0) else none

theorem nat?_of_digits {ds : List Char} (hne : ds ≠ []) (hall : ∀ c ∈ ds, c.isDigit = true) :
    nat? ds = some (Nat.ofDigitChars 10 ds 0) := by
  have hsplit : ds.splitOn '_' = [ds] := by
    refine List.splitOnP_eq_singleton fun c hc => ?_
    have hdigit := hall c hc
    rw [beq_eq_false_iff_ne]
    rintro rfl
    revert hdigit
    decide
  have hcheck : ([ds].all fun w => !w.isEmpty && w.all Char.isDigit) = true := by
    simpa [hne] using hall
  simp only [nat?, hsplit, hcheck, ↓reduceIte, List.flatten_cons, List.flatten_nil, List.append_nil]

theorem nat?_toString (n : Nat) : nat? (toString n).toList = some n := by
  have hall := fun c => isDigit_of_mem_toString (n := n) (c := c)
  rw [Nat.toString_eq_repr, Nat.repr_eq_ofList_toDigits, String.toList_ofList] at hall ⊢
  rw [nat?_of_digits Nat.toDigits_ne_nil hall, Nat.ofDigitChars_toDigits (by omega) (by omega)]

theorem toString_injective : Function.Injective fun n : Nat => toString n := by
  intro n k h
  have heq := nat?_toString n
  rw [show toString n = toString k from h, nat?_toString k] at heq
  exact (Option.some.inj heq).symm

/-- `int` of a text; no result is a `ValueError`. -/
def int? (t : List Char) : Option Int :=
  match strip t with
  | '-' :: ds => (nat? ds).map fun n : Nat => -(n : Int)
  | '+' :: ds => (nat? ds).map fun n : Nat => (n : Int)
  | ds => (nat? ds).map fun n : Nat => (n : Int)

theorem isSpace_of_isDigit (h : c.isDigit = true) : isSpace c = false := by
  have hrange : 48 ≤ c.toNat ∧ c.toNat ≤ 57 := by
    simpa [Char.isDigit, UInt32.le_iff_toNat_le] using h
  simp only [isSpace, Bool.or_eq_false_iff, Bool.and_eq_false_iff, decide_eq_false_iff_not, beq_eq_false_iff_ne]
  omega

theorem int?_toString (i : Int) : int? (toString i).toList = some i := by
  have hspace : ∀ c ∈ (toString i).toList, isSpace c = false := by
    intro c hc
    have hchar := mem_toString_int hc
    rw [Bool.or_eq_true] at hchar
    rcases hchar with hdigit | hminus
    · exact isSpace_of_isDigit hdigit
    · rw [eq_of_beq hminus]
      decide
  rw [int?, strip_eq_self hspace, Int.toString_eq_repr, Int.repr_eq_if]
  by_cases hi : 0 ≤ i
  · rw [if_pos hi, ← Nat.toString_eq_repr]
    have hread := nat?_toString i.toNat
    have hdigits := fun c => isDigit_of_mem_toString (n := i.toNat) (c := c)
    -- the first character is a digit, and so no sign
    cases hlist : (toString i.toNat).toList with
    | nil =>
      rw [hlist] at hread
      cases hread
    | cons c l =>
      rw [hlist] at hread hdigits
      have hc := hdigits c List.mem_cons_self
      have hsign : c ≠ '-' ∧ c ≠ '+' := by
        constructor <;> (rintro rfl; revert hc; decide)
      split
      · rename_i heq
        exact absurd (List.cons.inj heq).1 hsign.1
      · rename_i heq
        exact absurd (List.cons.inj heq).1 hsign.2
      · rw [hread, Option.map_some, Int.toNat_of_nonneg hi]
  · have hminus : "-".toList = ['-'] := by decide +kernel
    rw [if_neg hi, String.toList_append, hminus, ← Nat.toString_eq_repr]
    simp only [List.singleton_append, nat?_toString, Option.map_some, Option.some.injEq]
    omega

/-- The text before the first occurrence of `mk`, and the text behind it. -/
def breakOn (mk : List Char) : List Char → List Char × Option (List Char)
  | [] => ([], if mk = [] then some [] else none)
  | c :: t =>
    if mk.isPrefixOf (c :: t) then ([], some ((c :: t).drop mk.length))
    else (c :: (breakOn mk t).1, (breakOn mk t).2)

theorem prefix_of_breakOn (mk t : List Char) : (breakOn mk t).1 <+: t := by
  induction t with
  | nil => exact List.nil_prefix
  | cons c t ih =>
    rw [breakOn]
    split
    · exact List.nil_prefix
    · exact (List.prefix_cons_inj c).2 ih

theorem breakOn_of_not_mem {t : List Char} (h : c ∉ t) (mk : List Char) : breakOn (c :: mk) t = (t, none) := by
  induction t with
  | nil => rfl
  | cons d t ih =>
    simp only [List.mem_cons, not_or] at h
    have hneg : ¬(c :: mk).isPrefixOf (d :: t) = true := by
      rw [List.isPrefixOf_iff_prefix, List.cons_prefix_cons]
      exact fun hp => h.1 hp.1
    rw [breakOn, if_neg hneg, ih h.2]

theorem breakOn_append_cons {t : List Char} (h : c ∉ t) (u : List Char) :
    breakOn [c] (t ++ c :: u) = (t, some u) := by
  induction t with
  | nil => simp [breakOn]
  | cons d t ih =>
    simp only [List.mem_cons, not_or] at h
    have hneg : ¬[c].isPrefixOf (d :: (t ++ c :: u)) = true := by
      rw [List.isPrefixOf_iff_prefix, List.cons_prefix_cons]
      exact fun hp => h.1 hp.1
    rw [List.cons_append, breakOn, if_neg hneg, ih h.2]

theorem breakOn_singleton_fst (c : Char) (t : List Char) : (breakOn [c] t).1 = t.takeWhile (· ≠ c) := by
  induction t with
  | nil => rfl
  | cons d t ih =>
    by_cases hd : d = c
    · simp [breakOn, hd]
    · have hneg : ¬[c].isPrefixOf (d :: t) = true := by
        rw [List.isPrefixOf_iff_prefix, List.cons_prefix_cons]
        exact fun hp => hd hp.1.symm
      rw [breakOn, if_neg hneg, ih, List.takeWhile_cons_of_pos (by simpa using hd)]

/-! ### Texts with numbers and names in them -/

inductive Piece where
  | lit (s : String)
  | number
  | name

def isNumeral (c : Char) : Bool := isHexDigit c || c == '-'

/-- The text is put together from such parts, and the names in it avoid the texts `mks`. -/
inductive Fits (mks : List (List Char)) : List Piece → List Char → Prop
  | nil : Fits mks [] []
  | lit (s : String) {ps : List Piece} {t : List Char} (h : Fits mks ps t) : Fits mks (.lit s :: ps) (s.toList ++ t)
  | number {a t : List Char} {ps : List Piece} (ha : ∀ c ∈ a, isNumeral c = true) (h : Fits mks ps t) :
    Fits mks (.number :: ps) (a ++ t)
  | name {a t : List Char} {ps : List Piece} (ha : Avoids mks a) (h : Fits mks ps t) : Fits mks (.name :: ps) (a ++ t)

def rest? : List Char → List Char → Option (List Char)
  | [], _ => some []
  | c :: mk, [] => some (c :: mk)
  | c :: mk, d :: l => if c = d then rest? mk l else none

def numeralRests : List Char → List (List Char)
  | [] => [[]]
  | c :: mk => (c :: mk) :: if isNumeral c then numeralRests mk else []

def mayBegin : List Piece → List Char → Bool
  | [], mk => mk.isEmpty
  | .lit s :: ps, mk => (rest? mk s.toList).any (mayBegin ps)
  | .number :: ps, mk => (numeralRests mk).any (mayBegin ps)
  | .name :: _, _ => true

def mayOccur : List Piece → List Char → Bool
  | [], mk => mk.isEmpty
  | .lit s :: ps, mk => s.toList.tails.any (fun u => !u.isEmpty && (rest? mk u).any (mayBegin ps)) || mayOccur ps mk
  | .number :: ps, mk => mayBegin (.number :: ps) mk || mayOccur ps mk
  | .name :: ps, mk => mk.tails.any (fun r => !r.isEmpty && mayBegin ps r) || mayOccur ps mk

section

variable {mks : List (List Char)} {ps : List Piece} {mk t : List Char}

theorem rest?_of_prefix {l : List Char} (h : mk <+: l ++ t) : ∃ r, rest? mk l = some r ∧ r <+: t := by
  fun_induction rest? mk l with
  | case1 => exact ⟨[], rfl, List.nil_prefix⟩
  | case2 c mk => exact ⟨c :: mk, rfl, h⟩
  | case3 mk d l ih => exact ih (List.cons_prefix_cons.1 h).2
  | case4 c mk d l hne => exact absurd (List.cons_prefix_cons.1 h).1 hne

theorem numeralRests_of_prefix {a : List Char} (ha : ∀ c ∈ a, isNumeral c = true) (h : mk <+: a ++ t) :
    ∃ r ∈ numeralRests mk, r <+: t := by
  induction a generalizing mk with
  | nil =>
    refine ⟨mk, ?_, h⟩
    cases mk <;> simp [numeralRests]
  | cons c a ih =>
    cases mk with
    | nil => exact ⟨[], List.mem_cons_self, List.nil_prefix⟩
    | cons d mk =>
      obtain ⟨rfl, htail⟩ := List.cons_prefix_cons.1 h
      obtain ⟨r, hr, hprefix⟩ := ih (fun c hc => ha c (List.mem_cons_of_mem d hc)) htail
      refine ⟨r, List.mem_cons_of_mem _ ?_, hprefix⟩
      rwa [if_pos (ha d List.mem_cons_self)]

theorem mayBegin_of_prefix (h : Fits mks ps t) (hmk : mk <+: t) : mayBegin ps mk = true := by
  induction h generalizing mk with
  | nil => simpa [mayBegin] using hmk
  | lit s _ ih =>
    obtain ⟨r, hr, hprefix⟩ := rest?_of_prefix hmk
    simp [mayBegin, hr, ih hprefix]
  | number ha _ ih =>
    obtain ⟨r, hr, hprefix⟩ := numeralRests_of_prefix ha hmk
    exact List.any_eq_true.2 ⟨r, hr, ih hprefix⟩
  | name => rfl

theorem infix_append_cases {a : List Char} (h : mk <:+: a ++ t) :
    (∃ u, u ≠ [] ∧ u <:+ a ∧ mk <+: u ++ t) ∨ mk <:+: t := by
  by_contra hnot
  rw [not_or, not_exists] at hnot
  have hnil : ∀ u, u <:+ a → ¬mk <+: u ++ t := by
    rintro u hu hmk
    by_cases hne : u = []
    · subst hne
      exact hnot.2 hmk.isInfix
    · exact hnot.1 u ⟨hne, hu, hmk⟩
  rcases List.infix_append_iff.1 h with h | h | ⟨l₁, l₂, rfl, hl₁, hl₂⟩
  · obtain ⟨u, hmk, hu⟩ := List.infix_iff_prefix_suffix.1 h
    exact hnil u hu (hmk.trans (List.prefix_append u t))
  · exact hnot.2 h
  · exact hnil l₁ hl₁ ((List.prefix_append_right_inj l₁).2 hl₂)

theorem mayOccur_of_infix (h : Fits mks ps t) (hmem : mk ∈ mks) (hmk : mk <:+: t) : mayOccur ps mk = true := by
  induction h with
  | nil => simpa [mayOccur] using hmk
  | lit s h ih =>
    rw [mayOccur, Bool.or_eq_true]
    refine (infix_append_cases hmk).imp ?_ ih
    rintro ⟨u, hne, hu, hprefix⟩
    obtain ⟨r, hr, hrest⟩ := rest?_of_prefix hprefix
    exact List.any_eq_true.2 ⟨u, (List.mem_tails _ _).2 hu, by simp [hne, hr, mayBegin_of_prefix h hrest]⟩
  | number ha h ih =>
    rw [mayOccur, Bool.or_eq_true]
    refine (infix_append_cases hmk).imp ?_ ih
    rintro ⟨u, -, hu, hprefix⟩
    exact mayBegin_of_prefix (.number (fun c hc => ha c (hu.subset hc)) h) hprefix
  | name ha h ih =>
    rw [mayOccur, Bool.or_eq_true]
    refine (infix_append_cases hmk).imp ?_ ih
    rintro ⟨u, -, hu, hprefix⟩
    have hnot : ¬mk <+: u := fun hin => ha mk hmem (hin.isInfix.trans hu.isInfix)
    -- it goes on behind the name
    rcases List.prefix_or_prefix_of_prefix hprefix (List.prefix_append u _) with hin | ⟨r, rfl⟩
    · exact absurd hin hnot
    · have hr : r ≠ [] := by
        rintro rfl
        simp at hnot
      rw [List.prefix_append_right_inj] at hprefix
      exact List.any_eq_true.2 ⟨r, (List.mem_tails _ _).2 (List.suffix_append u r),
        by simp [hr, mayBegin_of_prefix h hprefix]⟩

theorem Fits.avoids {some : List (List Char)} (h : Fits mks ps t) (hsub : some ⊆ mks)
    (hps : ∀ mk ∈ some, mayOccur ps mk = false) : Avoids some t := by
  intro mk hmem hmk
  have hmay := mayOccur_of_infix h (hsub hmem) hmk
  rw [hps mk hmem] at hmay
  cases hmay

theorem Fits.infix_of_mem {s : String} (h : Fits mks ps t) (hs : .lit s ∈ ps) : s.toList <:+: t := by
  induction h with
  | nil => cases hs
  | lit u _ ih =>
    rcases List.mem_cons.1 hs with heq | hs
    · cases heq
      exact (List.prefix_append _ _).isInfix
    · exact (ih hs).trans (List.suffix_append _ _).isInfix
  | number _ _ ih => exact (ih ((List.mem_cons.1 hs).resolve_left nofun)).trans (List.suffix_append _ _).isInfix
  | name _ _ ih => exact (ih ((List.mem_cons.1 hs).resolve_left nofun)).trans (List.suffix_append _ _).isInfix

theorem Fits.append {qs : List Piece} {u : List Char} (h : Fits mks ps t) (hu : Fits mks qs u) :
    Fits mks (ps ++ qs) (t ++ u) := by
  induction h with
  | nil => exact hu
  | lit s _ ih => simpa using ih.lit s
  | number ha _ ih => simpa using ih.number ha
  | name ha _ ih => simpa using ih.name ha

theorem Fits.intercalate (sep : String) {pss : List (List Piece)} {ts : List (List Char)}
    (h : List.Forall₂ (Fits mks) pss ts) : Fits mks ([.lit sep].intercalate pss) (sep.toList.intercalate ts) := by
  induction h with
  | nil => exact .nil
  | @cons ps t pss ts hfits hrest ih =>
    cases hrest with
    | nil => simpa using hfits
    | cons =>
      rw [List.intercalate_cons_cons, List.intercalate_cons_cons, List.append_assoc, List.append_assoc]
      exact hfits.append (ih.lit sep)

theorem Fits.nat (n : Nat) (h : Fits mks ps t) : Fits mks (.number :: ps) ((toString n).toList ++ t) :=
  h.number fun c hc => by simp [isNumeral, isHexDigit, isDigit_of_mem_toString hc]

theorem Fits.int (i : Int) (h : Fits mks ps t) : Fits mks (.number :: ps) ((toString i).toList ++ t) := by
  refine h.number fun c hc => ?_
  have hchar := mem_toString_int hc
  rw [Bool.or_eq_true] at hchar
  rcases hchar with hchar | hchar <;> simp [isNumeral, isHexDigit, hchar]

theorem Fits.hex (n : Nat) (h : Fits mks ps t) : Fits mks (.number :: ps) ((Text.hex n).toList ++ t) :=
  h.number fun c hc => by simp [isNumeral, isHexDigit_of_mem_hex hc]

theorem Fits.bitset {w : Nat} (x : BitVec w) (h : Fits mks ps t) :
    Fits mks (.number :: ps) ((Text.bitset x).toList ++ t) :=
  h.number fun c hc => by simp [isNumeral, isHexDigit, isDigit_of_mem_bitset hc]

theorem Fits.of_append_nil (h : Fits mks ps (t ++ [])) : Fits mks ps t := by rwa [List.append_nil] at h

end

/-!
### Decimal numbers

A number as it is written with a point and an exponent, with its exact value, and a number as it is printed with a fixed
number of digits.
-/

def decimalValue (i f : List Char) (e : Int) : ℚ :=
  let digits : ℚ := Nat.ofDigitChars 10 (i ++ f) 0
  let exponent := e - f.length
  if 0 ≤ exponent then digits * 10 ^ exponent.toNat else digits / 10 ^ (-exponent).toNat

def exponent? : List Char → Option Int
  | [] => some 0
  | c :: t =>
    if c = 'e' ∨ c = 'E' then
      match t with
      | '-' :: ds => if ds ≠ [] ∧ ds.all Char.isDigit then some (-(Nat.ofDigitChars 10 ds 0 : Int)) else none
      | '+' :: ds => if ds ≠ [] ∧ ds.all Char.isDigit then some (Nat.ofDigitChars 10 ds 0) else none
      | ds => if ds ≠ [] ∧ ds.all Char.isDigit then some (Nat.ofDigitChars 10 ds 0) else none
    else none

def unsigned? (t : List Char) : Option ℚ :=
  let i := t.takeWhile Char.isDigit
  let rest := t.dropWhile Char.isDigit
  let f := if rest.head? = some '.' then rest.tail.takeWhile Char.isDigit else []
  let tail := if rest.head? = some '.' then rest.tail.dropWhile Char.isDigit else rest
  if i = [] ∧ f = [] then none else (exponent? tail).map (decimalValue i f)

/-- `float` of a text of digits, points, signs and exponents; no result is a `ValueError`. -/
def decimal? (t : List Char) : Option ℚ :=
  match strip t with
  | '-' :: u => (unsigned? u).map fun q : ℚ => -q
  | '+' :: u => unsigned? u
  | u => unsigned? u

example : decimal? "-1.25e2".toList = some (-125) ∧ decimal? ".5".toList = some (1 / 2) ∧ decimal? "1.2.3".toList = none ∧
    decimal? "e5".toList = none := by decide +kernel

def roundHalfEven (q : ℚ) : Int :=
  let n := q.floor
  if q - n < 1 / 2 then n else if 1 / 2 < q - n then n + 1 else if n % 2 = 0 then n else n + 1

/-- The format `.pf`: `p` digits behind the point. -/
def fixed (p : Nat) (q : ℚ) : String :=
  let r := (roundHalfEven ((if q < 0 then -q else q) * 10 ^ p)).toNat
  let digits := (toString (r % 10 ^ p)).toList
  (if q < 0 then "-" else "") ++ toString (r / 10 ^ p) ++
    if p = 0 then "" else "." ++ String.ofList (List.replicate (p - digits.length) '0' ++ digits)

/-- The format `.p%`. -/
def percent (p : Nat) (q : ℚ) : String := fixed p (100 * q) ++ "%"

example : fixed 4 (1 / 20) = "0.0500" ∧ fixed 2 (-1 / 8) = "-0.12" ∧ percent 0 (1 / 3) = "33%" := by decide +kernel

end GemFI.Text
