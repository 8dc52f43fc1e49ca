import Mathlib.Algebra.Order.Ring.Nat
import Mathlib.Data.List.Sort
import Mathlib.Data.Rat.Defs

/-!
# The decomposition of the escapes

`decompose` counts the outcomes of the campaigns by the mechanism through which a fault escapes; every outcome goes to
at most one (`tallies_count`).  An escape goes to none if no case of `classify_escape_mechanism` is for its protection
and its number of bits, so the counts add up to the number of escapes exactly if every escape is covered
(`decompose_total_iff`).

The rows are those that the reader of the tables gives; a field that its table does not have, or an empty number, is
`none`.
-/

namespace GemFI.Tools.EscapeDecomp

inductive Mechanism where
  | A | B | C | D | E | F
  deriving DecidableEq, Repr

def Mechanism.all : List Mechanism := [.A, .B, .C, .D, .E, .F]

def UNPROTECTED_UNITS : List String :=
  ["prf", "rat", "freelist", "rob", "iq", "lsq_fwd", "l1_tlb", "l2_tlb", "exec", "fsu", "mem", "l1d", "l2"]

def SOURCE_UNIT_OVERRIDES : List (String × String) :=
  [("m1-formal-num", "rat"), ("m1-formal-both", "rat"), ("h2-window", "prf")]

/-- The unit of a campaign: the longest unit that its name begins with.  The set is sorted by length only, but of two units
of one length a name begins with at most one. -/
def unit_from_source (src : String) : String :=
  match SOURCE_UNIT_OVERRIDES.lookup src with
  | some u => u
  | none =>
    let byLength := UNPROTECTED_UNITS.insertionSort fun u v => v.length ≤ u.length
    (byLength.find? fun u => u.toList.isPrefixOf src.toList).getD src

/-- The mechanism of an outcome, if it is an escape. -/
def classify_escape_mechanism (unit protection : String) (bits : Int) (classification : String) : Option Mechanism :=
  if classification ≠ "SDC" ∧ classification ≠ "Latent" then none
  else if protection = "sed" ∧ 2 ≤ bits then some .B
  else if protection = "secded" ∧ 3 ≤ bits then some .C
  else if (protection = "secded" ∨ protection = "secded_poison") ∧ bits = 2 then none
  else if protection = "none" then if unit_from_source unit ∈ UNPROTECTED_UNITS then some .A else none
  else none

/-! ### The tables -/

structure L1dRow where
  protection : Option String
  bits : Option Int
  classification : Option String
  deriving DecidableEq, Repr

/-- A row of the `cells.csv` of a campaign, which has the numbers of its runs. -/
structure CellRow where
  SDC : Option Int
  Latent : Option Int
  deriving DecidableEq, Repr

structure CampaignDir where
  name : String
  cells : Option (List CellRow)
  deriving DecidableEq, Repr

structure Tables where
  l1d : List (String × List L1dRow)
  campaigns : List CampaignDir
  deriving DecidableEq, Repr

/-! ### The tally -/

structure MechTally where
  count : Nat := 0
  sources : List String := []
  deriving DecidableEq, Repr

/-- The tallies by mechanism; one that is not there yet is empty. -/
abbrev Mechs := Mechanism → MechTally

def add (mechs : Mechs) (m : Option Mechanism) (src : String) : Mechs :=
  match m with
  | none => mechs
  | some m =>
    let e := mechs m
    Function.update mechs m
      { count := e.count + 1, sources := if src ∈ e.sources then e.sources else e.sources ++ [src] }

def addL1d (mechs : Mechs) (src : String) (row : L1dRow) : Mechs :=
  add mechs (classify_escape_mechanism "l1d" (row.protection.getD "none") (row.bits.getD 1) (row.classification.getD ""))
    src

def CellRow.n (row : CellRow) : Int := row.SDC.getD 0 + row.Latent.getD 0

def addCell (mechs : Mechs) (src : String) (row : CellRow) : Mechs :=
  (List.range row.n.toNat).foldl
    (fun mechs _ => add mechs (classify_escape_mechanism (unit_from_source src) "none" 1 "SDC") src) mechs

def addCampaign (mechs : Mechs) (camp : CampaignDir) : Mechs :=
  match camp.cells with
  | none => mechs
  | some rows => rows.foldl (fun mechs row => addCell mechs camp.name row) mechs

def tallies (t : Tables) : Mechs :=
  let mechs : Mechs := fun _ => {}
  let mechs := t.l1d.foldl (fun mechs file => file.2.foldl (fun mechs row => addL1d mechs file.1 row) mechs) mechs
  t.campaigns.foldl addCampaign mechs

structure Share where
  count : Nat
  share : ℚ
  sources : String

def decompose (t : Tables) (m : Mechanism) : Share :=
  let mechs := tallies t
  let total := (Mechanism.all.map fun m => (mechs m).count).sum
  { count := (mechs m).count
    share := if total = 0 then 0 else (mechs m).count / total
    sources := ",".intercalate ((mechs m).sources.mergeSort fun a b => decide (a ≤ b)) }

/-! ### The outcomes -/

structure Outcome where
  unit : String
  protection : String
  bits : Int
  classification : String
  src : String
  deriving DecidableEq, Repr

def Outcome.mechanism (o : Outcome) : Option Mechanism :=
  classify_escape_mechanism o.unit o.protection o.bits o.classification

def L1dRow.outcome (src : String) (row : L1dRow) : Outcome :=
  ⟨"l1d", row.protection.getD "none", row.bits.getD 1, row.classification.getD "", src⟩

def CellRow.outcomes (src : String) (row : CellRow) : List Outcome :=
  List.replicate row.n.toNat ⟨unit_from_source src, "none", 1, "SDC", src⟩

def CampaignDir.outcomes (camp : CampaignDir) : List Outcome := (camp.cells.getD []).flatMap (CellRow.outcomes camp.name)

def outcomes (t : Tables) : List Outcome :=
  (t.l1d.flatMap fun file => file.2.map (L1dRow.outcome file.1)) ++ t.campaigns.flatMap CampaignDir.outcomes

def record (mechs : Mechs) (o : Outcome) : Mechs := add mechs o.mechanism o.src

private theorem addCell_eq (mechs : Mechs) (src : String) (row : CellRow) :
    addCell mechs src row = (row.outcomes src).foldl record mechs := by
  unfold addCell CellRow.outcomes
  generalize row.n.toNat = n
  induction n with
  | zero => rfl
  | succ n ih =>
    rw [List.range_succ, List.foldl_append, ih, List.replicate_succ', List.foldl_append]
    rfl

private theorem addCampaign_eq (mechs : Mechs) (camp : CampaignDir) :
    addCampaign mechs camp = camp.outcomes.foldl record mechs := by
  unfold addCampaign CampaignDir.outcomes
  cases camp.cells with
  | none => rfl
  | some rows =>
    rw [Option.getD_some, List.foldl_flatMap]
    exact congrFun (congrArg (fun f => List.foldl f mechs) (funext₂ fun mechs row => addCell_eq mechs camp.name row)) rows

theorem tallies_eq (t : Tables) : tallies t = (outcomes t).foldl record fun _ => {} := by
  have hl1d : ∀ mechs : Mechs,
      t.l1d.foldl (fun mechs file => file.2.foldl (fun mechs row => addL1d mechs file.1 row) mechs) mechs =
        (t.l1d.flatMap fun file => file.2.map (L1dRow.outcome file.1)).foldl record mechs := by
    intro mechs
    rw [List.foldl_flatMap]
    simp only [List.foldl_map]
    rfl
  have hcamp : ∀ mechs : Mechs,
      t.campaigns.foldl addCampaign mechs = (t.campaigns.flatMap CampaignDir.outcomes).foldl record mechs := by
    intro mechs
    rw [List.foldl_flatMap, funext₂ addCampaign_eq]
  unfold tallies outcomes
  rw [List.foldl_append, ← hl1d, hcamp]

private theorem add_count (mechs : Mechs) (m' : Option Mechanism) (src : String) (m : Mechanism) :
    (add mechs m' src m).count = (mechs m).count + if m' = some m then 1 else 0 := by
  unfold add
  cases m' with
  | none => rfl
  | some m' =>
    dsimp only
    by_cases h : m' = m
    · subst h
      rw [Function.update_self, if_pos rfl]
    · rw [Function.update_of_ne (Ne.symm h), if_neg fun he => h (Option.some.inj he), Nat.add_zero]

theorem tallies_count (t : Tables) (m : Mechanism) :
    (tallies t m).count = (outcomes t).countP fun o => o.mechanism = some m := by
  have hrun : ∀ (os : List Outcome) (mechs : Mechs),
      (os.foldl record mechs m).count = (mechs m).count + os.countP fun o => o.mechanism = some m := by
    intro os
    induction os with
    | nil => intro mechs; rfl
    | cons o os ih =>
      intro mechs
      rw [List.foldl_cons, ih, record, add_count, List.countP_cons]
      simp only [decide_eq_true_eq]
      omega
  rw [tallies_eq, hrun]
  exact Nat.zero_add _

private theorem sum_countP_mechanism (os : List Outcome) :
    (Mechanism.all.map fun m => os.countP fun o => o.mechanism = some m).sum =
      os.countP fun o => o.mechanism.isSome := by
  induction os with
  | nil => rfl
  | cons o os ih =>
    simp only [List.countP_cons, Mechanism.all, List.map_cons, List.map_nil, List.sum_cons, List.sum_nil] at ih ⊢
    rcases o.mechanism with _ | m
    · simpa using ih
    · cases m <;> simp <;> omega

/-! ### Escapes -/

/-- An escape: silent or latent, and not one of the double errors that a SECDED code contains. -/
def Outcome.Escape (o : Outcome) : Prop :=
  (o.classification = "SDC" ∨ o.classification = "Latent") ∧
    ¬((o.protection = "secded" ∨ o.protection = "secded_poison") ∧ o.bits = 2)

def Outcome.Covered (o : Outcome) : Prop :=
  (o.protection = "sed" ∧ 2 ≤ o.bits) ∨ (o.protection = "secded" ∧ 3 ≤ o.bits) ∨
    (o.protection = "none" ∧ unit_from_source o.unit ∈ UNPROTECTED_UNITS)

instance (o : Outcome) : Decidable o.Escape := inferInstanceAs (Decidable (_ ∧ _))

instance (o : Outcome) : Decidable o.Covered := inferInstanceAs (Decidable (_ ∨ _))

theorem mechanism_isSome_iff (o : Outcome) : o.mechanism.isSome = true ↔ o.Escape ∧ o.Covered := by
  unfold Outcome.mechanism classify_escape_mechanism Outcome.Escape Outcome.Covered
  by_cases hclass : o.classification = "SDC" ∨ o.classification = "Latent"
  · rw [if_neg fun h => hclass.elim h.1 h.2]
    by_cases hsed : o.protection = "sed"
    · by_cases hbits : 2 ≤ o.bits <;> simp [hsed, hbits, hclass]
    · by_cases hsecded : o.protection = "secded"
      · by_cases hbits : 3 ≤ o.bits
        · have h2 : o.bits ≠ 2 := by omega
          simp [hsecded, hbits, hclass, h2]
        · simp [hsecded, hbits, hclass]
      · by_cases hnone : o.protection = "none"
        · by_cases hunit : unit_from_source o.unit ∈ UNPROTECTED_UNITS <;> simp [hnone, hunit, hclass]
        · simp [hsed, hsecded, hnone]
  · rw [if_pos (not_or.1 hclass)]
    simp [hclass]

private theorem countP_eq_countP_iff {α : Type} {p q : α → Bool} (hpq : ∀ x, p x = true → q x = true) (l : List α) :
    l.countP p = l.countP q ↔ ∀ x ∈ l, q x = true → p x = true := by
  have hle : ∀ l : List α, l.countP p ≤ l.countP q := fun l => List.countP_mono_left fun x _ => hpq x
  induction l with
  | nil => simp
  | cons x l ih =>
    have hl := hle l
    rw [List.countP_cons, List.countP_cons, List.forall_mem_cons]
    refine Iff.trans ?_ (and_congr_right fun _ => ih)
    by_cases hq : q x = true
    · by_cases hp : p x = true
      · simp [hp, hq]
      · simp only [hp, hq, if_true, Bool.false_eq_true, if_false, forall_const, false_and, iff_false]
        omega
    · have hp : ¬p x = true := fun h => hq (hpq x h)
      simp [hp, hq]

/-- The counts over all mechanisms add up to the number of escapes exactly if every escape is covered. -/
theorem decompose_total_iff (t : Tables) :
    (∀ m, (decompose t m).count = (outcomes t).countP fun o => o.mechanism = some m) ∧
    ((Mechanism.all.map fun m => (decompose t m).count).sum = (outcomes t).countP (fun o => decide o.Escape) ↔
      ∀ o ∈ outcomes t, o.Escape → o.Covered) := by
  refine ⟨tallies_count t, ?_⟩
  have hsum : (Mechanism.all.map fun m => (decompose t m).count).sum =
      (outcomes t).countP fun o => o.mechanism.isSome := by
    rw [← sum_countP_mechanism]
    exact congrArg List.sum (List.map_congr_left fun m _ => tallies_count t m)
  rw [hsum, countP_eq_countP_iff fun o h => decide_eq_true ((mechanism_isSome_iff o).1 h).1]
  refine forall₂_congr fun o _ => ?_
  rw [decide_eq_true_eq, mechanism_isSome_iff]
  exact ⟨fun h he => (h he).2, fun h he => ⟨he, h he⟩⟩

/-- A triple error under SECDED with poison that gives a silent corruption is counted nowhere. -/
theorem poison_triple_uncounted :
    let t : Tables := { l1d := [("rep0", [⟨some "secded_poison", some 3, some "SDC"⟩])], campaigns := [] }
    (outcomes t).countP (fun o => decide o.Escape) = 1 ∧ ∀ m ∈ Mechanism.all, (decompose t m).count = 0 := by
  decide +kernel

end GemFI.Tools.EscapeDecomp
