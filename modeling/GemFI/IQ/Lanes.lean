import GemFI.IQ.Profile

/-!
# The buffers of the lane profile

`harp_fp_value_classes_of` writes the class of each lane into an array of eight entries of its caller, and copies a
vector register into a buffer of 16 bytes.  It asks for room once for each source, though a vector register has two
lanes, and never how long a register is.

Here the loop counts the lanes as the source does and records each write; the lanes of `IQ/Profile.lean` are what the
array would hold if it were long enough (`laneLoop_eq`).  The writes are inside the buffers, and there are at most
eight lanes, exactly if every vector register that is read finds two free entries and is not longer than 16 bytes
(`lane_writes_inside_iff`).
-/

namespace GemFI.IQ.Profile

open Cov Issue Processor

variable {cfg : Config} {vecRegBytes : Nat}

/-- A write: the entry `i` of `out`, or the byte `i` of `blob`. -/
inductive LaneWrite where
  | out (i : Nat) (cls : Int)
  | blob (i : Nat)
  deriving DecidableEq, Repr

/-- `int out[8]` and `uint8_t blob[16]`. -/
def LaneWrite.Inside : LaneWrite → Prop
  | .out i _ => i < 8
  | .blob i => i < 16

instance (w : LaneWrite) : Decidable w.Inside :=
  match w with
  | .out i _ => inferInstanceAs (Decidable (i < 8))
  | .blob i => inferInstanceAs (Decidable (i < 16))

namespace Processor

/-- The loop over the sources from the counter `n_lanes` on: the writes, and the counter that is returned. -/
def laneLoop : List PhysReg → Nat → Processor cfg vecRegBytes → List LaneWrite × Nat
  | [], n_lanes, _ => ([], n_lanes)
  | preg :: rest, n_lanes, s =>
    if 8 ≤ n_lanes then ([], n_lanes)
    else
      let v := (s.getReg preg).1
      match preg.classValue with
      | .floatReg | .vecElem =>
        let tail := laneLoop rest (n_lanes + 1) (s.getReg preg).2
        (.out n_lanes (harp_fp_class_of v.1) :: tail.1, tail.2)
      | .vecReg =>
        let tail := laneLoop rest (n_lanes + 2) (s.getReg preg).2
        -- the whole register is copied into `blob`
        ((List.range vecRegBytes).map .blob ++ .out n_lanes (harp_fp_class_of v.1) ::
          .out (n_lanes + 1) (harp_fp_class_of v.2) :: tail.1, tail.2)
      | _ => laneLoop rest n_lanes s

def laneWrites (s : Processor cfg vecRegBytes) (inst : RenamedInst) : List LaneWrite × Nat := laneLoop inst.regs 0 s

end Processor

def LaneWrite.lane? : LaneWrite → Option Int
  | .out _ cls => some cls
  | .blob _ => none

theorem laneLoop_eq (regs : List PhysReg) (out : List Int) (s : Processor cfg vecRegBytes) :
    (fpLoop regs out s).1 = out ++ (laneLoop regs out.length s).1.filterMap LaneWrite.lane? ∧
    (laneLoop regs out.length s).2 = (fpLoop regs out s).1.length := by
  induction regs generalizing out s with
  | nil => simp [fpLoop, laneLoop]
  | cons preg regs ih =>
    unfold fpLoop laneLoop
    by_cases hfull : 8 ≤ out.length
    · simp [hfull]
    · rw [if_neg hfull, if_neg hfull]
      have hone := fun cls => ih (out ++ [cls]) (s.getReg preg).2
      have htwo := fun cls cls' => ih (out ++ [cls, cls']) (s.getReg preg).2
      simp only [List.length_append, List.length_cons, List.length_nil, Nat.zero_add, Nat.reduceAdd] at hone htwo
      cases preg.classValue <;> dsimp only <;> first
        | exact ih out s
        | (refine ⟨(hone _).1.trans ?_, (hone _).2⟩
           simp [LaneWrite.lane?])
        | (refine ⟨(htwo _ _).1.trans ?_, (htwo _ _).2⟩
           simp [LaneWrite.lane?])

/-! ### The bound -/

def laneCount : RegClassType → Nat
  | .floatReg | .vecElem => 1
  | .vecReg => 2
  | _ => 0

def lanes (regs : List PhysReg) : Nat := (regs.map fun preg => laneCount preg.classValue).sum

/-- Every vector register that is read with `n` lanes before the sources finds two free entries, and fits into the
buffer. -/
def Fits (vecRegBytes n : Nat) (regs : List PhysReg) : Prop :=
  ∀ pre preg rest, regs = pre ++ preg :: rest → preg.classValue = .vecReg → n + lanes pre < 8 →
    n + lanes pre + 2 ≤ 8 ∧ vecRegBytes ≤ 16

theorem fits_cons {n : Nat} {preg : PhysReg} {regs : List PhysReg} :
    Fits vecRegBytes n (preg :: regs) ↔
      (preg.classValue = .vecReg → n < 8 → n + 2 ≤ 8 ∧ vecRegBytes ≤ 16) ∧
      Fits vecRegBytes (n + laneCount preg.classValue) regs := by
  have hlanes : ∀ pre, n + lanes (preg :: pre) = n + laneCount preg.classValue + lanes pre := by
    intro pre
    rw [lanes, List.map_cons, List.sum_cons, ← Nat.add_assoc, lanes]
  constructor
  · intro h
    refine ⟨fun hvec hlt => h [] preg regs rfl hvec hlt, fun pre q rest hsplit hvec hlt => ?_⟩
    have hq := h (preg :: pre) q rest (by rw [hsplit]; rfl) hvec
    rw [hlanes] at hq
    exact hq hlt
  · rintro ⟨hhead, htail⟩ pre q rest hsplit hvec hlt
    cases pre with
    | nil =>
      obtain ⟨rfl, -⟩ := List.cons.inj hsplit
      exact hhead hvec hlt
    | cons p pre =>
      obtain ⟨rfl, hregs⟩ := List.cons.inj hsplit
      rw [hlanes] at hlt ⊢
      exact htail pre q rest hregs hvec hlt

theorem fits_full {n : Nat} (hfull : 8 ≤ n) (regs : List PhysReg) : Fits vecRegBytes n regs := by
  intro pre q rest _ _ hlt
  omega

private theorem blobs_inside_iff (n : Nat) : (∀ w ∈ (List.range n).map LaneWrite.blob, w.Inside) ↔ n ≤ 16 := by
  rw [List.forall_mem_map]
  constructor
  · intro h
    by_contra hlong
    exact absurd (h 16 (List.mem_range.2 (by omega))) (Nat.lt_irrefl 16)
  · intro hn i hi
    have hlt := List.mem_range.1 hi
    exact Nat.lt_of_lt_of_le hlt hn

theorem laneLoop_inside_iff (regs : List PhysReg) {n : Nat} (hn : n ≤ 8) (s : Processor cfg vecRegBytes) :
    ((∀ w ∈ (laneLoop regs n s).1, w.Inside) ∧ (laneLoop regs n s).2 ≤ 8) ↔ Fits vecRegBytes n regs := by
  induction regs generalizing n s with
  | nil =>
    refine iff_of_true ⟨fun w hw => (List.not_mem_nil hw).elim, hn⟩ fun pre q rest hsplit => ?_
    exact absurd hsplit (by simp)
  | cons preg regs ih =>
    by_cases hfull : 8 ≤ n
    · unfold laneLoop
      rw [if_pos hfull]
      exact iff_of_true ⟨fun w hw => (List.not_mem_nil hw).elim, hn⟩ (fits_full hfull _)
    · have hone := ih (n := n + 1) (by omega) (s.getReg preg).2
      rw [fits_cons]
      unfold laneLoop
      rw [if_neg hfull]
      -- a source of one lane finds an entry, since the array is not full
      have hentry : ∀ cls, (LaneWrite.out n cls).Inside := fun cls => Nat.lt_of_not_le hfull
      cases preg.classValue with
      | floatReg | vecElem =>
        dsimp only
        rw [List.forall_mem_cons, and_iff_right (hentry _), hone]
        simp [laneCount]
      | vecReg =>
        dsimp only [laneCount]
        rw [List.forall_mem_append, List.forall_mem_cons, List.forall_mem_cons, blobs_inside_iff]
        by_cases htwo : n + 2 ≤ 8
        · have hentry' : ∀ cls, (LaneWrite.out (n + 1) cls).Inside := fun cls => htwo
          have htail := ih htwo (s.getReg preg).2
          rw [and_iff_right (hentry _), and_iff_right (hentry' _), and_assoc, htail]
          exact and_congr_left fun _ => ⟨fun h _ _ => ⟨htwo, h⟩, fun h => (h rfl (by omega)).2⟩
        · refine iff_of_false (fun h => ?_) fun h => htwo (h.1 rfl (by omega)).1
          have hbehind : n + 1 < 8 := h.1.2.2.1
          omega
      | _ =>
        dsimp only [laneCount]
        rw [ih hn s]
        simp

/-- For every instruction, whatever the classes of its sources: the writes are inside the buffers, and at most eight lanes
are returned, exactly if the vector registers fit. -/
theorem lane_writes_inside_iff (s : Processor cfg vecRegBytes) (inst : RenamedInst) :
    ((∀ w ∈ (s.laneWrites inst).1, w.Inside) ∧ (s.laneWrites inst).2 ≤ 8) ↔ Fits vecRegBytes 0 inst.regs :=
  laneLoop_inside_iff inst.regs (Nat.zero_le 8) s

private def zeroed (vecRegBytes : Nat) : Processor tiny vecRegBytes :=
  ⟨{ reg := fun _ _ => 0, vecReg := fun _ _ => 0 }, fun _ => 0, none⟩

private def sources (classes : List RegClassType) : RenamedInst :=
  { seqNum := 0, opClass := .FloatAdd, srcs := classes.map fun c => ⟨c, ⟨c, 0⟩⟩ }

/-- Behind a scalar source, the fourth of four vector sources of 16 bytes is read with one entry left, and its second lane
is written behind the array.  A vector register of 256 bytes is copied over the end of the buffer. -/
theorem ninth_lane_written :
    LaneWrite.out 8 4 ∈ ((zeroed 16).laneWrites (sources [.floatReg, .vecReg, .vecReg, .vecReg, .vecReg])).1 ∧
    ((zeroed 16).laneWrites (sources [.floatReg, .vecReg, .vecReg, .vecReg, .vecReg])).2 = 9 ∧
    LaneWrite.blob 255 ∈ ((zeroed 256).laneWrites (sources [.vecReg])).1 := by
  decide +kernel

end GemFI.IQ.Profile
