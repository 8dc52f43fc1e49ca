import Mathlib.Data.List.Count

/-!
# The classes of read_trace_stats

Each fault of an injection log has the number of reads of the last poll before the next injection.  `classify` counts
a fault as Benign if its value was never read and as Masked otherwise.  A crash then moves one of the masked faults to
Crash, also if there is none; and the mismatches of the kernel are added as SDC without being taken from the masked
faults.  So the four counts are those of the faults only if a crash has a fault that was read, and a run without a
crash has no mismatch (`classify_total_iff`).
-/

namespace GemFI.Tools.ReadTraceStats

structure TracedFault where
  cycle : Nat
  phys : Nat
  liveness : String
  fault : String
  reads : Nat := 0
  overwritten : Bool := false
  deriving DecidableEq, Repr

structure TraceClasses where
  Benign : Nat := 0
  Masked : Nat := 0
  SDC : Nat := 0
  Crash : Nat := 0
  deriving DecidableEq, Repr

namespace TraceClasses

def count (c : TraceClasses) (f : TracedFault) : TraceClasses :=
  if f.reads = 0 then { c with Benign := c.Benign + 1 } else { c with Masked := c.Masked + 1 }

def total (c : TraceClasses) : Nat := c.Benign + c.Masked + c.SDC + c.Crash

end TraceClasses

def classify (faults : List TracedFault) (kernel_fails : Nat) (crashed : Bool) : TraceClasses :=
  let classes := faults.foldl TraceClasses.count {}
  -- the run crashed, so at least one fault propagated
  let classes := if crashed then { classes with Crash := 1, Masked := classes.Masked - 1 } else classes
  if 0 < kernel_fails ∧ crashed = false then { classes with SDC := kernel_fails } else classes

/-! ### The counts -/

theorem foldl_count (faults : List TracedFault) (c : TraceClasses) :
    faults.foldl TraceClasses.count c =
      { c with
        Benign := c.Benign + faults.countP fun f => f.reads = 0
        Masked := c.Masked + faults.countP fun f => f.reads ≠ 0 } := by
  induction faults generalizing c with
  | nil => rfl
  | cons f faults ih =>
    rw [List.foldl_cons, ih, List.countP_cons, List.countP_cons, TraceClasses.count]
    by_cases hreads : f.reads = 0
    · simp [hreads, Nat.add_assoc, Nat.add_comm 1]
    · simp [hreads, Nat.add_assoc, Nat.add_comm 1]

theorem countP_reads (faults : List TracedFault) :
    (faults.countP fun f => f.reads = 0) + (faults.countP fun f => f.reads ≠ 0) = faults.length := by
  rw [List.length_eq_countP_add_countP (fun f => decide (f.reads = 0))]
  simp

theorem classify_total (faults : List TracedFault) (kernel_fails : Nat) (crashed : Bool) :
    (classify faults kernel_fails crashed).total =
      if crashed then (faults.countP fun f => f.reads = 0) + ((faults.countP fun f => f.reads ≠ 0) - 1) + 1
      else faults.length + kernel_fails := by
  rw [classify, foldl_count, ← countP_reads faults]
  simp only [Nat.zero_add, TraceClasses.total]
  cases crashed with
  | true => simp
  | false =>
    by_cases hfails : 0 < kernel_fails
    · simp [hfails]
    · have hzero : kernel_fails = 0 := by omega
      simp [hzero]

/-- The four counts sum to the number of faults exactly if a crash has a fault that was read and a run without a crash has
no mismatch. -/
theorem classify_total_iff (faults : List TracedFault) (kernel_fails : Nat) (crashed : Bool) :
    (classify faults kernel_fails crashed).total = faults.length ↔
      (crashed = true → ∃ f ∈ faults, f.reads ≠ 0) ∧ (crashed = false → kernel_fails = 0) := by
  have hsum := countP_reads faults
  have hread : 0 < (faults.countP fun f => f.reads ≠ 0) ↔ ∃ f ∈ faults, f.reads ≠ 0 := by
    simp only [List.countP_pos_iff, decide_eq_true_eq]
  rw [classify_total, ← hread]
  cases crashed with
  | true =>
    rw [if_pos rfl]
    simp only [true_implies, Bool.true_eq_false, false_implies, and_true]
    omega
  | false =>
    simp only [Bool.false_eq_true, if_false, false_implies, true_implies, true_and]
    omega

/-- Two faults, one of them read, give two classes after a crash but five with three mismatches, and a fault that is not
read gives two after a crash. -/
theorem mismatches_counted_twice :
    let unread : TracedFault := { cycle := 1, phys := 7, liveness := "ALLOCATED", fault := "bit_flip" }
    let faults : List TracedFault := [unread, { unread with cycle := 9, reads := 2 }]
    (classify faults 0 true).total = 2 ∧ (classify faults 3 false).total = 5 ∧
    (classify [unread] 0 true).total = 2 := by
  decide

end GemFI.Tools.ReadTraceStats
