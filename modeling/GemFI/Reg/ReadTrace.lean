import GemFI.Lib.Lists
import GemFI.Lib.Run
import GemFI.Reg.CHAOSPhysReg

/-!
# The read trace of an injected register

After an injection the register file counts the reads of the register until it is written.  But the check of the
injector reads and writes an integer register as the program does, and a write through the pointer of `getWritableReg`
is not seen.  The count is that of the reads of the program before its first write, all along, exactly if the check
leaves the register alone until a `setReg` of the program has ended the trace, and no read comes between a write
through the pointer and the first `setReg` (`read_trace_iff`).
-/

namespace GemFI.Reg

open PhysRegFile CHAOSPhysReg

variable {cfg : PhysRegConfig}

/-! ### Reads and writes of the program -/

namespace PhysRegFile.RegOp

def reads (slot : Slot) : RegOp → Bool
  | .getReg cls idx => decide (slot = (.scalar cls, idx))
  | .getRegBuf cls idx => decide (slot = (cls, idx))
  | _ => false

def sets (slot : Slot) : RegOp → Bool
  | .setReg cls idx _ => decide (slot = (.scalar cls, idx))
  | .setRegBuf cls idx _ => decide (slot = (cls, idx))
  | _ => false

def writes (slot : Slot) : RegOp → Bool
  | .getWritableReg idx _ => decide (slot = (.VecRegClass, idx))
  | op => op.sets slot

theorem writes_of_sets {slot : Slot} {op : RegOp} (h : op.sets slot = true) : op.writes slot = true := by
  cases op <;> first | exact h | simp [sets] at h

theorem not_writes_of_reads {slot : Slot} {op : RegOp} (h : op.reads slot = true) : op.writes slot = false := by
  cases op <;> first | rfl | simp [reads] at h

/-! Lists of accesses `a`, each with its operation `op a`. -/

section

variable {α : Type} (op : α → RegOp) (slot : Slot)

def writtenIn (l : List α) : Bool := l.any fun a => (op a).writes slot

def setIn (l : List α) : Bool := l.any fun a => (op a).sets slot

/-- The number of accesses of a kind before the register is written. -/
def countBeforeWrite (p : α → Bool) (l : List α) : Nat := (l.takeWhile fun a => !(op a).writes slot).countP p

variable {op slot}

theorem writtenIn_of_setIn {l : List α} (h : setIn op slot l = true) : writtenIn op slot l = true := by
  obtain ⟨a, ha, hsets⟩ := List.any_eq_true.1 h
  exact List.any_eq_true.2 ⟨a, ha, writes_of_sets hsets⟩

theorem setIn_concat (l : List α) (a : α) : setIn op slot (l ++ [a]) = (setIn op slot l || (op a).sets slot) := by
  rw [setIn, List.any_append, List.any_cons, List.any_nil, Bool.or_false]
  rfl

theorem countBeforeWrite_concat {p : α → Bool} {a : α} (hp : p a = true → (op a).reads slot = true) (l : List α) :
    countBeforeWrite op slot p (l ++ [a]) =
      countBeforeWrite op slot p l + if p a && !writtenIn op slot l then 1 else 0 := by
  have hstop : p a = true → (op a).writes slot = false := fun h => not_writes_of_reads (hp h)
  exact countP_takeWhile_concat hstop l

end

end PhysRegFile.RegOp

/-- What happens after an injection: an access of the program, or the check of the injector. -/
inductive TraceEvent where
  | access (op : RegOp)
  | check (now : Nat)

def TraceEvent.program : TraceEvent → Option RegOp
  | .access op => some op
  | .check _ => none

structure Traced (cfg : PhysRegConfig) where
  state : CHAOSPhysReg cfg
  past : List TraceEvent := []

namespace Traced

def step (t : Traced cfg) (e : TraceEvent) : Traced cfg :=
  { state :=
      match e with
      | .access op => t.state.access op
      | .check now => checkPermanent t.state now
    past := t.past ++ [e] }

def ops (t : Traced cfg) : List RegOp := t.past.filterMap TraceEvent.program

def readsBeforeWrite (t : Traced cfg) (slot : Slot) : Nat := RegOp.countBeforeWrite id slot (·.reads slot) t.ops

def written (t : Traced cfg) (slot : Slot) : Bool := RegOp.writtenIn id slot t.ops

def overwritten (t : Traced cfg) (slot : Slot) : Bool := RegOp.setIn id slot t.ops

theorem ops_access (t : Traced cfg) (op : RegOp) : (t.step (.access op)).ops = t.ops ++ [op] := by
  simp [ops, step, TraceEvent.program]

theorem ops_check (t : Traced cfg) (now : Nat) : (t.step (.check now)).ops = t.ops := by
  simp [ops, step, TraceEvent.program]

end Traced

/-! ### The trace of the register file -/

variable {n : Nat} {r : PhysRegFile n}

theorem countRead_trace {slot : Slot} (htrace : r.trace = some slot) (other : Slot) :
    (r.countRead other).trace = some slot ∧ (r.countRead other).trace_overwritten = r.trace_overwritten ∧
    (r.countRead other).reads_before_overwrite =
      r.reads_before_overwrite + if decide (slot = other) && !r.trace_overwritten then 1 else 0 := by
  unfold countRead
  rw [htrace]
  cases hover : r.trace_overwritten <;> by_cases hat : slot = other <;> simp [hat, hover, htrace]

theorem markWritten_trace {slot : Slot} (htrace : r.trace = some slot) (other : Slot) :
    (r.markWritten other).trace = some slot ∧
    (r.markWritten other).trace_overwritten = (r.trace_overwritten || decide (slot = other)) ∧
    (r.markWritten other).reads_before_overwrite = r.reads_before_overwrite := by
  unfold markWritten
  rw [htrace]
  by_cases hat : slot = other <;> simp [hat, htrace]

theorem access_trace {slot : Slot} (htrace : r.trace = some slot) (op : RegOp) :
    (r.access op).trace = some slot ∧ (r.access op).trace_overwritten = (r.trace_overwritten || op.sets slot) ∧
    (r.access op).reads_before_overwrite =
      r.reads_before_overwrite + if op.reads slot && !r.trace_overwritten then 1 else 0 := by
  cases op with
  | getReg cls idx =>
    obtain ⟨h1, h2, h3⟩ := countRead_trace htrace (.scalar cls, idx)
    exact ⟨h1, h2.trans (Bool.or_false _).symm, h3⟩
  | getRegBuf cls idx =>
    obtain ⟨h1, h2, h3⟩ := countRead_trace htrace (cls, idx)
    exact ⟨h1, h2.trans (Bool.or_false _).symm, h3⟩
  | setReg cls idx val => exact markWritten_trace htrace (.scalar cls, idx)
  | setRegBuf cls idx buf =>
    cases cls with
    | scalar c => exact markWritten_trace htrace (.scalar c, idx)
    | VecRegClass => exact markWritten_trace htrace (.VecRegClass, idx)
  | getWritableReg idx buf => exact ⟨htrace, (Bool.or_false _).symm, rfl⟩

theorem access_untraced (htrace : r.trace = none) (op : RegOp) :
    (r.access op).trace = none ∧ (r.access op).reads_before_overwrite = r.reads_before_overwrite := by
  have hread : ∀ slot, (r.countRead slot).trace = none ∧
      (r.countRead slot).reads_before_overwrite = r.reads_before_overwrite := by
    intro slot
    unfold countRead
    rw [if_neg (by simp [htrace])]
    exact ⟨htrace, rfl⟩
  have hwrite : ∀ slot, (r.markWritten slot).trace = none ∧
      (r.markWritten slot).reads_before_overwrite = r.reads_before_overwrite := by
    intro slot
    unfold markWritten
    rw [if_neg (by simp [htrace])]
    exact ⟨htrace, rfl⟩
  cases op with
  | getReg cls idx => exact hread (.scalar cls, idx)
  | getRegBuf cls idx => exact hread (cls, idx)
  | setReg cls idx val => exact hwrite (.scalar cls, idx)
  | setRegBuf cls idx buf =>
    cases cls with
    | scalar c => exact hwrite (.scalar c, idx)
    | VecRegClass => exact hwrite (.VecRegClass, idx)
  | getWritableReg idx buf => exact ⟨htrace, rfl⟩

def hits (slot : Slot) (e : (Nat × Nat) × PermanentFault) : Bool := decide (slot = (.scalar .IntRegClass, e.1.2))

theorem reapplyEntry_trace {slot : Slot} (htrace : r.trace = some slot) (e : (Nat × Nat) × PermanentFault) :
    (reapplyEntry r e).trace = some slot ∧
    (reapplyEntry r e).trace_overwritten = (r.trace_overwritten || hits slot e) ∧
    (reapplyEntry r e).reads_before_overwrite =
      r.reads_before_overwrite + if hits slot e && !r.trace_overwritten then 1 else 0 := by
  obtain ⟨h1, h2, h3⟩ := countRead_trace htrace (.scalar .IntRegClass, e.1.2)
  obtain ⟨h4, h5, h6⟩ := markWritten_trace h1 (.scalar .IntRegClass, e.1.2)
  exact ⟨h4, h5.trans (by rw [h2]; rfl), h6.trans h3⟩

theorem foldl_reapply_trace (l : FaultMap) {slot : Slot} (htrace : r.trace = some slot) :
    (l.foldl reapplyEntry r).trace = some slot ∧
    (l.foldl reapplyEntry r).trace_overwritten = (r.trace_overwritten || l.any (hits slot)) ∧
    (l.foldl reapplyEntry r).reads_before_overwrite =
      r.reads_before_overwrite + if l.any (hits slot) && !r.trace_overwritten then 1 else 0 := by
  induction l generalizing r with
  | nil => exact ⟨htrace, (Bool.or_false _).symm, rfl⟩
  | cons e l ih =>
    obtain ⟨h1, h2, h3⟩ := reapplyEntry_trace htrace e
    obtain ⟨h4, h5, h6⟩ := ih h1
    rw [List.foldl_cons, List.any_cons]
    refine ⟨h4, by rw [h5, h2, Bool.or_assoc], ?_⟩
    rw [h6, h3, h2]
    cases hits slot e <;> cases r.trace_overwritten <;> cases l.any (hits slot) <;> rfl

theorem processFault_trace {s : CHAOSPhysReg cfg} {tid : Nat} {f : Injected}
    (h : (processFault s tid).injections = s.injections ++ [f]) :
    (processFault s tid).regFile.trace = some f.slot ∧ (processFault s tid).regFile.trace_overwritten = false ∧
    (processFault s tid).regFile.reads_before_overwrite = 0 := by
  have hnone : ∀ t : CHAOSPhysReg cfg, t.injections = s.injections → ¬t.injections = s.injections ++ [f] := by
    intro t ht heq
    have hlength := congrArg List.length (ht.symm.trans heq)
    simp at hlength
  have hfinish : ∀ (t : CHAOSPhysReg cfg) (g : Injected), t.injections = s.injections →
      (finish t g).injections = s.injections ++ [f] → (finish t g).regFile.trace = some f.slot ∧
        (finish t g).regFile.trace_overwritten = false ∧ (finish t g).regFile.reads_before_overwrite = 0 := by
    intro t g ht heq
    have hg : g = f := by
      have hlog : t.injections ++ [g] = s.injections ++ [f] := heq
      rw [ht] at hlog
      exact List.singleton_inj.1 (List.append_cancel_left hlog)
    rw [hg]
    exact ⟨rfl, rfl, rfl⟩
  unfold processFault at h ⊢
  dsimp only at h ⊢
  split at h
  · exact absurd h (hnone _ rfl)
  · split at h
    · unfold injectScalar at h ⊢
      dsimp only at h ⊢
      split at h
      · exact absurd h (hnone _ rfl)
      · rename_i hhit
        rw [if_neg hhit]
        exact hfinish _ _ (countFault_frame ..).2.1 h
    · exact hfinish _ _ (countFault_frame ..).2.1 h

/-! ### The count -/

def Exact (slot : Slot) (t : Traced cfg) : Prop :=
  t.state.regFile.reads_before_overwrite = t.readsBeforeWrite slot

/-- The check is applied to the register only after the program has written it by `setReg`, and the program does not read
the register between a write through the pointer and the first `setReg`. -/
def Undisturbed (slot : Slot) (t : Traced cfg) : TraceEvent → Prop
  | .access op => op.reads slot = true → t.written slot = true → t.overwritten slot = true
  | .check _ => (∃ e ∈ t.state.permanent_faults, pending cfg e = true ∧ slot = (.scalar .IntRegClass, e.1.2)) →
      t.overwritten slot = true

/-- The trace is on, and its flag tells whether the program has used `setReg`. -/
structure OnTrace (slot : Slot) (t : Traced cfg) : Prop where
  trace : t.state.regFile.trace = some slot
  flag : t.state.regFile.trace_overwritten = t.overwritten slot
  count : Exact slot t

theorem onTrace_access {slot : Slot} {t : Traced cfg} (h : OnTrace slot t) (op : RegOp) :
    (Exact slot (t.step (.access op)) ↔ Undisturbed slot t (.access op)) ∧
    (Undisturbed slot t (.access op) → OnTrace slot (t.step (.access op))) := by
  obtain ⟨htrace, hflag, hcount⟩ := access_trace h.trace op
  have hover : (t.step (.access op)).overwritten slot = (t.overwritten slot || op.sets slot) := by
    unfold Traced.overwritten
    rw [Traced.ops_access]
    exact RegOp.setIn_concat t.ops op
  have hreads : (t.step (.access op)).readsBeforeWrite slot =
      t.readsBeforeWrite slot + if op.reads slot && !t.written slot then 1 else 0 := by
    unfold Traced.readsBeforeWrite
    rw [Traced.ops_access]
    exact RegOp.countBeforeWrite_concat (a := op) (fun h => h) t.ops
  have hexact : Exact slot (t.step (.access op)) ↔ Undisturbed slot t (.access op) := by
    have h0 := h.count
    unfold Exact at h0 ⊢
    rw [hreads, ← h0]
    refine Iff.trans (Eq.congr_left hcount) ?_
    rw [h.flag]
    unfold Undisturbed
    cases hover : t.overwritten slot with
    | true =>
      have hwritten : t.written slot = true := RegOp.writtenIn_of_setIn hover
      simp [hwritten]
    | false => cases t.written slot <;> simp
  refine ⟨hexact, fun hfine => ⟨htrace, ?_, hexact.2 hfine⟩⟩
  rw [hover, ← h.flag]
  exact hflag

theorem onTrace_check {slot : Slot} {t : Traced cfg} (h : OnTrace slot t) (now : Nat) :
    (Exact slot (t.step (.check now)) ↔ Undisturbed slot t (.check now)) ∧
    (Undisturbed slot t (.check now) → OnTrace slot (t.step (.check now))) := by
  have hregs := (checkPermanent_spec t.state now).1
  obtain ⟨htrace, hflag, hcount⟩ := foldl_reapply_trace (t.state.permanent_faults.filter (pending cfg)) h.trace
  rw [← hregs] at htrace hflag hcount
  have hany : (t.state.permanent_faults.filter (pending cfg)).any (hits slot) = true ↔
      ∃ e ∈ t.state.permanent_faults, pending cfg e = true ∧ slot = (.scalar .IntRegClass, e.1.2) := by
    simp only [List.any_eq_true, List.mem_filter, hits, decide_eq_true_eq, and_assoc]
  have hover : (t.step (.check now)).overwritten slot = t.overwritten slot := by
    unfold Traced.overwritten
    rw [Traced.ops_check]
  have hexact : Exact slot (t.step (.check now)) ↔ Undisturbed slot t (.check now) := by
    have h0 := h.count
    unfold Exact at h0 ⊢
    have hreads : (t.step (.check now)).readsBeforeWrite slot = t.readsBeforeWrite slot := by
      unfold Traced.readsBeforeWrite
      rw [Traced.ops_check]
    rw [hreads, ← h0]
    refine Iff.trans (Eq.congr_left hcount) ?_
    rw [h.flag]
    unfold Undisturbed
    rw [← hany]
    cases (t.state.permanent_faults.filter (pending cfg)).any (hits slot) <;> cases t.overwritten slot <;> simp
  refine ⟨hexact, fun hfine => ⟨htrace, ?_, hexact.2 hfine⟩⟩
  rw [hover]
  refine hflag.trans ?_
  rw [h.flag]
  cases hhit : (t.state.permanent_faults.filter (pending cfg)).any (hits slot) with
  | false => exact Bool.or_false _
  | true => rw [hfine (hany.1 hhit), Bool.true_or]

/-- After every injection and whatever the program and the check do then, the count stays that of the reads of the
program before its first write exactly if no step disturbs it. -/
theorem read_trace_iff (s : CHAOSPhysReg cfg) (tid : Nat) (f : Injected)
    (hinjected : (processFault s tid).injections = s.injections ++ [f]) (es : List TraceEvent) :
    Along Traced.step (fun t e => Exact f.slot (t.step e)) ⟨processFault s tid, []⟩ es ↔
      Along Traced.step (Undisturbed f.slot) ⟨processFault s tid, []⟩ es := by
  obtain ⟨htrace, hflag, hcount⟩ := processFault_trace hinjected
  have h0 : OnTrace f.slot (⟨processFault s tid, []⟩ : Traced cfg) := ⟨htrace, hflag, hcount⟩
  refine Along.congr_of_invariant (fun t e ht => ?_) h0 es
  cases e with
  | access op => exact onTrace_access ht op
  | check now => exact onTrace_check ht now

/-- A stuck-at fault in the float register 0: two reads, the check, a write and a read are counted as two reads. -/
theorem read_trace_float :
    let s : CHAOSPhysReg { fourRegs with reg_target_class := .FloatingPoint } :=
      init _ (fun _ _ => 0) (fun _ _ => 0) fun _ => 0
    let es : List TraceEvent := [.access (.getReg .FloatRegClass 0), .access (.getReg .FloatRegClass 0), .check 1,
      .access (.setReg .FloatRegClass 0 7), .access (.getReg .FloatRegClass 0)]
    (processFault s 0).injections = s.injections ++ [⟨(.scalar .FloatRegClass, 0), .StuckAtOne, 0, 1⟩] ∧
    Along Traced.step (fun t e => Exact (.scalar .FloatRegClass, 0) (t.step e)) ⟨processFault s 0, []⟩ es ∧
    (es.foldl Traced.step ⟨processFault s 0, []⟩).state.regFile.reads_before_overwrite = 2 := by
  intro s es
  have hinjected : (processFault s 0).injections =
      s.injections ++ [⟨(.scalar .FloatRegClass, 0), .StuckAtOne, 0, 1⟩] := by decide
  refine ⟨hinjected, (read_trace_iff s 0 _ hinjected es).2 ⟨?_, ?_, ?_, ?_, ?_, trivial⟩, by decide⟩
  · exact fun _ hwritten => absurd hwritten (by decide)
  · exact fun _ hwritten => absurd hwritten (by decide)
  · rintro ⟨e, -, -, hslot⟩
    simp at hslot
  · exact fun hreads => absurd hreads (by decide)
  · exact fun _ _ => by decide

/-- The check counts as a read of the integer register 0, which the program does not read.  A read of the vector register
0 is counted after the program has written it through the pointer. -/
theorem read_trace_disturbed :
    let s : CHAOSPhysReg fourRegs := init _ (fun _ _ => 0) (fun _ _ => 0) fun _ => 0
    let t : CHAOSPhysReg { fourRegs with reg_target_class := .Vector, fault_type_enum := .BitFlip } :=
      init _ (fun _ _ => 0) (fun _ _ => 0) fun _ => 0
    let x : Traced fourRegs := Traced.step ⟨processFault s 0, []⟩ (.check 1)
    let y : Traced _ := Traced.step (Traced.step ⟨processFault t 0, []⟩ (.access (.getWritableReg 0 fun _ => 0)))
      (.access (.getRegBuf .VecRegClass 0))
    ((processFault s 0).injections = [⟨(.scalar .IntRegClass, 0), .StuckAtOne, 0, 1⟩] ∧
      x.state.regFile.reads_before_overwrite = 1 ∧ x.readsBeforeWrite (.scalar .IntRegClass, 0) = 0 ∧
      x.state.regFile.trace_overwritten = true ∧ ¬Exact (.scalar .IntRegClass, 0) x) ∧
    ((processFault t 0).injections = [⟨(.VecRegClass, 0), .BitFlip, 0, 1⟩] ∧
      y.state.regFile.reads_before_overwrite = 1 ∧ y.readsBeforeWrite (.VecRegClass, 0) = 0 ∧
      ¬Exact (.VecRegClass, 0) y) := by
  intro s t x y
  have hx : x.state.regFile.reads_before_overwrite = 1 ∧ x.readsBeforeWrite (.scalar .IntRegClass, 0) = 0 := by decide
  have hy : y.state.regFile.reads_before_overwrite = 1 ∧ y.readsBeforeWrite (.VecRegClass, 0) = 0 := by decide
  refine ⟨⟨by decide, hx.1, hx.2, by decide, fun h => ?_⟩, by decide, hy.1, hy.2, fun h => ?_⟩
  · have heq := hx.1.symm.trans (h.trans hx.2)
    omega
  · have heq := hy.1.symm.trans (h.trans hy.2)
    omega

end GemFI.Reg
