import GemFI.Reg.CHAOSRenameMap
import GemFI.Reg.ReadTrace

/-!
# The read trace of a redirected register

After a fault of CHAOSRenameMap two architectural registers may have the same physical one, whose reads are counted,
whoever makes them.  So the count is that of the reads through the wrong mapping before the register is written, all
along, exactly if while the trace is on the register is read for the redirected architectural register only, and never
between a write through the pointer of `getWritableReg` and the first `setReg` (`reads_through_mapping_iff`).
-/

namespace GemFI.Reg

open PhysRegFile

namespace CHAOSRenameMap

variable {cfg : RenameMapConfig}

/-! ### The reads through the mapping -/

abbrev Later := { e : Event // e ≠ .attack }

structure Watched (cfg : RenameMapConfig) where
  state : CHAOSRenameMap cfg
  past : List (Option ArchReg × RegOp) := []

namespace Watched

def accessOf : Event → Option (Option ArchReg × RegOp)
  | .access source op => some (source, op)
  | _ => none

theorem eq_of_accessOf {e : Event} {a : Option ArchReg × RegOp} (h : accessOf e = some a) : e = .access a.1 a.2 := by
  cases e with
  | access source op =>
    obtain rfl : (source, op) = a := Option.some.inj h
    rfl
  | _ => exact absurd h (by simp [accessOf])

def step (t : Watched cfg) (e : Later) : Watched cfg :=
  { state := CHAOSRenameMap.step t.state e.1, past := t.past ++ (accessOf e.1).toList }

def own (r : Redirected) (a : Option ArchReg × RegOp) : Bool := decide (a.1 = some r.arch) && a.2.reads r.slot

def ownReads (t : Watched cfg) (r : Redirected) : Nat := RegOp.countBeforeWrite Prod.snd r.slot (own r) t.past

def written (t : Watched cfg) (r : Redirected) : Bool := RegOp.writtenIn Prod.snd r.slot t.past

def overwritten (t : Watched cfg) (r : Redirected) : Bool := RegOp.setIn Prod.snd r.slot t.past

section

variable (t : Watched cfg) (r : Redirected) {e : Later} {source : Option ArchReg} {op : RegOp}

theorem past_access (he : e.1 = .access source op) : (t.step e).past = t.past ++ [(source, op)] := by
  unfold step
  rw [he]
  rfl

theorem past_other (he : accessOf e.1 = none) : (t.step e).past = t.past := by
  unfold step
  rw [he]
  exact List.append_nil _

theorem ownReads_access (he : e.1 = .access source op) :
    (t.step e).ownReads r = t.ownReads r + if own r (source, op) && !t.written r then 1 else 0 := by
  unfold ownReads
  rw [past_access t he]
  have hreads : own r (source, op) = true → op.reads r.slot = true := fun h => (Bool.and_eq_true_iff.1 h).2
  exact RegOp.countBeforeWrite_concat hreads t.past

theorem overwritten_access (he : e.1 = .access source op) :
    (t.step e).overwritten r = (t.overwritten r || op.sets r.slot) := by
  unfold overwritten
  rw [past_access t he]
  exact RegOp.setIn_concat t.past (source, op)

end

end Watched

open Watched (accessOf own)

/-! ### The trace -/

/-- The register file has counted the reads through the wrong mapping before the register was written. -/
def ExactReads (r : Redirected) (t : Watched cfg) : Prop :=
  t.state.regFile.reads_before_overwrite = t.ownReads r

/-- A read through the mapping before the register is written comes while the trace is on; and while the trace is on and
no `setReg` has ended it, every read is such a read. -/
def OnlyOwn (r : Redirected) (t : Watched cfg) (e : Later) : Prop :=
  ∀ source op, e.1 = .access source op → op.reads r.slot = true →
    (source = some r.arch → t.written r = false → t.state.regFile.trace = some r.slot) ∧
    (t.state.regFile.trace = some r.slot → t.overwritten r = false → source = some r.arch ∧ t.written r = false)

theorem onlyOwn_access {r : Redirected} {t : Watched cfg} {e : Later} {source : Option ArchReg} {op : RegOp}
    (he : e.1 = .access source op) :
    OnlyOwn r t e ↔ (op.reads r.slot = true →
      (source = some r.arch → t.written r = false → t.state.regFile.trace = some r.slot) ∧
      (t.state.regFile.trace = some r.slot → t.overwritten r = false →
        source = some r.arch ∧ t.written r = false)) := by
  unfold OnlyOwn
  rw [he]
  constructor
  · intro hall
    exact hall source op rfl
  · rintro hone source' op' heq
    cases heq
    exact hone

/-- The trace is on, with a flag that tells whether `setReg` was used, or it has ended. -/
structure Watching (r : Redirected) (t : Watched cfg) : Prop where
  trace : t.state.regFile.trace = some r.slot ∧ t.state.regFile.trace_overwritten = t.overwritten r ∨
    t.state.regFile.trace = none
  count : ExactReads r t

theorem step_trace (s : CHAOSRenameMap cfg) {e : Event} (hattack : e ≠ .attack) (hother : accessOf e = none) :
    (step s e).regFile = s.regFile ∨ (step s e).regFile = s.regFile.clearReadTraceTarget := by
  cases e with
  | attack => exact absurd rfl hattack
  | check =>
    left
    simp only [step]
    split
    · rfl
    · unfold checkPermanent
      split <;> rfl
  | poll =>
    simp only [step]
    split
    · left
      rfl
    · unfold readTraceCheck
      dsimp only
      split
      · left
        rfl
      · right
        rfl
  | access source op => simp [accessOf] at hother
  | rename front =>
    left
    rfl
  | setHalted tid halted =>
    left
    rfl

theorem watching_other {r : Redirected} {t : Watched cfg} (h : Watching r t) {e : Later}
    (hother : accessOf e.1 = none) : Watching r (t.step e) := by
  have hpast := t.past_other hother
  have hown : (t.step e).ownReads r = t.ownReads r := by
    unfold Watched.ownReads
    rw [hpast]
  have hover : (t.step e).overwritten r = t.overwritten r := by
    unfold Watched.overwritten
    rw [hpast]
  rcases step_trace t.state e.2 hother with hregs | hregs
  · refine ⟨?_, (congrArg reads_before_overwrite hregs).trans (h.count.trans hown.symm)⟩
    rcases h.trace with ⟨htrace, hflag⟩ | htrace
    · left
      exact ⟨(congrArg trace hregs).trans htrace, (congrArg trace_overwritten hregs).trans (hflag.trans hover.symm)⟩
    · right
      exact (congrArg trace hregs).trans htrace
  · refine ⟨?_, (congrArg reads_before_overwrite hregs).trans (h.count.trans hown.symm)⟩
    right
    exact congrArg trace hregs

theorem watching_access {r : Redirected} {t : Watched cfg} (h : Watching r t) {source : Option ArchReg} {op : RegOp}
    {e : Later} (he : e.1 = .access source op) :
    (ExactReads r (t.step e) ↔ OnlyOwn r t e) ∧ (ExactReads r (t.step e) → Watching r (t.step e)) := by
  have hregs : (t.step e).state.regFile = t.state.regFile.access op := by
    unfold Watched.step
    rw [he]
    rfl
  have hown := t.ownReads_access r he
  have h0 := h.count
  unfold ExactReads at h0
  rcases h.trace with ⟨htrace, hflag⟩ | htrace
  · obtain ⟨htrace', hflag', hcount'⟩ := access_trace htrace op
    rw [← hregs] at htrace' hflag' hcount'
    refine ⟨?_, fun hexact => ⟨Or.inl ⟨htrace', ?_⟩, hexact⟩⟩
    · rw [onlyOwn_access he]
      unfold ExactReads
      rw [hcount', hown, ← h0, hflag]
      unfold own
      have hwritten : t.overwritten r = true → t.written r = true := RegOp.writtenIn_of_setIn
      cases op.reads r.slot <;> cases ho : t.overwritten r <;> cases hw : t.written r <;>
        by_cases hsrc : source = some r.arch <;> simp_all
    · rw [hflag', hflag, t.overwritten_access r he]
  · obtain ⟨htrace', hcount'⟩ := access_untraced htrace op
    rw [← hregs] at htrace' hcount'
    refine ⟨?_, fun hexact => ⟨Or.inr htrace', hexact⟩⟩
    rw [onlyOwn_access he]
    unfold ExactReads
    rw [hcount', hown, ← h0, htrace]
    unfold own
    cases op.reads r.slot <;> cases hw : t.written r <;> by_cases hsrc : source = some r.arch <;> simp_all

/-- After every fault that has redirected an architectural register to another physical one, and whatever comes before
the next attack, the count stays that of the reads through the wrong mapping exactly if there are no other reads of the
register while the trace is on. -/
theorem reads_through_mapping_iff (s : CHAOSRenameMap cfg) (tid now : Nat) (r : Redirected)
    (hlog : (processFault s tid now).log = s.log ++ [r]) (hne : r.new_phys_idx ≠ r.old_phys_idx) (es : List Later) :
    Along Watched.step (fun t e => ExactReads r (t.step e)) ⟨processFault s tid now, []⟩ es ↔
      Along Watched.step (OnlyOwn r) ⟨processFault s tid now, []⟩ es := by
  obtain ⟨htrace, hflag, hcount⟩ := redirect_trace hlog hne
  have h0 : Watching r (⟨processFault s tid now, []⟩ : Watched cfg) := ⟨Or.inl ⟨htrace, hflag⟩, hcount⟩
  refine Along.congr_of_invariant (I := Watching r) ?_ h0 es
  intro t e ht
  cases hother : accessOf e.1 with
  | none =>
    have hnext := watching_other ht hother
    have honly : OnlyOwn r t e := by
      intro source op he
      rw [he] at hother
      simp [accessOf] at hother
    exact ⟨iff_of_true hnext.count honly, fun _ => hnext⟩
  | some a =>
    obtain ⟨hiff, hkeep⟩ := watching_access ht (Watched.eq_of_accessOf hother)
    exact ⟨hiff, fun honly => hkeep (hiff.2 honly)⟩

private def accessFor (cls : RegClassType) (arch_idx : Nat) (op : RegOp) : Later :=
  ⟨.access (some ⟨0, cls, arch_idx⟩) op, Event.noConfusion⟩

/-- Two reads through the wrong mapping, then the donor is written and read: two reads are counted. -/
theorem reads_through_mapping_two :
    let s := twoMapped (twoArchRegs .F5Substitute .Integer)
    let r : Redirected := ⟨⟨0, .scalar .IntRegClass, 0⟩, 0, 1, 0⟩
    let es := [accessFor r.arch.cls 0 (.getReg .IntRegClass 1), accessFor r.arch.cls 0 (.getReg .IntRegClass 1),
      accessFor r.arch.cls 1 (.setReg .IntRegClass 1 7), accessFor r.arch.cls 1 (.getReg .IntRegClass 1)]
    (processFault s 0 0).log = s.log ++ [r] ∧ r.new_phys_idx ≠ r.old_phys_idx ∧
    Along Watched.step (fun t e => ExactReads r (t.step e)) ⟨processFault s 0 0, []⟩ es ∧
    (es.foldl Watched.step ⟨processFault s 0 0, []⟩).state.regFile.reads_before_overwrite = 2 := by
  intro s r es
  have hlog : (processFault s 0 0).log = s.log ++ [r] := by decide
  have hne : r.new_phys_idx ≠ r.old_phys_idx := by decide
  refine ⟨hlog, hne, (reads_through_mapping_iff s 0 0 r hlog hne es).2 ⟨?_, ?_, ?_, ?_, trivial⟩, by decide⟩
  · rintro source op heq -
    cases heq
    exact ⟨fun _ _ => by decide, fun _ _ => by decide⟩
  · rintro source op heq -
    cases heq
    exact ⟨fun _ _ => by decide, fun _ _ => by decide⟩
  · rintro source op heq hreads
    cases heq
    exact absurd hreads (by decide)
  · rintro source op heq -
    cases heq
    exact ⟨fun hsource => absurd hsource (by decide), fun _ hover => absurd hover (by decide)⟩

private def wrongOne (cls : RegClassType) (mask : BitVec 64) : Redirected := ⟨⟨0, cls, 0⟩, 0, 1, mask⟩

private def donorRead (mode : Mode) : Watched (twoArchRegs mode .Integer) :=
  Watched.step ⟨processFault (twoMapped _) 0 0, []⟩ (accessFor (.scalar .IntRegClass) 1 (.getReg .IntRegClass 1))

/-- After a fault the physical vector register 1 is written through the pointer, and read through the wrong mapping. -/
private def staleRead : Watched (twoArchRegs .F5Substitute .Vector) :=
  Watched.step (Watched.step ⟨processFault (twoMapped _) 0 0, []⟩
    (accessFor .VecRegClass 1 (.getWritableReg 1 fun _ => 7))) (accessFor .VecRegClass 0 (.getRegBuf .VecRegClass 1))

/-- In each of the modes the read by the other register is counted.  A read of a vector register is counted after a write
through the pointer. -/
theorem donor_read_counted :
    ((donorRead .F5Substitute).state.log = [wrongOne (.scalar .IntRegClass) 0] ∧
      (donorRead .F5Substitute).state.regFile.reads_before_overwrite = 1 ∧
      (donorRead .F5Substitute).ownReads (wrongOne (.scalar .IntRegClass) 0) = 0) ∧
    ((donorRead .F4FieldStuck).state.log = [wrongOne (.scalar .IntRegClass) 0] ∧
      (donorRead .F4FieldStuck).state.regFile.reads_before_overwrite = 1 ∧
      (donorRead .F4FieldStuck).ownReads (wrongOne (.scalar .IntRegClass) 0) = 0) ∧
    ((donorRead .MapBitFlip).state.log = [wrongOne (.scalar .IntRegClass) 1] ∧
      (donorRead .MapBitFlip).state.regFile.reads_before_overwrite = 1 ∧
      (donorRead .MapBitFlip).ownReads (wrongOne (.scalar .IntRegClass) 1) = 0) ∧
    (staleRead.state.log = [wrongOne .VecRegClass 0] ∧ staleRead.state.regFile.reads_before_overwrite = 1 ∧
      staleRead.ownReads (wrongOne .VecRegClass 0) = 0) := by
  decide

end CHAOSRenameMap

end GemFI.Reg
