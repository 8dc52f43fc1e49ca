import GemFI.Cov.Frame
import Mathlib.Algebra.Order.BigOperators.Group.List

/-!
# Issuing ready instructions

`scheduleReadyInsts` walks the list of operation classes that have ready instructions, oldest instruction first, and
asks the pool of functional units for a unit for the oldest instruction of each class.  The coverage hooks are called
before the answer is tested, so an instruction that finds no free unit is counted and tried again in a later cycle
(`run_counted`).  A cycle uses the issue width, or it leaves only instructions of classes that were refused a unit
(`schedule_work_conserving`).

The pool is a stream of answers, and the ready queue of a class a list with its oldest instruction first.  The
operands of an instruction are in the register file before it becomes ready, so they are part of it.  Latencies, the
execution queue and the statistics of the queue are left out.
-/

namespace GemFI.IQ.Issue

open Cov

/-! ### Instructions and hooks -/

inductive OpClass where
  | No_OpClass | IntAlu | IntMult
  | FloatAdd | SimdFloatAdd | SimdAdd | SimdAddAcc
  | FloatMult | FloatMultAcc | SimdFloatMult | SimdFloatMultAcc | SimdMult | SimdMultAcc
  | other (n : Nat)
  deriving DecidableEq, Repr

/-- The functional unit class of an operation class; `-1`: not tracked. -/
def harp_fu_class_of : OpClass → Int
  | .IntAlu => 0
  | .IntMult => 1
  | .FloatAdd | .SimdFloatAdd | .SimdAdd | .SimdAddAcc => 2
  | .FloatMult | .FloatMultAcc | .SimdFloatMult | .SimdFloatMultAcc | .SimdMult | .SimdMultAcc => 3
  | _ => -1

/-- A source operand: the classes of its register before and after renaming, and the value in the register file
(`hi` is the upper half of a vector register). -/
structure SrcReg where
  srcRegIdx : RegClassType
  renamedSrcIdx : RegClassType
  lo : BitVec 64
  hi : BitVec 64
  deriving DecidableEq, Repr

structure Inst where
  seqNum : Nat
  opClass : OpClass
  srcs : List SrcReg
  deriving DecidableEq, Repr

def harp_src_bits_of (inst : Inst) : Nat :=
  inst.srcs.foldl (fun bits reg =>
    match reg.srcRegIdx with
    | .intReg | .floatReg => bits + 64
    | .vecReg => bits + 128
    | .vecElem => bits + 64
    | .ccReg => bits + 4
    | _ => bits) 0

/-- The class of a double: 0 normal, 1 subnormal, 2 NaN, 3 infinite, 4 zero. -/
def harp_fp_class_of (bits : BitVec 64) : Int :=
  let expo := (bits >>> 52) &&& 0x7ff#64
  let mant := bits &&& ((1#64 <<< 52) - 1#64)
  if expo = 0#64 then (if mant ≠ 0#64 then 1 else 4)
  else if expo = 0x7ff#64 then (if mant ≠ 0#64 then 2 else 3)
  else 0

/-- The classes of the floating-point source lanes; no source is read once eight lanes are there. -/
def harp_fp_value_classes_of (inst : Inst) : List Int :=
  inst.srcs.foldl (fun out reg =>
    if 8 ≤ out.length then out
    else
      match reg.renamedSrcIdx with
      | .floatReg | .vecElem => out ++ [harp_fp_class_of reg.lo]
      | .vecReg => out ++ [harp_fp_class_of reg.lo, harp_fp_class_of reg.hi]
      | _ => out) []

def harp_two_int_srcs (inst : Inst) : Option (BitVec 64 × BitVec 64) :=
  match inst.srcs.filter fun reg => reg.renamedSrcIdx = .intReg with
  | a :: b :: _ => some (a.lo, b.lo)
  | _ => none

variable {cfg : Config}

/-- The hooks that `scheduleReadyInsts` calls for an instruction of the class. -/
def issueHooks (cov : CHAOSCov cfg) (op_class : OpClass) (inst : Inst) : CHAOSCov cfg :=
  let fc := harp_fu_class_of op_class
  if fc < 0 then cov
  else
    let cov := cov.fuOnIssue fc (harp_src_bits_of inst)
    let cov :=
      if 2 ≤ fc ∧ harp_fp_value_classes_of inst ≠ [] then cov.fuOnIssueValue fc (harp_fp_value_classes_of inst)
      else cov
    if fc = 0 ∨ fc = 1 then
      match harp_two_int_srcs inst with
      | some (a, b) => if fc = 0 then cov.iexOnAddIssue a b else cov.iexOnMulIssue a b
      | none => cov
    else cov

/-! ### The queue -/

inductive FUIdx where
  | unit (idx : Nat) | NoFreeFU | NoCapableFU | NoNeedFU
  deriving DecidableEq, Repr

structure ListOrderEntry where
  queueType : OpClass
  oldestInst : Nat
  deriving DecidableEq, Repr

structure Answer where
  op_class : OpClass
  idx : FUIdx
  inROI : Bool
  deriving DecidableEq, Repr

structure Issued where
  inst : Inst
  inROI : Bool
  deriving DecidableEq, Repr

structure IssueQueue (cfg : Config) where
  totalWidth : Nat
  fuPool : Nat → FUIdx
  readyInsts : OpClass → List Inst := fun _ => []
  listOrder : List ListOrderEntry := []
  queueOnList : OpClass → Bool := fun _ => false
  squashed : List Nat := []
  cov : CHAOSCov cfg
  answers : List Answer := []
  issued : List Issued := []

def fresh (cfg : Config) (totalWidth : Nat) (fuPool : Nat → FUIdx) : IssueQueue cfg :=
  { totalWidth := totalWidth, fuPool := fuPool, cov := Cov.fresh cfg }

def insertBehind (p : ListOrderEntry → Bool) (entry : ListOrderEntry) (l : List ListOrderEntry) :
    List ListOrderEntry :=
  l.takeWhile p ++ entry :: l.dropWhile p

def addToOrderList (s : IssueQueue cfg) (op_class : OpClass) : IssueQueue cfg :=
  match s.readyInsts op_class with
  | [] => s
  | top :: _ =>
    { s with
      listOrder := insertBehind (fun e => e.oldestInst ≤ top.seqNum) ⟨op_class, top.seqNum⟩ s.listOrder
      queueOnList := Function.update s.queueOnList op_class true }

/-- The list behind `order_it` after `moveToYoungerInst`: the class goes in front of the first entry that is not
older. -/
def moveToYoungerInst (s : IssueQueue cfg) (op_class : OpClass) (rest : List ListOrderEntry) : List ListOrderEntry :=
  match s.readyInsts op_class with
  | [] => rest
  | top :: _ => insertBehind (fun e => e.oldestInst < top.seqNum) ⟨op_class, top.seqNum⟩ rest

def addReadyInst (s : IssueQueue cfg) (inst : Inst) : IssueQueue cfg :=
  let op_class := inst.opClass
  let s := { s with
    readyInsts := Function.update s.readyInsts op_class
      ((s.readyInsts op_class).orderedInsert (fun a b => a.seqNum ≤ b.seqNum) inst) }
  if !s.queueOnList op_class then addToOrderList s op_class
  else
    match (s.readyInsts op_class).head?, s.listOrder.find? (fun e => e.queueType = op_class) with
    | some top, some entry =>
      if top.seqNum < entry.oldestInst then
        addToOrderList { s with listOrder := s.listOrder.eraseP fun e => e.queueType = op_class } op_class
      else s
    | _, _ => s

def addIfReady (s : IssueQueue cfg) (inst : Inst) : IssueQueue cfg := addReadyInst s inst

def addReadyMemInst (s : IssueQueue cfg) (ready_inst : Inst) : IssueQueue cfg := addReadyInst s ready_inst

/-! ### The loop -/

/-- The variables of the loop; `order_it` points to the first entry of `after`. -/
structure ScheduleLoop (cfg : Config) where
  iq : IssueQueue cfg
  before : List ListOrderEntry := []
  after : List ListOrderEntry
  total_issued : Nat := 0

/-- Take the oldest instruction off the ready queue of the class at `order_it`, and move the class to its new place. -/
def popReady (l : ScheduleLoop cfg) (op_class : OpClass) (rest : List ListOrderEntry) : ScheduleLoop cfg :=
  let queue := (l.iq.readyInsts op_class).tail
  let iq := { l.iq with
    readyInsts := Function.update l.iq.readyInsts op_class queue
    queueOnList := if queue = [] then Function.update l.iq.queueOnList op_class false else l.iq.queueOnList }
  { l with iq := iq, after := moveToYoungerInst iq op_class rest }

/-- Ask the pool for a unit; an operation without a class needs none. -/
def getUnit (iq : IssueQueue cfg) (op_class : OpClass) : FUIdx × IssueQueue cfg :=
  if op_class = .No_OpClass then (.NoNeedFU, iq)
  else
    let idx := iq.fuPool iq.answers.length
    (idx, { iq with answers := iq.answers ++ [⟨op_class, idx, iq.cov.roi_active⟩] })

def askUnit (iq : IssueQueue cfg) (op_class : OpClass) (inst : Inst) : FUIdx × IssueQueue cfg :=
  let (idx, iq) := getUnit iq op_class
  (idx, { iq with cov := issueHooks iq.cov op_class inst })

def issueInst (l : ScheduleLoop cfg) (op_class : OpClass) (inst : Inst) (rest : List ListOrderEntry) :
    ScheduleLoop cfg :=
  let l := popReady l op_class rest
  { l with
    iq := { l.iq with issued := l.iq.issued ++ [⟨inst, l.iq.cov.roi_active⟩] }
    total_issued := l.total_issued + 1 }

/-- The body of the loop at the entry `e`, whose ready queue starts with `inst`. -/
def scheduleInst (l : ScheduleLoop cfg) (e : ListOrderEntry) (rest : List ListOrderEntry) (inst : Inst) :
    ScheduleLoop cfg :=
  if l.iq.squashed.contains inst.seqNum then popReady l e.queueType rest
  else
    let asked := askUnit l.iq e.queueType inst
    let l := { l with iq := asked.2 }
    if asked.1 ≠ .NoFreeFU then issueInst l e.queueType inst rest
    else { l with before := l.before ++ [e], after := rest }

/-- One round of the loop; `none` when it has ended.  A class without a ready instruction fails an assertion. -/
def scheduleBody (l : ScheduleLoop cfg) : Option (ScheduleLoop cfg) :=
  if l.iq.totalWidth ≤ l.total_issued then none
  else
    match l.after with
    | [] => none
    | e :: rest =>
      match l.iq.readyInsts e.queueType with
      | [] => none
      | inst :: _ => some (scheduleInst l e rest inst)

def scheduleLoop : Nat → ScheduleLoop cfg → ScheduleLoop cfg
  | 0, l => l
  | fuel + 1, l =>
    match scheduleBody l with
    | none => l
    | some l' => scheduleLoop fuel l'

def ScheduleLoop.leave (l : ScheduleLoop cfg) : IssueQueue cfg := { l.iq with listOrder := l.before ++ l.after }

def ScheduleLoop.rounds (l : ScheduleLoop cfg) : Nat :=
  (l.after.map fun e => (l.iq.readyInsts e.queueType).length + 1).sum

def scheduleReadyInsts (s : IssueQueue cfg) (mem_insts : List Inst) : IssueQueue cfg :=
  let s := mem_insts.foldl addReadyMemInst s
  let l : ScheduleLoop cfg := { iq := s, after := s.listOrder }
  (scheduleLoop l.rounds l).leave

/-! ### Runs -/

def issueHook : Cov.Event cfg → Bool
  | .fuIssue .. | .fuIssueValue .. | .addIssue .. | .mulIssue .. => true
  | _ => false

inductive Event (cfg : Config) where
  | cov (e : { e : Cov.Event cfg // issueHook e = false })
  | ready (inst : Inst)
  | squash (seqNum : Nat)
  /-- A cycle of the scheduler, with the memory instructions that are ready again. -/
  | schedule (mem_insts : List Inst)

def step (s : IssueQueue cfg) : Event cfg → IssueQueue cfg
  | .cov e => { s with cov := Cov.step s.cov e.1 }
  | .ready inst => addIfReady s inst
  | .squash seqNum => { s with squashed := seqNum :: s.squashed }
  | .schedule mem_insts => scheduleReadyInsts s mem_insts

def run (s : IssueQueue cfg) (es : List (Event cfg)) : IssueQueue cfg := es.foldl step s

/-! ### The list and the ready queues -/

theorem insertBehind_perm (p : ListOrderEntry → Bool) (e : ListOrderEntry) (l : List ListOrderEntry) :
    (insertBehind p e l).Perm (e :: l) := by
  have h : (insertBehind p e l).Perm (e :: (l.takeWhile p ++ l.dropWhile p)) := List.perm_middle
  rwa [List.takeWhile_append_dropWhile] at h

structure Ordered (ready : OpClass → List Inst) (onList : OpClass → Bool) (l : List ListOrderEntry) : Prop where
  sameClass : ∀ op, ∀ i ∈ ready op, i.opClass = op
  once : (l.map (·.queueType)).Nodup
  onList_iff : ∀ op, onList op = true ↔ op ∈ l.map (·.queueType)
  oldest : ∀ e ∈ l, ∃ top queue, ready e.queueType = top :: queue ∧ top.seqNum = e.oldestInst
  listed : ∀ op, ready op ≠ [] → onList op = true

namespace Ordered

variable {ready : OpClass → List Inst} {onList : OpClass → Bool} {l l' : List ListOrderEntry}

theorem perm (h : Ordered ready onList l) (hp : l.Perm l') : Ordered ready onList l' where
  sameClass := h.sameClass
  once := (hp.map _).nodup_iff.1 h.once
  onList_iff op := (h.onList_iff op).trans (hp.map _).mem_iff
  oldest e he := h.oldest e (hp.mem_iff.2 he)
  listed := h.listed

theorem drop {e : ListOrderEntry} (h : Ordered ready onList (e :: l)) :
    Ordered (Function.update ready e.queueType []) (Function.update onList e.queueType false) l := by
  have honce := h.once
  rw [List.map_cons, List.nodup_cons] at honce
  obtain ⟨hnot, hl⟩ := honce
  refine ⟨?_, hl, ?_, ?_, ?_⟩
  · intro op i hi
    by_cases hop : op = e.queueType
    · subst hop
      simp at hi
    · rw [Function.update_of_ne hop] at hi
      exact h.sameClass op i hi
  · intro op
    by_cases hop : op = e.queueType
    · subst hop
      simpa using hnot
    · rw [Function.update_of_ne hop, h.onList_iff op, List.map_cons, List.mem_cons]
      exact ⟨fun hm => hm.resolve_left hop, Or.inr⟩
  · intro e' he'
    have hne : e'.queueType ≠ e.queueType := fun heq => hnot (heq ▸ List.mem_map_of_mem he')
    rw [Function.update_of_ne hne]
    exact h.oldest e' (List.mem_cons_of_mem _ he')
  · intro op hop
    by_cases heq : op = e.queueType
    · subst heq
      simp at hop
    · rw [Function.update_of_ne heq] at hop ⊢
      exact h.listed op hop

theorem add (h : Ordered ready onList l) {op : OpClass} {top : Inst} {queue : List Inst}
    (hclass : ∀ i ∈ top :: queue, i.opClass = op) (hnot : op ∉ l.map (·.queueType)) :
    Ordered (Function.update ready op (top :: queue)) (Function.update onList op true) (⟨op, top.seqNum⟩ :: l) := by
  refine ⟨?_, List.nodup_cons.2 ⟨hnot, h.once⟩, ?_, ?_, ?_⟩
  · intro op' i hi
    by_cases hop : op' = op
    · subst hop
      rw [Function.update_self] at hi
      exact hclass i hi
    · rw [Function.update_of_ne hop] at hi
      exact h.sameClass op' i hi
  · intro op'
    by_cases hop : op' = op
    · subst hop
      simp
    · rw [Function.update_of_ne hop, h.onList_iff op', List.map_cons, List.mem_cons]
      exact ⟨Or.inr, fun hm => hm.resolve_left hop⟩
  · intro e he
    rcases List.mem_cons.1 he with rfl | he
    · exact ⟨top, queue, by simp, rfl⟩
    · have hne : e.queueType ≠ op := fun heq => hnot (heq ▸ List.mem_map_of_mem he)
      rw [Function.update_of_ne hne]
      exact h.oldest e he
  · intro op' hop'
    by_cases heq : op' = op
    · subst heq
      simp
    · rw [Function.update_of_ne heq] at hop' ⊢
      exact h.listed op' hop'

theorem replace {e : ListOrderEntry} (h : Ordered ready onList (e :: l)) {top : Inst} {queue : List Inst}
    (hclass : ∀ i ∈ top :: queue, i.opClass = e.queueType) :
    Ordered (Function.update ready e.queueType (top :: queue)) onList (⟨e.queueType, top.seqNum⟩ :: l) := by
  have hnot : e.queueType ∉ l.map (·.queueType) := (List.nodup_cons.1 h.once).1
  have hon : onList e.queueType = true := (h.onList_iff _).2 (by simp)
  have hadd := h.drop.add hclass hnot
  rwa [Function.update_idem, Function.update_idem, ← hon, Function.update_eq_self] at hadd

end Ordered

abbrev IssueQueue.Sound (s : IssueQueue cfg) : Prop := Ordered s.readyInsts s.queueOnList s.listOrder

variable {e : ListOrderEntry} {l : ScheduleLoop cfg} {rest : List ListOrderEntry} {s : IssueQueue cfg}
  (cov : CHAOSCov cfg)

theorem popReady_sound (h : l.leave.Sound) (hafter : l.after = e :: rest) :
    (popReady l e.queueType rest).leave.Sound := by
  have hperm : (l.before ++ l.after).Perm (e :: (l.before ++ rest)) := by
    rw [hafter]
    exact List.perm_middle
  have h' : Ordered l.iq.readyInsts l.iq.queueOnList (e :: (l.before ++ rest)) := Ordered.perm h hperm
  obtain ⟨first, queue, hq, _⟩ := h'.oldest e List.mem_cons_self
  rcases queue with _ | ⟨top, queue⟩
  · simpa [popReady, ScheduleLoop.leave, IssueQueue.Sound, hq, moveToYoungerInst] using h'.drop
  · have hclass : ∀ i ∈ top :: queue, i.opClass = e.queueType := fun i hi =>
      h'.sameClass _ i (hq ▸ List.mem_cons_of_mem _ hi)
    have hnew := h'.replace hclass
    refine Ordered.perm (l := ⟨e.queueType, top.seqNum⟩ :: (l.before ++ rest)) ?_ ?_
    · simpa [popReady, ScheduleLoop.leave, hq] using hnew
    · have hins := insertBehind_perm (fun e => e.oldestInst < top.seqNum) ⟨e.queueType, top.seqNum⟩ rest
      have hmid := (hins.append_left l.before).trans List.perm_middle
      simpa [popReady, ScheduleLoop.leave, hq, moveToYoungerInst] using hmid.symm

variable {queue : List Inst} (iq : IssueQueue cfg) (op : OpClass) (inst : Inst)

theorem addToOrderList_sound {op : OpClass} {top : Inst} (hq : s.readyInsts op = top :: queue)
    (h : Ordered s.readyInsts (Function.update s.queueOnList op true) (⟨op, top.seqNum⟩ :: s.listOrder)) :
    (addToOrderList s op).Sound := by
  simp only [addToOrderList, hq]
  exact h.perm (insertBehind_perm _ _ _).symm

theorem Ordered.find {ready : OpClass → List Inst} {onList : OpClass → Bool} {l : List ListOrderEntry}
    (h : Ordered ready onList l) {op : OpClass} (hon : onList op = true) :
    ∃ e, l.find? (fun e => e.queueType = op) = some e ∧ e.queueType = op ∧
      l.Perm (e :: l.eraseP fun e => e.queueType = op) := by
  obtain ⟨e, he, hop⟩ := List.mem_map.1 ((h.onList_iff op).1 hon)
  obtain ⟨e', l₁, l₂, hnot, hp, heq, herase⟩ :=
    List.exists_of_eraseP (p := fun e : ListOrderEntry => decide (e.queueType = op)) he (decide_eq_true hop)
  refine ⟨e', ?_, of_decide_eq_true hp, ?_⟩
  · rw [heq, List.find?_append, List.find?_eq_none.2 hnot, Option.none_or, List.find?_cons, hp]
  · rw [herase, heq]
    exact List.perm_middle

private theorem orderedInsert_cons (inst first : Inst) (queue : List Inst) :
    ∃ top rest, (first :: queue).orderedInsert (fun a b => a.seqNum ≤ b.seqNum) inst = top :: rest ∧
      (top.seqNum < first.seqNum ∨ top.seqNum = first.seqNum) := by
  rw [List.orderedInsert_cons]
  split
  · exact ⟨inst, first :: queue, rfl, by omega⟩
  · exact ⟨first, _, rfl, Or.inr rfl⟩

theorem addReadyInst_sound (h : s.Sound) (inst : Inst) : (addReadyInst s inst).Sound := by
  have hclass : ∀ i ∈ (s.readyInsts inst.opClass).orderedInsert (fun a b => a.seqNum ≤ b.seqNum) inst,
      i.opClass = inst.opClass := by
    intro i hi
    rcases (List.mem_orderedInsert _).1 hi with rfl | hi
    · rfl
    · exact h.sameClass _ i hi
  cases hon : s.queueOnList inst.opClass with
  | false =>
    have hempty : s.readyInsts inst.opClass = [] := by
      by_contra hne
      simp [h.listed _ hne] at hon
    have hnot : inst.opClass ∉ s.listOrder.map (·.queueType) := by
      rw [← h.onList_iff, hon]
      simp
    simp only [addReadyInst, hon, hempty, List.orderedInsert_nil, Bool.not_false, ↓reduceIte]
    rw [hempty, List.orderedInsert_nil] at hclass
    exact addToOrderList_sound (Function.update_self ..) (h.add hclass hnot)
  | true =>
    obtain ⟨e, hfind, hop, hperm⟩ := h.find hon
    have h' := Ordered.perm h hperm
    obtain ⟨first, queue, hq, hold⟩ := h'.oldest e List.mem_cons_self
    rw [hop] at hq
    obtain ⟨top, rest, hins, htop⟩ := orderedInsert_cons inst first queue
    rw [hq, hins, ← hop] at hclass
    have hnew := h'.replace hclass
    rw [hop] at hnew
    simp only [addReadyInst, hon, hq, hins, hfind, Function.update_self, List.head?_cons, Bool.not_true,
      Bool.false_eq_true, ↓reduceIte]
    split
    · refine addToOrderList_sound (Function.update_self ..) ?_
      have hself : Function.update s.queueOnList inst.opClass true = s.queueOnList := by
        rw [← hon, Function.update_eq_self]
      rw [hself]
      exact hnew
    · -- the oldest instruction has the number that the entry has
      have hsame : (⟨inst.opClass, top.seqNum⟩ : ListOrderEntry) = e := by
        have hnum : top.seqNum = e.oldestInst := by omega
        rw [hnum, ← hop]
      rw [hsame] at hnew
      exact hnew.perm hperm.symm

/-! ### The rounds of the loop -/

theorem scheduleBody_spec {l l' : ScheduleLoop cfg} (h : scheduleBody l = some l') :
    ∃ e rest inst queue, l.after = e :: rest ∧ l.iq.readyInsts e.queueType = inst :: queue ∧
      l' = scheduleInst l e rest inst := by
  unfold scheduleBody at h
  split at h
  · exact absurd h (by simp)
  · split at h
    · exact absurd h (by simp)
    · rename_i e rest hafter
      split at h
      · exact absurd h (by simp)
      · rename_i inst queue hq
        exact ⟨e, rest, inst, queue, hafter, hq, (Option.some.inj h).symm⟩

@[simp] theorem askUnit_ready : (askUnit iq op inst).2.readyInsts = iq.readyInsts := by
  by_cases hop : op = .No_OpClass <;> simp [askUnit, getUnit, hop]

@[simp] theorem askUnit_onList : (askUnit iq op inst).2.queueOnList = iq.queueOnList := by
  by_cases hop : op = .No_OpClass <;> simp [askUnit, getUnit, hop]

theorem scheduleInst_sound (h : l.leave.Sound) (hafter : l.after = e :: rest) (inst : Inst) :
    (scheduleInst l e rest inst).leave.Sound := by
  unfold scheduleInst
  split
  · exact popReady_sound h hafter
  · have h' : ({ l with iq := (askUnit l.iq e.queueType inst).2 } : ScheduleLoop cfg).leave.Sound := by
      simpa [ScheduleLoop.leave, IssueQueue.Sound] using h
    dsimp only
    split
    · exact popReady_sound h' hafter
    · -- the entry stays, and `order_it` moves past it
      have hlist : l.before ++ [e] ++ rest = l.before ++ l.after := by simp [hafter]
      simp only [ScheduleLoop.leave, IssueQueue.Sound, hlist]
      exact h'

theorem popReady_rounds {inst : Inst} (hafter : l.after = e :: rest)
    (hq : l.iq.readyInsts e.queueType = inst :: queue) : (popReady l e.queueType rest).rounds < l.rounds := by
  have hle : ∀ e' ∈ rest, (Function.update l.iq.readyInsts e.queueType queue e'.queueType).length + 1 ≤
      (l.iq.readyInsts e'.queueType).length + 1 := by
    intro e' _
    by_cases hop : e'.queueType = e.queueType
    · simp [hop, hq]
    · rw [Function.update_of_ne hop]
  have hsum := List.sum_le_sum hle
  rcases queue with _ | ⟨top, queue⟩
  · simp only [popReady, ScheduleLoop.rounds, moveToYoungerInst, hq, hafter, List.tail_cons, Function.update_self,
      List.map_cons, List.sum_cons] at hsum ⊢
    omega
  · have hperm := (insertBehind_perm (fun e => e.oldestInst < top.seqNum) ⟨e.queueType, top.seqNum⟩ rest).map
      fun e' => (Function.update l.iq.readyInsts e.queueType (top :: queue) e'.queueType).length + 1
    simp only [popReady, ScheduleLoop.rounds, moveToYoungerInst, hq, hafter, List.tail_cons, Function.update_self,
      List.map_cons, List.sum_cons, hperm.sum_eq, List.length_cons] at hsum ⊢
    omega

theorem scheduleInst_rounds {inst : Inst} (hafter : l.after = e :: rest)
    (hq : l.iq.readyInsts e.queueType = inst :: queue) : (scheduleInst l e rest inst).rounds < l.rounds := by
  unfold scheduleInst
  split
  · exact popReady_rounds hafter hq
  · have hq' : (askUnit l.iq e.queueType inst).2.readyInsts e.queueType = inst :: queue := by
      rw [askUnit_ready, hq]
    have hrounds : ({ l with iq := (askUnit l.iq e.queueType inst).2 } : ScheduleLoop cfg).rounds = l.rounds := by
      simp only [ScheduleLoop.rounds, askUnit_ready]
    dsimp only
    split
    · rw [← hrounds]
      exact popReady_rounds hafter hq'
    · simp only [ScheduleLoop.rounds, askUnit_ready, hafter, List.map_cons, List.sum_cons]
      omega

theorem scheduleLoop_keeps {I : ScheduleLoop cfg → Prop} (hstep : ∀ l l', I l → scheduleBody l = some l' → I l')
    (fuel : Nat) (h : I l) : I (scheduleLoop fuel l) := by
  induction fuel generalizing l with
  | zero => exact h
  | succ fuel ih =>
    unfold scheduleLoop
    cases hb : scheduleBody l with
    | none => exact h
    | some l' => exact ih (hstep l l' h hb)

theorem scheduleLoop_ends {fuel : Nat} (h : l.rounds ≤ fuel) : scheduleBody (scheduleLoop fuel l) = none := by
  induction fuel generalizing l with
  | zero =>
    have hafter : l.after = [] := by
      rcases hl : l.after with _ | ⟨e, rest⟩
      · rfl
      · simp [ScheduleLoop.rounds, hl] at h
    simp [scheduleLoop, scheduleBody, hafter]
  | succ fuel ih =>
    unfold scheduleLoop
    cases hb : scheduleBody l with
    | none => exact hb
    | some l' =>
      obtain ⟨e, rest, inst, queue, hafter, hq, rfl⟩ := scheduleBody_spec hb
      have hless := scheduleInst_rounds hafter hq
      exact ih (by omega)

theorem scheduleLoop_sound (fuel : Nat) (h : l.leave.Sound) : (scheduleLoop fuel l).leave.Sound := by
  refine scheduleLoop_keeps (I := fun l => l.leave.Sound) ?_ fuel h
  intro l l' hl hb
  obtain ⟨e, rest, inst, queue, hafter, hq, rfl⟩ := scheduleBody_spec hb
  exact scheduleInst_sound hl hafter inst

theorem scheduleLoop_complete (h : l.leave.Sound) :
    (scheduleLoop l.rounds l).iq.totalWidth ≤ (scheduleLoop l.rounds l).total_issued ∨
    (scheduleLoop l.rounds l).after = [] := by
  have hsound := scheduleLoop_sound l.rounds h
  have hend := scheduleLoop_ends (Nat.le_refl l.rounds)
  obtain ⟨l', hl'⟩ : ∃ l', l' = scheduleLoop l.rounds l := ⟨_, rfl⟩
  rw [← hl'] at hsound hend ⊢
  unfold scheduleBody at hend
  split at hend
  · left
    assumption
  · split at hend
    · right
      assumption
    · rename_i e rest hafter
      have hmem : e ∈ l'.before ++ l'.after := by simp [hafter]
      obtain ⟨top, queue, hq, _⟩ := hsound.oldest e hmem
      have hq' : l'.iq.readyInsts e.queueType = top :: queue := hq
      rw [hq'] at hend
      simp at hend

theorem scheduleReadyInsts_sound (h : s.Sound) (mem_insts : List Inst) : (scheduleReadyInsts s mem_insts).Sound := by
  have hmem : (mem_insts.foldl addReadyMemInst s).Sound := by
    induction mem_insts generalizing s with
    | nil => exact h
    | cons inst mem_insts ih => exact ih (addReadyInst_sound h inst)
  exact scheduleLoop_sound _ (by simpa [ScheduleLoop.leave] using hmem)

theorem step_sound (h : s.Sound) (e : Event cfg) : (step s e).Sound := by
  rcases e with e | inst | n | mem_insts
  · exact h
  · exact addReadyInst_sound h inst
  · exact h
  · exact scheduleReadyInsts_sound h mem_insts

/-! ### The ledger -/

def issuesOf (c : Int) (issued : List Issued) : Nat :=
  issued.countP fun i => i.inROI && decide (harp_fu_class_of i.inst.opClass = c)

def Refused (c : Int) (a : Answer) : Prop := a.inROI = true ∧ harp_fu_class_of a.op_class = c ∧ a.idx = .NoFreeFU

instance (c : Int) (a : Answer) : Decidable (Refused c a) := inferInstanceAs (Decidable (_ ∧ _ ∧ _))

def refusalsOf (c : Int) (answers : List Answer) : Nat := answers.countP fun a => Refused c a

structure Counted (s : IssueQueue cfg) : Prop where
  size : s.cov.ibr_issues.length = 4
  ledger : ∀ c : Fin 4,
    s.cov.ibr_issues.getD c 0 = issuesOf (c : Nat) s.issued + refusalsOf (c : Nat) s.answers

def fuLedger (cov : CHAOSCov cfg) : List Nat × List Nat × Bool × Nat :=
  (cov.ibr_input_bits, cov.ibr_issues, cov.roi_active, cov.roi_cycles)

private theorem fuOnIssueValue_ledger (fc : Int) (lanes : List Int) :
    fuLedger (cov.fuOnIssueValue fc lanes) = fuLedger cov := by
  unfold CHAOSCov.fuOnIssueValue
  split
  · rfl
  · split
    · rfl
    · rename_i hactive _
      clear hactive
      induction lanes generalizing cov with
      | nil => rfl
      | cons x lanes ih =>
        rw [List.foldl_cons]
        split
        · exact ih cov
        · exact ih _

private theorem iexOnAddIssue_ledger (a b : BitVec 64) : fuLedger (cov.iexOnAddIssue a b) = fuLedger cov := by
  unfold CHAOSCov.iexOnAddIssue
  dsimp only
  split
  · rfl
  · split <;> rfl

private theorem iexOnMulIssue_ledger (a b : BitVec 64) : fuLedger (cov.iexOnMulIssue a b) = fuLedger cov := by
  unfold CHAOSCov.iexOnMulIssue
  dsimp only
  split
  · rfl
  · split <;> rfl

theorem harp_fu_class_of_lt : harp_fu_class_of op < 4 := by
  unfold harp_fu_class_of
  split <;> omega

theorem issueHooks_ledger :
    fuLedger (issueHooks cov op inst) =
      if 0 ≤ harp_fu_class_of op then fuLedger (cov.fuOnIssue (harp_fu_class_of op) (harp_src_bits_of inst))
      else fuLedger cov := by
  unfold issueHooks
  dsimp only
  by_cases h0 : 0 ≤ harp_fu_class_of op
  · rw [if_neg (by omega), if_pos h0]
    have hvalues : fuLedger
        (if 2 ≤ harp_fu_class_of op ∧ harp_fp_value_classes_of inst ≠ [] then
          (cov.fuOnIssue (harp_fu_class_of op) (harp_src_bits_of inst)).fuOnIssueValue (harp_fu_class_of op)
            (harp_fp_value_classes_of inst)
        else cov.fuOnIssue (harp_fu_class_of op) (harp_src_bits_of inst)) =
        fuLedger (cov.fuOnIssue (harp_fu_class_of op) (harp_src_bits_of inst)) := by
      split
      · exact fuOnIssueValue_ledger ..
      · rfl
    rw [← hvalues]
    generalize (if 2 ≤ harp_fu_class_of op ∧ harp_fp_value_classes_of inst ≠ [] then _ else _) = cov₂
    split
    · split
      · split
        · exact iexOnAddIssue_ledger ..
        · exact iexOnMulIssue_ledger ..
      · rfl
    · rfl
  · rw [if_pos (by omega), if_neg h0]

theorem fuOnIssue_ledger {fc : Int} (h0 : 0 ≤ fc) (h4 : fc < 4) (bits : Nat) :
    fuLedger (cov.fuOnIssue fc bits) =
      if cov.roi_active then
        (cov.ibr_input_bits.modify fc.toNat (· + bits), cov.ibr_issues.modify fc.toNat (· + 1), true, cov.roi_cycles)
      else fuLedger cov := by
  have hfc : ¬(fc < 0 ∨ 4 ≤ fc) := by omega
  cases hactive : cov.roi_active <;> simp [CHAOSCov.fuOnIssue, fuLedger, hactive, hfc]

theorem issueHooks_issues :
    (issueHooks cov op inst).ibr_issues =
      (if cov.roi_active ∧ 0 ≤ harp_fu_class_of op then cov.ibr_issues.modify (harp_fu_class_of op).toNat (· + 1)
      else cov.ibr_issues) ∧
    (issueHooks cov op inst).roi_active = cov.roi_active := by
  have hledger := issueHooks_ledger cov op inst
  by_cases h0 : 0 ≤ harp_fu_class_of op
  · rw [if_pos h0, fuOnIssue_ledger cov h0 (harp_fu_class_of_lt op)] at hledger
    cases hactive : cov.roi_active <;> simp_all [fuLedger]
  · rw [if_neg h0] at hledger
    simp_all [fuLedger]

theorem step_issues {e : Cov.Event cfg} (h : issueHook e = false) :
    (Cov.step cov e).ibr_input_bits = cov.ibr_input_bits ∧ (Cov.step cov e).ibr_issues = cov.ibr_issues := by
  by_cases hp : e.part = .side
  · cases e with
    | loadWriteback q =>
      simp only [Cov.step, CHAOSCov.loadOnWriteback]
      split <;> exact ⟨rfl, rfl⟩
    | loadUse q =>
      simp only [Cov.step, CHAOSCov.loadOnUse]
      split
      · exact ⟨rfl, rfl⟩
      · split <;> exact ⟨rfl, rfl⟩
    | fuIssue _ _ => simp [issueHook] at h
    | fuIssueValue _ _ => simp [issueHook] at h
    | addIssue _ _ => simp [issueHook] at h
    | mulIssue _ _ => simp [issueHook] at h
    | _ => simp [Event.part] at hp
  · have hu : e.part.Unseen fun s : CHAOSCov cfg => (s.ibr_input_bits, s.ibr_issues) := by
      cases hpart : e.part <;> simp_all [Part.Unseen]
    simpa only [Prod.mk.injEq] using step_frame cov e hu

theorem askUnit_ledger {iq : IssueQueue cfg} (hsize : iq.cov.ibr_issues.length = 4) (op : OpClass) (inst : Inst)
    (c : Fin 4) : (askUnit iq op inst).2.cov.ibr_issues.length = 4 ∧
    (askUnit iq op inst).2.cov.ibr_issues.getD c 0 =
      iq.cov.ibr_issues.getD c 0 + if iq.cov.roi_active ∧ harp_fu_class_of op = (c : Nat) then 1 else 0 := by
  have hcov : (askUnit iq op inst).2.cov = issueHooks iq.cov op inst := by
    by_cases hop : op = .No_OpClass <;> simp [askUnit, getUnit, hop]
  rw [hcov, (issueHooks_issues iq.cov op inst).1]
  have hc := c.2
  split
  · rename_i hroi
    refine ⟨by rw [List.length_modify, hsize], ?_⟩
    have hin : (c : Nat) < iq.cov.ibr_issues.length := by omega
    rw [List.getD_eq_getElem?_getD, List.getD_eq_getElem?_getD, List.getElem?_modify, List.getElem?_eq_getElem hin]
    by_cases hclass : harp_fu_class_of op = (c : Nat)
    · simp [hclass, hroi.1]
    · have hne : (harp_fu_class_of op).toNat ≠ (c : Nat) := by omega
      simp [hclass, hne]
  · rename_i hroi
    have hnot : ¬(iq.cov.roi_active ∧ harp_fu_class_of op = (c : Nat)) := by
      intro hboth
      exact hroi ⟨hboth.1, by omega⟩
    simp [hsize, hnot]

theorem askUnit_refusals (c : Fin 4) :
    refusalsOf (c : Nat) (askUnit iq op inst).2.answers = refusalsOf (c : Nat) iq.answers +
      if (iq.cov.roi_active ∧ harp_fu_class_of op = (c : Nat)) ∧ (askUnit iq op inst).1 = .NoFreeFU then 1 else 0 := by
  by_cases hop : op = .No_OpClass
  · simp [askUnit, getUnit, hop]
  · simp only [askUnit, getUnit, hop, ↓reduceIte, refusalsOf, List.countP_append, List.countP_singleton,
      decide_eq_true_eq]
    congr 1
    exact if_congr (by simp [Refused, and_assoc]) rfl rfl

@[simp] theorem askUnit_issued : (askUnit iq op inst).2.issued = iq.issued := by
  by_cases hop : op = .No_OpClass <;> simp [askUnit, getUnit, hop]

@[simp] theorem askUnit_active : (askUnit iq op inst).2.cov.roi_active = iq.cov.roi_active := by
  have h := (issueHooks_issues iq.cov op inst).2
  by_cases hop : op = .No_OpClass <;> simpa [askUnit, getUnit, hop] using h

theorem scheduleInst_counted (h : Counted l.iq) (rest : List ListOrderEntry) {inst : Inst}
    (hclass : inst.opClass = e.queueType) : Counted (scheduleInst l e rest inst).iq := by
  unfold scheduleInst
  split
  · exact ⟨h.size, h.ledger⟩
  · have hledger := askUnit_ledger h.size e.queueType inst
    have hrefused := askUnit_refusals l.iq e.queueType inst
    dsimp only
    split
    · rename_i hidx
      refine ⟨(hledger 0).1, fun c => ?_⟩
      have hissued : issuesOf (c : Nat) ((askUnit l.iq e.queueType inst).2.issued ++
          [⟨inst, (askUnit l.iq e.queueType inst).2.cov.roi_active⟩]) = issuesOf (c : Nat) l.iq.issued +
          if l.iq.cov.roi_active ∧ harp_fu_class_of e.queueType = (c : Nat) then 1 else 0 := by
        simp [issuesOf, List.countP_append, List.countP_singleton, hclass]
      have hc := (hledger c).2
      have hr := hrefused c
      rw [if_neg (fun hboth => hidx hboth.2)] at hr
      have hold := h.ledger c
      change (askUnit l.iq e.queueType inst).2.cov.ibr_issues.getD c 0 =
        issuesOf (c : Nat) ((askUnit l.iq e.queueType inst).2.issued ++
          [⟨inst, (askUnit l.iq e.queueType inst).2.cov.roi_active⟩]) +
        refusalsOf (c : Nat) (askUnit l.iq e.queueType inst).2.answers
      rw [hissued]
      omega
    · rename_i hidx
      rw [not_not] at hidx
      refine ⟨(hledger 0).1, fun c => ?_⟩
      have hc := (hledger c).2
      have hr := hrefused c
      simp only [hidx, and_true] at hr
      have hold := h.ledger c
      simp only [askUnit_issued]
      omega

theorem scheduleLoop_counted (fuel : Nat) (h : l.leave.Sound) (hc : Counted l.iq) :
    Counted (scheduleLoop fuel l).iq := by
  refine (scheduleLoop_keeps (I := fun l => l.leave.Sound ∧ Counted l.iq) ?_ fuel ⟨h, hc⟩).2
  rintro l l' ⟨hl, hcl⟩ hb
  obtain ⟨e, rest, inst, queue, hafter, hq, rfl⟩ := scheduleBody_spec hb
  have hclass : inst.opClass = e.queueType := hl.sameClass e.queueType inst (by simp [ScheduleLoop.leave, hq])
  exact ⟨scheduleInst_sound hl hafter inst, scheduleInst_counted hcl rest hclass⟩

theorem addReadyInst_counted (h : Counted s) (inst : Inst) : Counted (addReadyInst s inst) := by
  have hadd : ∀ (s : IssueQueue cfg) op, Counted s → Counted (addToOrderList s op) := by
    intro s op hs
    unfold addToOrderList
    split
    · exact hs
    · exact ⟨hs.size, hs.ledger⟩
  unfold addReadyInst
  dsimp only
  split
  · exact hadd _ _ ⟨h.size, h.ledger⟩
  · split
    · split
      · exact hadd _ _ ⟨h.size, h.ledger⟩
      · exact ⟨h.size, h.ledger⟩
    · exact ⟨h.size, h.ledger⟩

theorem step_counted (h : s.Sound) (hc : Counted s) (e : Event cfg) : Counted (step s e) := by
  rcases e with e | inst | n | mem_insts
  · have hissues := (step_issues s.cov e.2).2
    refine ⟨?_, fun c => ?_⟩
    · simp only [step, hissues]
      exact hc.size
    · simp only [step, hissues]
      exact hc.ledger c
  · exact addReadyInst_counted hc inst
  · exact ⟨hc.size, hc.ledger⟩
  · have hmem : (mem_insts.foldl addReadyMemInst s).Sound ∧ Counted (mem_insts.foldl addReadyMemInst s) := by
      induction mem_insts generalizing s with
      | nil => exact ⟨h, hc⟩
      | cons inst mem_insts ih => exact ih (addReadyInst_sound h inst) (addReadyInst_counted hc inst)
    obtain ⟨s', hs'⟩ : ∃ s', s' = mem_insts.foldl addReadyMemInst s := ⟨_, rfl⟩
    obtain ⟨l, hl⟩ : ∃ l : ScheduleLoop cfg, l = { iq := s', after := s'.listOrder } := ⟨_, rfl⟩
    rw [← hs'] at hmem
    have hleave : l.leave = s' := by rw [hl]; rfl
    have hloop := scheduleLoop_counted l.rounds (hleave ▸ hmem.1) (by rw [hl]; exact hmem.2)
    have hstep : step s (.schedule mem_insts) = (scheduleLoop l.rounds l).leave := by
      rw [hl, hs']
      rfl
    rw [hstep]
    exact ⟨hloop.size, hloop.ledger⟩

theorem run_counted (cfg : Config) (totalWidth : Nat) (fuPool : Nat → FUIdx) (es : List (Event cfg)) :
    (run (fresh cfg totalWidth fuPool) es).Sound ∧ Counted (run (fresh cfg totalWidth fuPool) es) := by
  have h0 : (fresh cfg totalWidth fuPool).Sound ∧ Counted (fresh cfg totalWidth fuPool) := by
    refine ⟨⟨?_, ?_, ?_, ?_, ?_⟩, ⟨rfl, ?_⟩⟩ <;> simp [fresh, Cov.fresh, issuesOf, refusalsOf]
    decide
  unfold run
  induction es using List.reverseRecOn with
  | nil => exact h0
  | append_singleton es e ih =>
    rw [List.foldl_append]
    exact ⟨step_sound ih.1 e, step_counted ih.1 ih.2 e⟩

/-- The ledger of a functional unit class is the number of its instructions that were marked issued in the ROI, in
every state of every run, exactly if the pool never answered that it has no free unit for one of them in the ROI. -/
theorem ibr_issues_eq_issued_iff (cfg : Config) (totalWidth : Nat) (fuPool : Nat → FUIdx) (es : List (Event cfg))
    (c : Fin 4) :
    (run (fresh cfg totalWidth fuPool) es).cov.ibr_issues.getD c 0 =
      issuesOf (c : Nat) (run (fresh cfg totalWidth fuPool) es).issued ↔
    ∀ a ∈ (run (fresh cfg totalWidth fuPool) es).answers, ¬Refused (c : Nat) a := by
  have hledger := (run_counted cfg totalWidth fuPool es).2.ledger c
  have hnone : refusalsOf (c : Nat) (run (fresh cfg totalWidth fuPool) es).answers = 0 ↔
      ∀ a ∈ (run (fresh cfg totalWidth fuPool) es).answers, ¬Refused (c : Nat) a := by
    simp [refusalsOf, List.countP_eq_zero]
  rw [← hnone]
  omega

/-- An addition finds no free unit in its first cycle and issues in the second: it is counted twice. -/
theorem refused_instruction_counted_twice :
    let s := run (fresh tiny 8 fun k => if k = 0 then .NoFreeFU else .unit 0)
      [.cov ⟨.workBegin, rfl⟩, .ready ⟨1, .IntAlu, []⟩, .schedule [], .cov ⟨.tick, rfl⟩, .schedule []]
    s.cov.ibr_issues.getD 0 0 = 2 ∧ s.issued = [⟨⟨1, .IntAlu, []⟩, true⟩] := by
  decide

/-! ### A cycle -/

/-- What the loop has done since the queue was `s`: it has issued within the width, and the pool has refused a unit to every
class that it has passed. -/
structure Cycle (s : IssueQueue cfg) (l : ScheduleLoop cfg) : Prop where
  width : l.iq.totalWidth = s.totalWidth
  within : l.total_issued ≤ s.totalWidth
  issued : ∃ issued, l.iq.issued = s.issued ++ issued ∧ issued.length = l.total_issued
  refused : ∃ answers, l.iq.answers = s.answers ++ answers ∧
    ∀ e ∈ l.before, ∃ a ∈ answers, a.op_class = e.queueType ∧ a.idx = .NoFreeFU

theorem askUnit_answers :
    (askUnit iq op inst).2.totalWidth = iq.totalWidth ∧ (askUnit iq op inst).2.issued = iq.issued ∧
    ∃ answers, (askUnit iq op inst).2.answers = iq.answers ++ answers ∧
      ((askUnit iq op inst).1 = .NoFreeFU → ∃ a ∈ answers, a.op_class = op ∧ a.idx = .NoFreeFU) := by
  unfold askUnit getUnit
  by_cases hop : op = .No_OpClass
  · rw [if_pos hop]
    exact ⟨rfl, rfl, [], (List.append_nil _).symm, fun hidx => by cases hidx⟩
  · rw [if_neg hop]
    exact ⟨rfl, rfl, _, rfl, fun hidx => ⟨_, List.mem_singleton_self _, rfl, hidx⟩⟩

theorem Cycle.body {l l' : ScheduleLoop cfg} (h : Cycle s l) (hb : scheduleBody l = some l') : Cycle s l' := by
  have hroom : l.total_issued < s.totalWidth := by
    rw [← h.width]
    by_contra hfull
    rw [scheduleBody, if_pos (by omega)] at hb
    cases hb
  obtain ⟨e, rest, inst, queue, -, -, rfl⟩ := scheduleBody_spec hb
  obtain ⟨issued, hissued, hlength⟩ := h.issued
  obtain ⟨old, hold, hrefused⟩ := h.refused
  obtain ⟨hwidth, hsame, new, hnew, hno⟩ := askUnit_answers l.iq e.queueType inst
  rw [hold, List.append_assoc] at hnew
  have hkept : ∀ x ∈ l.before, ∃ a ∈ old ++ new, a.op_class = x.queueType ∧ a.idx = .NoFreeFU := by
    intro x hx
    obtain ⟨a, ha, hclass⟩ := hrefused x hx
    exact ⟨a, List.mem_append_left _ ha, hclass⟩
  unfold scheduleInst
  dsimp only
  split
  · exact ⟨h.width, h.within, h.issued, h.refused⟩
  · split
    · refine ⟨hwidth.trans h.width, hroom, ?_, _, hnew, hkept⟩
      dsimp only [issueInst, popReady]
      rw [hsame, hissued, List.append_assoc]
      exact ⟨_, rfl, by rw [List.length_append, hlength]; rfl⟩
    · rename_i hidx
      refine ⟨hwidth.trans h.width, h.within, ⟨issued, hsame.trans hissued, hlength⟩, _, hnew, ?_⟩
      rw [List.forall_mem_append, List.forall_mem_singleton]
      obtain ⟨a, ha, hclass⟩ := hno (not_not.1 hidx)
      exact ⟨hkept, a, List.mem_append_right _ ha, hclass⟩

theorem addReadyInst_rest (s : IssueQueue cfg) (inst : Inst) : (addReadyInst s inst).totalWidth = s.totalWidth ∧
    (addReadyInst s inst).issued = s.issued ∧ (addReadyInst s inst).answers = s.answers := by
  have horder : ∀ (s : IssueQueue cfg) op, (addToOrderList s op).totalWidth = s.totalWidth ∧
      (addToOrderList s op).issued = s.issued ∧ (addToOrderList s op).answers = s.answers := by
    intro s op
    unfold addToOrderList
    split <;> exact ⟨rfl, rfl, rfl⟩
  unfold addReadyInst
  dsimp only
  split
  · exact horder _ _
  · split
    · split
      · exact horder _ _
      · exact ⟨rfl, rfl, rfl⟩
    · exact ⟨rfl, rfl, rfl⟩

/-- In every cycle of every run, the scheduler uses the issue width and no more, or the pool has refused a unit in the cycle
to every class that still has ready instructions. -/
theorem schedule_work_conserving (cfg : Config) (totalWidth : Nat) (fuPool : Nat → FUIdx) (es : List (Event cfg))
    (mem_insts : List Inst) :
    let s := run (fresh cfg totalWidth fuPool) es
    let s' := scheduleReadyInsts s mem_insts
    ∃ issued answers, s'.issued = s.issued ++ issued ∧ s'.answers = s.answers ++ answers ∧
      issued.length ≤ s.totalWidth ∧
      (issued.length = s.totalWidth ∨
        ∀ op, s'.readyInsts op ≠ [] → ∃ a ∈ answers, a.op_class = op ∧ a.idx = .NoFreeFU) := by
  intro s s'
  have hadd : ∀ (insts : List Inst) (q : IssueQueue cfg), q.Sound →
      (insts.foldl addReadyMemInst q).Sound ∧ Cycle q { iq := insts.foldl addReadyMemInst q, after := [] } := by
    intro insts q hq
    refine List.foldlRecOn insts addReadyMemInst
      (motive := fun r => r.Sound ∧ Cycle q { iq := r, after := [] })
      ⟨hq, rfl, Nat.zero_le _, ⟨[], (List.append_nil _).symm, rfl⟩, [], (List.append_nil _).symm, by simp⟩
      fun r hr inst _ => ?_
    obtain ⟨hwidth, hissued, hanswers⟩ := addReadyInst_rest r inst
    refine ⟨addReadyInst_sound hr.1 inst, hwidth.trans hr.2.width, hr.2.within, ?_, ?_⟩
    · obtain ⟨issued, h, hlength⟩ := hr.2.issued
      exact ⟨issued, hissued.trans h, hlength⟩
    · obtain ⟨answers, h, hrefused⟩ := hr.2.refused
      exact ⟨answers, hanswers.trans h, hrefused⟩
  obtain ⟨hsound, hcycle⟩ := hadd mem_insts s (run_counted cfg totalWidth fuPool es).1
  obtain ⟨l, hl⟩ : ∃ l : ScheduleLoop cfg,
      l = { iq := mem_insts.foldl addReadyMemInst s, after := (mem_insts.foldl addReadyMemInst s).listOrder } := ⟨_, rfl⟩
  have hleave : l.leave.Sound := by
    rw [hl]
    exact hsound
  have hend : Cycle s (scheduleLoop l.rounds l) := by
    refine scheduleLoop_keeps (fun _ _ h hb => h.body hb) l.rounds ?_
    rw [hl]
    exact ⟨hcycle.width, hcycle.within, hcycle.issued, hcycle.refused⟩
  have hs' : s' = (scheduleLoop l.rounds l).leave := by
    rw [hl]
    rfl
  obtain ⟨issued, hissued, hlength⟩ := hend.issued
  obtain ⟨answers, hanswers, hrefused⟩ := hend.refused
  refine ⟨issued, answers, by rw [hs']; exact hissued, by rw [hs']; exact hanswers, hlength ▸ hend.within, ?_⟩
  rcases scheduleLoop_complete hleave with hfull | hafter
  · left
    rw [hend.width] at hfull
    have hwithin := hend.within
    omega
  · right
    intro op hop
    have hlast := scheduleLoop_sound l.rounds hleave
    rw [hs'] at hop
    obtain ⟨e, he, rfl⟩ := List.mem_map.1 ((hlast.onList_iff op).1 (hlast.listed op hop))
    refine hrefused e ?_
    simpa [ScheduleLoop.leave, hafter] using he

end GemFI.IQ.Issue
