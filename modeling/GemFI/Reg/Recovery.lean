import GemFI.Reg.RenameStage

/-!
# What the rename stage keeps

The threads of the stage act in any order.  A squash recovers the map of a thread (`squash_recovers`), and the registers
are conserved (`registers_conserved`, `free_of_drained`): both follow from what one entry of the history buffer does.
-/

namespace GemFI.Reg

variable {T A P C : Type} {cfg : RobConfig}

namespace RenameView

variable {v : RenameView A P C cfg} {e : RenameHistory A P} {rest : List (RenameHistory A P)}

/-! ### The loops -/

section

variable [DecidableEq P] {I : RenameView A P C cfg → Prop}

theorem removeFromHistory_keeps [DecidableEq C] {K : RegClasses A P C} {done : Nat}
    (hstep : ∀ v e rest, I v → v.historyBuffer = rest ++ [e] → e.instSeqNum ≤ done → I (retireEntry K v e)) (h : I v) :
    I (removeFromHistory K done v.historyBuffer.reverse v) := by
  generalize hl : v.historyBuffer.reverse = l
  induction l generalizing v with
  | nil => exact h
  | cons e rest ih =>
    have hlast : v.historyBuffer = rest.reverse ++ [e] := by
      rw [← List.reverse_cons, ← hl, List.reverse_reverse]
    rw [removeFromHistory]
    split
    · rename_i hle
      refine ih (hstep v e rest.reverse h hlast hle) ?_
      unfold retireEntry
      split <;> simp [hlast]
    · exact h

variable [DecidableEq A]

theorem undoEntry_history (now : Nat) (v : RenameView A P C cfg) (e : RenameHistory A P) :
    (undoEntry now v e).historyBuffer = v.historyBuffer.tail := by
  unfold undoEntry
  split <;> rfl

theorem doSquash_keeps {squashed now : Nat}
    (hstep : ∀ v e rest, I v → v.historyBuffer = e :: rest → squashed < e.instSeqNum → I (undoEntry now v e)) (h : I v) :
    I (doSquash squashed now v.historyBuffer v) := by
  generalize hl : v.historyBuffer = l
  induction l generalizing v with
  | nil => exact h
  | cons e rest ih =>
    rw [doSquash]
    split
    · exact h
    · rename_i hlt
      refine ih (hstep v e rest h hl (by omega)) ?_
      rw [undoEntry_history, hl, List.tail_cons]

end

/-! ### The history -/

section

variable [DecidableEq A]

def undo (n : Nat) : (A → P) → List (RenameHistory A P) → A → P
  | map, [] => map
  | map, e :: rest => if e.instSeqNum ≤ n then map else undo n (Function.update map e.archReg e.prevPhysReg) rest

def recovered (n : Nat) (v : RenameView A P C cfg) : A → P := undo n v.renameMap v.historyBuffer

def Sound (v : RenameView A P C cfg) : Prop := Undoes v.renameMap v.historyBuffer

theorem undo_append {n : Nat} {map : A → P} {h h' : List (RenameHistory A P)} (hold : ∀ e ∈ h', e.instSeqNum ≤ n) :
    undo n map (h ++ h') = undo n map h := by
  induction h generalizing map with
  | nil =>
    cases h' with
    | nil => rfl
    | cons e rest => exact if_pos (hold e List.mem_cons_self)
  | cons e rest ih => rw [List.cons_append, undo, undo, ih]

theorem Sound.update_eq (h : Sound v) (hv : v.historyBuffer = e :: rest) (heq : e.newPhysReg = e.prevPhysReg) :
    Function.update v.renameMap e.archReg e.prevPhysReg = v.renameMap := by
  unfold Sound at h
  rw [hv] at h
  rw [← heq, ← h.1, Function.update_eq_self]

variable [DecidableEq P]

theorem undoEntry_map (h : Sound v) (now : Nat) (hv : v.historyBuffer = e :: rest) :
    (undoEntry now v e).renameMap = Function.update v.renameMap e.archReg e.prevPhysReg := by
  unfold undoEntry
  split
  · rename_i heq
    exact (h.update_eq hv heq).symm
  · rfl

theorem Sound.undoEntry (h : Sound v) (now : Nat) (hv : v.historyBuffer = e :: rest) : Sound (undoEntry now v e) := by
  have hund : Undoes v.renameMap (e :: rest) := hv ▸ h
  unfold Sound
  rw [undoEntry_map h now hv, undoEntry_history, hv]
  exact hund.2

theorem recovered_undoEntry (h : Sound v) {n : Nat} (now : Nat) (hv : v.historyBuffer = e :: rest)
    (hlt : n < e.instSeqNum) : recovered n (undoEntry now v e) = recovered n v := by
  unfold recovered
  rw [undoEntry_map h now hv, undoEntry_history, hv, List.tail_cons, undo, if_neg (by omega)]

theorem recovered_doSquash (n now : Nat) :
    recovered n (doSquash n now v.historyBuffer v) = (doSquash n now v.historyBuffer v).renameMap := by
  generalize hl : v.historyBuffer = l
  induction l generalizing v with
  | nil =>
    rw [doSquash, recovered, hl]
    rfl
  | cons e rest ih =>
    rw [doSquash]
    split
    · rename_i hle
      rw [recovered, hl]
      exact if_pos hle
    · refine ih ?_
      rw [undoEntry_history, hl, List.tail_cons]

theorem accounted_undoEntry (h : v.chaosRob.Accounted) (now : Nat) (e : RenameHistory A P) :
    (undoEntry now v e).chaosRob.Accounted := by
  unfold undoEntry
  split
  · exact h
  · exact h.maybeDelayFree now _

variable [DecidableEq C] {K : RegClasses A P C}

theorem Sound.retireEntry (h : Sound v) (hv : v.historyBuffer = rest ++ [e]) : Sound (retireEntry K v e) := by
  have hund : Undoes v.renameMap (rest ++ [e]) := hv ▸ h
  unfold Sound RenameView.retireEntry
  split <;> (dsimp only; rw [hv, List.dropLast_concat]; exact hund.of_append)

theorem Sound.renameDest (h : Sound v) (seqNum : Nat) (d : Dest A) : Sound (renameDest K seqNum v d) := by
  have hself : Function.update v.renameMap d.archReg (v.renameMap d.archReg) = v.renameMap :=
    Function.update_eq_self _ _
  unfold Sound RenameView.renameDest
  dsimp only
  split
  · refine ⟨rfl, ?_⟩
    dsimp only
    rwa [hself]
  · split
    · exact h
    · refine ⟨Function.update_self .., ?_⟩
      dsimp only
      rwa [Function.update_idem, hself]

/-- The instructions that are renamed are behind `n`; those that are committed, or that a squash keeps, are not. -/
def Behind (n : Nat) : RenameAct A P → Prop
  | .rename seqNum _ => n < seqNum
  | .squash seqNum _ => n ≤ seqNum
  | .setSquashed _ => True
  | .release => True
  | .commit seqNum => seqNum ≤ n

theorem recovered_renameDest {n seqNum : Nat} (hn : n < seqNum) (v : RenameView A P C cfg) (d : Dest A) :
    recovered n (renameDest K seqNum v d) = recovered n v := by
  have hlt : ¬seqNum ≤ n := by omega
  unfold recovered renameDest
  dsimp only
  split
  · dsimp only
    rw [undo, if_neg hlt, Function.update_eq_self]
  · split
    · rfl
    · dsimp only
      rw [undo, if_neg hlt, Function.update_idem, Function.update_eq_self]

theorem Sound.act (h : Sound v) (a : RenameAct A P) : Sound (act K v a) := by
  cases a with
  | rename seqNum dests =>
    dsimp only [RenameView.act]
    split
    · exact List.foldlRecOn dests _ h fun v hv d _ => hv.renameDest seqNum d
    · exact h
  | squash seqNum now => exact doSquash_keeps (fun v e rest hv hcons _ => hv.undoEntry now hcons) h
  | setSquashed | release => exact h
  | commit seqNum => exact removeFromHistory_keeps (fun v e rest hv hlast _ => hv.retireEntry hlast) h

theorem recovered_act (h : Sound v) {n : Nat} {a : RenameAct A P} (hn : Behind n a) :
    recovered n (act K v a) = recovered n v := by
  cases a with
  | rename seqNum dests =>
    dsimp only [act]
    split
    · exact List.foldlRecOn dests _ (motive := fun w => recovered n w = recovered n v) rfl
        fun w hw d _ => (recovered_renameDest hn w d).trans hw
    · rfl
  | squash seqNum now =>
    have hboth : Sound (act K v (.squash seqNum now)) ∧ recovered n (act K v (.squash seqNum now)) = recovered n v :=
      doSquash_keeps (I := fun w => Sound w ∧ recovered n w = recovered n v)
        (fun w e rest hw hcons hlt => ⟨hw.1.undoEntry now hcons,
          (recovered_undoEntry hw.1 now hcons (Nat.lt_of_le_of_lt hn hlt)).trans hw.2⟩) ⟨h, rfl⟩
    exact hboth.2
  | setSquashed | release => rfl
  | commit seqNum =>
    refine removeFromHistory_keeps (I := fun w => recovered n w = recovered n v) (fun w e rest hw hlast hle => ?_) rfl
    have hold : ∀ x ∈ [e], x.instSeqNum ≤ n := fun x hx => by
      rw [List.mem_singleton.1 hx]
      exact hle.trans hn
    rw [← hw]
    unfold recovered retireEntry
    split <;> rw [hlast, List.dropLast_concat, undo_append hold]

theorem accounted_act (h : v.chaosRob.Accounted) (a : RenameAct A P) : (act K v a).chaosRob.Accounted := by
  cases a with
  | rename seqNum dests =>
    dsimp only [act]
    split
    · refine List.foldlRecOn dests _ (motive := fun w : RenameView A P C cfg => w.chaosRob.Accounted) h
        fun w hw d _ => ?_
      unfold renameDest
      dsimp only
      split
      · exact hw
      · split <;> exact hw
    · exact h
  | squash seqNum now =>
    exact doSquash_keeps (I := fun w => w.chaosRob.Accounted) (fun w e rest hw _ _ => accounted_undoEntry hw now e) h
  | setSquashed | release => exact h
  | commit seqNum =>
    refine removeFromHistory_keeps (I := fun w : RenameView A P C cfg => w.chaosRob.Accounted)
      (fun w e rest hw _ _ => ?_) h
    unfold retireEntry
    split <;> exact hw

end

/-! ### The registers -/

variable [Fintype A] [Fintype C] [DecidableEq P]

theorem inView_retireEntry [DecidableEq C] {K : RegClasses A P C} (hv : v.historyBuffer = rest ++ [e]) :
    inView (retireEntry K v e) = inView v := by
  unfold inView held retireEntry
  rw [hv, displaced_concat, displaced_cons, List.dropLast_concat]
  split
  · rw [zero_add]
  · dsimp only
    rw [free_addReg]
    abel

variable [DecidableEq A]

theorem inView_undoEntry (h : Sound v) (now : Nat) (hv : v.historyBuffer = e :: rest) :
    inView (undoEntry now v e) = inView v := by
  have hund : Undoes v.renameMap (e :: rest) := hv ▸ h
  unfold inView held undoEntry
  rw [hv, displaced_cons]
  split
  · rw [zero_add]
    rfl
  · have hmap := mapped_update v.renameMap e.archReg e.prevPhysReg
    rw [hund.1] at hmap
    rw [add_assoc _ (mapped v.renameMap), ← add_assoc (mapped v.renameMap), ← hmap]
    dsimp only
    -- the register waits to be free, or it is leaked
    rcases v.chaosRob.maybeDelayFree_cases now e.newPhysReg with ⟨hfalse, hleaked⟩ | ⟨htrue, hleaked⟩
    · rw [hfalse, hleaked, if_neg Bool.false_ne_true, ← Multiset.coe_add, Multiset.coe_singleton, List.tail_cons]
      abel
    · rw [htrue, hleaked, if_pos rfl, ← Multiset.coe_add, Multiset.coe_singleton, List.tail_cons]
      abel

variable [DecidableEq C] {K : RegClasses A P C}

theorem inView_renameDest (hnodup : (inView v).Nodup) (seqNum : Nat) (d : Dest A) :
    inView (renameDest K seqNum v d) = inView v := by
  unfold renameDest
  dsimp only
  split
  · unfold inView held
    rw [displaced_cons, if_pos rfl, zero_add]
  · split
    · rfl
    · rename_i reg rest hlist
      have hne := ne_of_free hnodup hlist d.archReg
      have hmap := mapped_update v.renameMap d.archReg reg
      unfold inView held
      dsimp only
      rw [displaced_cons, if_neg hne, ← free_pop hlist]
      calc _ = free (Function.update v.freeLists (K.arch d.archReg) rest) + v.freeingInProgress +
            (mapped (Function.update v.renameMap d.archReg reg) + {v.renameMap d.archReg}) +
            displaced v.historyBuffer + v.chaosRob.leaked := by abel
        _ = _ := by
          rw [hmap]
          abel

theorem inView_act (h : Sound v) (hnodup : (inView v).Nodup) (a : RenameAct A P) : inView (act K v a) = inView v := by
  cases a with
  | rename seqNum dests =>
    dsimp only [act]
    split
    · exact List.foldlRecOn dests _ (motive := fun w => inView w = inView v) rfl
        fun w hw d _ => (inView_renameDest (hw ▸ hnodup) seqNum d).trans hw
    · rfl
  | squash seqNum now =>
    have hboth : Sound (act K v (.squash seqNum now)) ∧ inView (act K v (.squash seqNum now)) = inView v :=
      doSquash_keeps (I := fun w => Sound w ∧ inView w = inView v) (fun w e rest hw hcons _ =>
        ⟨hw.1.undoEntry now hcons, (inView_undoEntry hw.1 now hcons).trans hw.2⟩) ⟨h, rfl⟩
    exact hboth.2
  | setSquashed => rfl
  | release =>
    unfold inView held act
    dsimp only
    rw [free_foldl_addReg, Multiset.coe_nil]
    abel
  | commit seqNum =>
    exact removeFromHistory_keeps (I := fun w => inView w = inView v)
      (fun w e rest hw hlast _ => (inView_retireEntry hlast).trans hw) rfl

end RenameView

/-! ### The stage -/

namespace RenameStage

open RenameView

def view (s : RenameStage T A P C cfg) (tid : T) : RenameView A P C cfg :=
  { toRenameThread := s.threads tid, toRenameShared := s.shared }

variable [DecidableEq T] [DecidableEq A] [DecidableEq P] [DecidableEq C]

def step (K : RegClasses A P C) (s : RenameStage T A P C cfg) (e : T × RenameAct A P) : RenameStage T A P C cfg :=
  let v := (s.view e.1).act K e.2
  ⟨Function.update s.threads e.1 v.toRenameThread, v.toRenameShared⟩

def run (K : RegClasses A P C) (s : RenameStage T A P C cfg) (es : List (T × RenameAct A P)) : RenameStage T A P C cfg :=
  es.foldl (step K) s

variable {K : RegClasses A P C} {s : RenameStage T A P C cfg}

theorem view_step (s : RenameStage T A P C cfg) (e : T × RenameAct A P) :
    (step K s e).view e.1 = (s.view e.1).act K e.2 := by
  unfold view step
  dsimp only
  rw [Function.update_self]
  rfl

theorem threads_step_of_ne (s : RenameStage T A P C cfg) {e : T × RenameAct A P} {t : T} (ht : t ≠ e.1) :
    (step K s e).threads t = s.threads t := Function.update_of_ne ht _ _

theorem sound_step (h : ∀ t, Sound (s.view t)) (e : T × RenameAct A P) (t : T) : Sound ((step K s e).view t) := by
  by_cases ht : t = e.1
  · subst ht
    rw [view_step]
    exact (h e.1).act e.2
  · unfold Sound view
    rw [threads_step_of_ne s ht]
    exact h t

theorem sound_run (h : ∀ t, (s.threads t).historyBuffer = []) (es : List (T × RenameAct A P)) :
    ∀ t, Sound ((run K s es).view t) := by
  refine List.foldlRecOn es (step K) (motive := fun x : RenameStage T A P C cfg => ∀ t, Sound (x.view t)) (fun t => ?_)
    fun x hx e _ => sound_step hx e
  show Undoes (s.threads t).renameMap (s.threads t).historyBuffer
  rw [h t]
  trivial

theorem recovered_step (h : ∀ t, Sound (s.view t)) {e : T × RenameAct A P} {tid : T} {n : Nat}
    (hn : e.1 = tid → Behind n e.2) : recovered n ((step K s e).view tid) = recovered n (s.view tid) := by
  by_cases htid : e.1 = tid
  · subst htid
    rw [view_step]
    exact recovered_act (h e.1) (hn rfl)
  · unfold recovered view
    rw [threads_step_of_ne s (Ne.symm htid)]

theorem recovered_run (h : ∀ t, Sound (s.view t)) {es : List (T × RenameAct A P)} {tid : T} {n : Nat}
    (hn : ∀ e ∈ es, e.1 = tid → Behind n e.2) : recovered n ((run K s es).view tid) = recovered n (s.view tid) := by
  induction es generalizing s with
  | nil => rfl
  | cons e es ih =>
    rw [List.forall_mem_cons] at hn
    exact (ih (sound_step h e) hn.2).trans (recovered_step h hn.1)

theorem recovered_squash (s : RenameStage T A P C cfg) (tid : T) (n now : Nat) :
    recovered n ((step K s (tid, .squash n now)).view tid) =
      ((step K s (tid, .squash n now)).threads tid).renameMap := by
  have hview := view_step (K := K) s (tid, .squash n now)
  have hmap := congrArg (fun v => v.renameMap) hview
  rw [hview]
  exact (recovered_doSquash n now).trans hmap.symm

/-- Whatever the threads do behind an instruction of a thread, a squash up to the instruction gives the thread the map
that it had then, with and without leaks. -/
theorem squash_recovers (h : ∀ t, (s.threads t).historyBuffer = []) (before after : List (T × RenameAct A P)) {tid : T}
    {n : Nat} (hold : ∀ e ∈ ((run K s before).threads tid).historyBuffer, e.instSeqNum ≤ n)
    (hafter : ∀ e ∈ after, e.1 = tid → Behind n e.2) (now : Nat) :
    ((run K s (before ++ after ++ [(tid, .squash n now)])).threads tid).renameMap =
      ((run K s before).threads tid).renameMap := by
  have hbefore : recovered n ((run K s before).view tid) = ((run K s before).threads tid).renameMap :=
    undo_append (h := []) hold
  have hlast : ∀ e ∈ after ++ [(tid, .squash n now)], e.1 = tid → Behind n e.2 := by
    rw [List.forall_mem_append, List.forall_mem_singleton]
    exact ⟨hafter, fun _ => Nat.le_refl n⟩
  have hall := recovered_run (K := K) (sound_run (K := K) h before) hlast
  rw [hbefore] at hall
  rw [← hall, List.append_assoc, run, List.foldl_append, List.foldl_append, run, run, List.foldl_append]
  exact (recovered_squash _ tid n now).symm

/-- Two threads with two registers each, three free registers, and an injector that leaks one. -/
def twoThreads : RenameStage Bool Bool Nat Unit
    { fi_mode := .SpecLeak, probability := 1, first_clock := 0, last_clock := 0, max_faults := 1, uniform := fun _ => 0 } where
  threads t := { renameMap := fun a => 2 * t.toNat + a.toNat }
  shared := { freeLists := fun _ => [4, 5, 6], chaosRob := { rng := { draw := fun _ => 0 } } }

def oneClass : RegClasses Bool Nat Unit := ⟨fun _ => (), fun _ => ()⟩

theorem twoThreads_squash_recovers : ((run oneClass twoThreads [(true, .rename 1 [⟨false, 0⟩]), (false, .rename 1 [⟨true, 0⟩]),
    (true, .rename 2 [⟨false, 0⟩]), (true, .commit 1), (true, .squash 1 0)]).threads true).renameMap false = 4 :=
  congrFun (squash_recovers (K := oneClass) (s := twoThreads) (fun _ => rfl) [(true, .rename 1 [⟨false, 0⟩])]
    [(false, .rename 1 [⟨true, 0⟩]), (true, .rename 2 [⟨false, 0⟩]), (true, .commit 1)] (n := 1)
    (by decide) (by simp [Behind]) 0) false

variable [Fintype T] [Fintype A] [Fintype C]

def total (s : RenameStage T A P C cfg) : Multiset P :=
  free s.shared.freeLists + ∑ t, held (s.threads t) + s.shared.chaosRob.leaked

omit [DecidableEq A] [DecidableEq C] in
theorem total_eq (s : RenameStage T A P C cfg) (tid : T) :
    total s = inView (s.view tid) + ∑ t ∈ Finset.univ.erase tid, held (s.threads t) := by
  unfold total inView
  rw [← Finset.add_sum_erase _ _ (Finset.mem_univ tid)]
  show free s.shared.freeLists + (held (s.threads tid) + _) + _ = free s.shared.freeLists + held (s.threads tid) + _ + _
  abel

theorem total_step (h : ∀ t, Sound (s.view t)) (hnodup : (total s).Nodup) (e : T × RenameAct A P) :
    total (step K s e) = total s := by
  have hothers : ∑ t ∈ Finset.univ.erase e.1, held ((step K s e).threads t) =
      ∑ t ∈ Finset.univ.erase e.1, held (s.threads t) :=
    Finset.sum_congr rfl fun t ht => by rw [threads_step_of_ne s (Finset.ne_of_mem_erase ht)]
  rw [total_eq s e.1] at hnodup ⊢
  rw [total_eq _ e.1, view_step, hothers, inView_act (h e.1) (Multiset.nodup_add.1 hnodup).1 e.2]

/-- No register is in flight, and no register is in two places. -/
structure Fresh (s : RenameStage T A P C cfg) : Prop where
  history : ∀ t, (s.threads t).historyBuffer = []
  freeing : ∀ t, (s.threads t).freeingInProgress = []
  leaked : s.shared.chaosRob.leaked = []
  accounted : s.shared.chaosRob.Accounted
  nodup : (total s).Nodup

theorem total_run (h : Fresh s) (es : List (T × RenameAct A P)) :
    total (run K s es) = total s ∧ (run K s es).shared.chaosRob.Accounted := by
  have hkeep : (∀ t, Sound ((run K s es).view t)) ∧ total (run K s es) = total s ∧
      (run K s es).shared.chaosRob.Accounted := by
    refine List.foldlRecOn es (step K) (motive := fun x => (∀ t, Sound (x.view t)) ∧ total x = total s ∧
      x.shared.chaosRob.Accounted) ⟨sound_run (K := K) h.history [], rfl, h.accounted⟩ ?_
    rintro x ⟨hsound, htotal, hacc⟩ e -
    exact ⟨sound_step hsound e, (total_step hsound (htotal ▸ h.nodup) e).trans htotal,
      accounted_act (v := x.view e.1) hacc e.2⟩
  exact hkeep.2

/-- In every run the registers are those of the beginning, each in one place; the counted ones are leaked, and they stay
in the budget. -/
theorem registers_conserved (h : Fresh s) (es : List (T × RenameAct A P)) :
    total (run K s es) = total s ∧ (total (run K s es)).Nodup ∧
    (run K s es).shared.chaosRob.leaked.length = (run K s es).shared.chaosRob.numSpecLeak ∧
    (cfg.max_faults = 0 ∨ (run K s es).shared.chaosRob.numSpecLeak ≤ cfg.max_faults) := by
  obtain ⟨htotal, hacc⟩ := total_run (K := K) h es
  exact ⟨htotal, htotal ▸ h.nodup, hacc.length, hacc.budget⟩

theorem twoThreads_fresh : Fresh twoThreads :=
  ⟨fun _ => rfl, fun _ => rfl, rfl, ⟨rfl, rfl, .inr (Nat.zero_le _)⟩, by decide⟩

def leak : List (Bool × RenameAct Bool Nat) := [(true, .rename 1 [⟨false, 0⟩]), (true, .squash 0 0), (true, .release)]

theorem twoThreads_conserved : (run oneClass twoThreads leak).shared.chaosRob.leaked = [4] ∧
    total (run oneClass twoThreads leak) = total twoThreads :=
  ⟨rfl, (registers_conserved twoThreads_fresh leak).1⟩

omit [DecidableEq T] [DecidableEq A] [DecidableEq C] in
theorem card_total (hhistory : ∀ t, (s.threads t).historyBuffer = [])
    (hfreeing : ∀ t, (s.threads t).freeingInProgress = []) :
    (total s).card =
      (free s.shared.freeLists).card + Fintype.card T * Fintype.card A + s.shared.chaosRob.leaked.length := by
  have hheld : ∀ t, (held (s.threads t)).card = Fintype.card A := by
    intro t
    unfold held
    rw [hhistory t, hfreeing t]
    simp [mapped, displaced]
  unfold total
  simp [hheld]

/-- When nothing is in flight, each leak has cost a free register for good. -/
theorem free_of_drained (h : Fresh s) (es : List (T × RenameAct A P))
    (hhistory : ∀ t, ((run K s es).threads t).historyBuffer = [])
    (hfreeing : ∀ t, ((run K s es).threads t).freeingInProgress = []) :
    (free (run K s es).shared.freeLists).card + (run K s es).shared.chaosRob.numSpecLeak =
      (free s.shared.freeLists).card := by
  obtain ⟨htotal, hacc⟩ := total_run (K := K) h es
  have hcard := congrArg Multiset.card htotal
  rw [card_total hhistory hfreeing, card_total h.history h.freeing, h.leaked, hacc.length, List.length_nil] at hcard
  omega

theorem twoThreads_free : (free (run oneClass twoThreads leak).shared.freeLists).card + 1 = 3 :=
  free_of_drained (K := oneClass) twoThreads_fresh leak (by decide) (by decide)

end RenameStage

end GemFI.Reg
