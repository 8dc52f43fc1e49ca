import GemFI.Mem.CHAOSMem

/-!
# Stuck bits of the memory

The table of CHAOSMem has one record for each address, so the last stuck-at fault of a byte replaces the earlier
ones.  A check therefore holds every bit that any stuck-at fault covered at the value of the latest fault covering it,
for all program writes before, exactly if the last fault of each byte covers the bits of all earlier ones
(`stuck_bits_held_iff`).
-/

namespace GemFI.Mem

open CHAOSMem Force

variable {cfg : MemConfig}

def forcesAt (addr : Nat) (injections : List Injection) : List (Force 8) :=
  injections.filterMap fun f => if f.target_addr = addr then f.fault_type.force f.mask else none

theorem forcesAt_concat (addr : Nat) (l : List Injection) (f : Injection) :
    forcesAt addr (l ++ [f]) =
      forcesAt addr l ++ (if f.target_addr = addr then f.fault_type.force f.mask else none).toList := by
  unfold forcesAt
  rw [List.filterMap_append]
  cases hf : (if f.target_addr = addr then f.fault_type.force f.mask else none) with
  | none => simp [hf]
  | some x => simp [hf]

def HoldsLast (s : CHAOSMem cfg) : Prop :=
  ∀ addr b, ((s.permanent_faults.lookup addr).elim b fun fault => fault.check b) =
    (forcesAt addr s.injections).getLast?.elim b fun f => f.apply b

private theorem holdsLast_record {s t : CHAOSMem cfg} (h : HoldsLast s) {f : Injection}
    (htable : t.permanent_faults = record s.permanent_faults f.target_addr f.fault_type f.mask)
    (hlog : t.injections = s.injections ++ [f]) : HoldsLast t := by
  intro addr b
  rw [htable, hlog, lookup_record, forcesAt_concat]
  by_cases haddr : f.target_addr = addr
  · subst haddr
    cases hforce : f.fault_type.force f.mask with
    | none => simpa [hforce] using h f.target_addr b
    | some x => simpa [PermanentFault.check] using reapply_eq hforce true b
  · have hne : ¬addr = f.target_addr := fun heq => haddr heq.symm
    simpa [haddr, hne] using h addr b

theorem holdsLast_step {s : CHAOSMem cfg} (h : HoldsLast s) (e : Event) : HoldsLast (step s e) := by
  rcases e with _ | _ | ⟨addr, data⟩
  · unfold step
    cases hat : s.attackEvent with
    | none => exact h
    | some now =>
      obtain ⟨-, htable, hlog⟩ := attackMemory_spec { s with attackEvent := none } now
      exact holdsLast_record h htable hlog
  · unfold step
    cases hat : s.periodicCheck with
    | none => exact h
    | some now =>
      obtain ⟨htable, hlog⟩ := checkPermanent_table { s with periodicCheck := none } now
      intro addr b
      dsimp only
      rw [htable, hlog]
      exact h addr b
  · exact h

theorem holdsLast_run (cfg : MemConfig) (memory : Nat → BitVec 8) (draw : Nat → Nat) (es : List Event) :
    HoldsLast (run (init cfg memory draw) es) := by
  have h0 : HoldsLast (init cfg memory draw) := fun _ _ => rfl
  exact List.foldlRecOn es step h0 fun s hs e _ => holdsLast_step hs e

theorem HoldsLast.check {s : CHAOSMem cfg} (h : HoldsLast s) (now addr : Nat) :
    (checkPermanent s now).memory addr =
      (forcesAt addr s.injections).getLast?.elim (s.memory addr) fun f => f.apply (s.memory addr) := by
  rw [checkPermanent_memory]
  exact h addr (s.memory addr)

theorem HoldsLast.check_uncovered {s : CHAOSMem cfg} (h : HoldsLast s) (now addr : Nat) {i : Nat}
    (hi : latest (forcesAt addr s.injections) i = none) :
    ((checkPermanent s now).memory addr).getLsbD i = (s.memory addr).getLsbD i := by
  rw [h.check]
  cases hlast : (forcesAt addr s.injections).getLast? with
  | none => rfl
  | some f =>
    have hmask := latest_eq_none_iff.1 hi f (List.mem_of_getLast? hlast)
    simp [getLsbD_apply, hmask]

/-- After a check, every bit that a stuck-at fault covered has the value of the latest one covering it, and every other
bit is unchanged. -/
def HeldAfterCheck (s : CHAOSMem cfg) : Prop :=
  ∀ now addr i, ((checkPermanent s now).memory addr).getLsbD i =
    (latest (forcesAt addr s.injections) i).getD ((s.memory addr).getLsbD i)

private theorem run_writes (s : CHAOSMem cfg) (ws : List (Nat × BitVec 8)) :
    (run s (ws.map fun w => .write w.1 w.2)).injections = s.injections := by
  induction ws generalizing s with
  | nil => rfl
  | cons w ws ih => exact ih (step s (.write w.1 w.2))

/-- For every run and whatever the program writes after it, a check holds the stuck bits exactly if the last stuck-at
fault of each byte covers the bits of the earlier ones. -/
theorem stuck_bits_held_iff (cfg : MemConfig) (memory : Nat → BitVec 8) (draw : Nat → Nat) (es : List Event) :
    (∀ ws : List (Nat × BitVec 8), HeldAfterCheck (run (init cfg memory draw) (es ++ ws.map fun w => .write w.1 w.2))) ↔
    ∀ addr, LastCovers (forcesAt addr (run (init cfg memory draw) es).injections) := by
  have hlog : ∀ ws : List (Nat × BitVec 8), (run (init cfg memory draw)
      (es ++ ws.map fun w => .write w.1 w.2)).injections = (run (init cfg memory draw) es).injections := by
    intro ws
    unfold run
    rw [List.foldl_append]
    exact run_writes _ ws
  constructor
  · intro h addr
    rcases List.eq_nil_or_concat' (forcesAt addr (run (init cfg memory draw) es).injections) with hnil | ⟨fs, last, hfs⟩
    · rw [hnil]
      intro last hlast
      simp at hlast
    · rw [hfs, ← apply_getLast_iff]
      intro b i v hv
      -- the program writes `b` just before the check
      have hb : (run (init cfg memory draw) (es ++ [(addr, b)].map fun w => .write w.1 w.2)).memory addr = b := by
        unfold run
        rw [List.foldl_append]
        simp [step, write]
      have hheld := h [(addr, b)] 0 addr i
      rw [(holdsLast_run cfg memory draw _).check, hb, hlog, hfs, hv] at hheld
      simpa using hheld
  · intro h ws now addr i
    have hholds := holdsLast_run cfg memory draw (es ++ ws.map fun w => .write w.1 w.2)
    cases hv : latest (forcesAt addr (run (init cfg memory draw)
        (es ++ ws.map fun w => .write w.1 w.2)).injections) i with
    | none => exact hholds.check_uncovered now addr hv
    | some v =>
      rw [hholds.check]
      rw [hlog] at hv ⊢
      rcases List.eq_nil_or_concat' (forcesAt addr (run (init cfg memory draw) es).injections) with hnil | ⟨fs, last, hfs⟩
      · rw [hnil] at hv
        simp [latest] at hv
      · have hcovers := h addr
        rw [hfs] at hv hcovers ⊢
        rw [List.getLast?_concat]
        exact (apply_getLast_iff fs last).2 hcovers _ i v hv

/-- Bit 0 is stuck at one, then bit 1; when the program clears the byte, the check raises bit 1 only. -/
theorem earlier_stuck_bit_lost :
    let s := run (init oneByte (fun _ => 0#8) fun i => if i = 5 then 1 else 0) [.attack, .attack, .write 0 0#8, .check]
    forcesAt 0 s.injections = [⟨1#8, true⟩, ⟨2#8, true⟩] ∧ latest (forcesAt 0 s.injections) 0 = some true ∧
    s.memory 0 = 2#8 := by
  decide

end GemFI.Mem
