import GemFI.Lib.Run
import GemFI.Mem.CHAOSMem

/-!
# The addresses that CHAOSMem accesses

The constructor clamps the configured window to the memory, an attack draws an address from the window and may
redirect it, and a check visits the addresses of the recorded faults again.  All of them are legal, in every run,
exactly if the redirection keeps the clamped window inside the memory and the configured window is not wholly below it
(`accesses_legal_iff`).  Without interleaving and redirection the first means that the window starts before the end of
the memory.
-/

namespace GemFI.Mem

/-! ### Address ranges -/

/-- A range of addresses without its end.  An interleaved one has only the addresses whose selected bits match. -/
structure AddrRange where
  _start : BitVec 64
  _end : BitVec 64
  masks : List (BitVec 64) := []
  intlvMatch : Nat := 0
  deriving DecidableEq, Repr

namespace AddrRange

def popCount (n : Nat) : Nat := ((List.range 64).filter n.testBit).length

def size (range : AddrRange) : BitVec 64 := (range._end - range._start) >>> range.masks.length

def sel (range : AddrRange) (a : Nat) : Nat :=
  range.masks.zipIdx.foldl (fun sel mask => sel ||| (popCount (a &&& mask.1.toNat) % 2) <<< mask.2) 0

def contains (range : AddrRange) (a : Nat) : Bool :=
  decide (range._start.toNat ≤ a ∧ a < range._end.toNat) && decide (range.sel a = range.intlvMatch)

structure Contiguous (range : AddrRange) : Prop where
  masks : range.masks = []
  intlvMatch : range.intlvMatch = 0
  nonempty : range._start < range._end

theorem Contiguous.contains_iff {range : AddrRange} (h : range.Contiguous) (a : Nat) :
    range.contains a = true ↔ range._start.toNat ≤ a ∧ a < range._end.toNat := by
  simp [contains, sel, h.masks, h.intlvMatch]

theorem lt_of_contains {range : AddrRange} {a : Nat} (h : range.contains a = true) :
    range._start.toNat ≤ a ∧ a < range._end.toNat := by
  simp only [contains, Bool.and_eq_true, decide_eq_true_eq] at h
  exact h.1

end AddrRange

/-! ### The window -/

def clampWindow (range : AddrRange) (addr_start addr_end : BitVec 64) : BitVec 64 × BitVec 64 :=
  let mem_start := range._start
  let mem_size := range.size
  let target_start := if addr_start < mem_start then mem_start else addr_start
  let last_byte := mem_start + mem_size - 1
  let target_end := if addr_end = 0 ∨ addr_end < target_start then last_byte else addr_end
  (target_start, if last_byte < target_end then last_byte else target_end)

theorem clampWindow_toNat (range : AddrRange) (addr_start addr_end : BitVec 64) :
    (clampWindow range addr_start addr_end).1.toNat = max addr_start.toNat range._start.toNat ∧
    (clampWindow range addr_start addr_end).2.toNat = min (range._start + range.size - 1).toNat
      (if addr_end = 0 ∨ addr_end.toNat < max addr_start.toNat range._start.toNat then
        (range._start + range.size - 1).toNat else addr_end.toNat) := by
  obtain ⟨last, hlast⟩ : ∃ last, last = range._start + range.size - 1 := ⟨_, rfl⟩
  obtain ⟨first, hfirst⟩ : ∃ first, first = if addr_start < range._start then range._start else addr_start := ⟨_, rfl⟩
  have hstart : first.toNat = max addr_start.toNat range._start.toNat := by
    rw [hfirst]
    split <;> bv_omega
  simp only [clampWindow, ← hlast, ← hfirst]
  simp only [BitVec.lt_def, ← hstart]
  refine ⟨trivial, ?_⟩
  by_cases hopen : addr_end = 0 ∨ addr_end.toNat < first.toNat
  · rw [if_pos hopen, if_pos hopen, if_neg (by omega)]
    omega
  · rw [if_neg hopen, if_neg hopen]
    split <;> omega

def MemConfig.attach (cfg : MemConfig) (range : AddrRange) (addr_start addr_end addrXorMask : BitVec 64) : MemConfig :=
  { cfg with
    target_start := (clampWindow range addr_start addr_end).1.toNat
    target_end := (clampWindow range addr_start addr_end).2.toNat
    addr_xor_mask := (if addrXorMask ≠ 0 then addrXorMask else 0x1000).toNat }

/-- The configured window; an end that is 0 or before the start leaves it open. -/
def InConfigured (addr_start addr_end : BitVec 64) (a : Nat) : Prop :=
  addr_start.toNat ≤ a ∧ (addr_end = 0 ∨ addr_end < addr_start ∨ a ≤ addr_end.toNat)

namespace CHAOSMem

variable {cfg : MemConfig}

def Drawn (cfg : MemConfig) (a : Nat) : Prop := ∃ r < windowSize cfg, a = (cfg.target_start + r) % 2 ^ 64

theorem drawn_of_rng (cfg : MemConfig) (rng : Rng) :
    Drawn cfg ((cfg.target_start + (rng.below (windowSize cfg)).1) % 2 ^ 64) := by
  have hpos : 0 < windowSize cfg := Nat.succ_pos _
  exact ⟨_, Nat.mod_lt _ hpos, rfl⟩

theorem drawn_iff (hle : cfg.target_start ≤ cfg.target_end) (hlt : cfg.target_end < 2 ^ 64) (a : Nat) :
    Drawn cfg a ↔ cfg.target_start ≤ a ∧ a ≤ cfg.target_end := by
  have hsize : windowSize cfg = cfg.target_end - cfg.target_start + 1 := by
    unfold windowSize
    omega
  constructor
  · rintro ⟨r, hr, rfl⟩
    rw [hsize] at hr
    rw [Nat.mod_eq_of_lt (by omega)]
    omega
  · rintro ⟨h1, h2⟩
    refine ⟨a - cfg.target_start, by omega, ?_⟩
    rw [Nat.mod_eq_of_lt (by omega)]
    omega

theorem drawn_start (hlt : cfg.target_start < 2 ^ 64) : Drawn cfg cfg.target_start :=
  ⟨0, Nat.succ_pos _, by rw [Nat.add_zero, Nat.mod_eq_of_lt hlt]⟩

theorem drawn_last (hinv : cfg.target_end < cfg.target_start) (hlt : cfg.target_start < 2 ^ 64) :
    Drawn cfg (2 ^ 64 - 1) := by
  refine ⟨2 ^ 64 - 1 - cfg.target_start, ?_, ?_⟩
  · unfold windowSize
    omega
  · rw [Nat.mod_eq_of_lt (by omega)]
    omega

/-! ### Runs -/

def accesses (s : CHAOSMem cfg) : Event → List Nat
  | .attack => if s.attackEvent.isSome then [(drawFault s).1.target_addr] else []
  | .check => if s.periodicCheck.isSome then (s.permanent_faults.entries.filter (·.2.update)).map (·.1) else []
  | .write _ _ => []

theorem init_attackEvent (cfg : MemConfig) (memory : Nat → BitVec 8) (draw : Nat → Nat) :
    (init cfg memory draw).attackEvent.isSome ∧ (init cfg memory draw).rng.draw = draw ∧
    (init cfg memory draw).permanent_faults = ∅ := ⟨rfl, rfl, rfl⟩

theorem along_accesses {P : Nat → Prop} (hP : ∀ a, Drawn cfg a → P (redirect cfg a)) (memory : Nat → BitVec 8)
    (draw : Nat → Nat) (es : List Event) :
    Along step (fun s e => ∀ a ∈ accesses s e, P a) (init cfg memory draw) es := by
  -- the keys of the table are addresses of earlier attacks
  refine Along.of_invariant (I := fun s => ∀ k f, s.permanent_faults.lookup k = some f → P k) ?_ ?_ es
  · intro s e hs
    have hdraw : P (drawFault s).1.target_addr := hP _ (drawn_of_rng cfg s.rng)
    cases e with
    | attack =>
      refine ⟨fun a ha => ?_, ?_⟩
      · simp only [accesses, List.mem_ite_nil_right, List.mem_singleton] at ha
        rw [ha.2]
        exact hdraw
      · unfold step
        cases hat : s.attackEvent with
        | none => exact hs
        | some now =>
          obtain ⟨-, htable, -⟩ := attackMemory_spec { s with attackEvent := none } now
          intro k f hk
          dsimp only at hk
          rw [htable, lookup_record] at hk
          split at hk
          · rename_i hkey
            rw [hkey.1]
            exact hdraw
          · exact hs k f hk
    | check =>
      refine ⟨fun a ha => ?_, ?_⟩
      · simp only [accesses, List.mem_ite_nil_right, List.mem_map, List.mem_filter] at ha
        obtain ⟨-, entry, ⟨hmem, -⟩, rfl⟩ := ha
        exact hs entry.1 entry.2 (AList.mem_lookup_iff.2 hmem)
      · unfold step
        cases hat : s.periodicCheck with
        | none => exact hs
        | some now =>
          intro k f hk
          rw [(checkPermanent_table _ now).1] at hk
          exact hs k f hk
    | write addr data => exact ⟨fun a ha => by simp [accesses] at ha, hs⟩
  · intro k f hk
    rw [(init_attackEvent cfg memory draw).2.2] at hk
    simp at hk

theorem along_accesses_iff (P : Nat → Prop) :
    (∀ memory draw es, Along step (fun s e => ∀ a ∈ accesses s e, P a) (init cfg memory draw) es) ↔
      ∀ a, Drawn cfg a → P (redirect cfg a) := by
  refine ⟨fun h => ?_, fun h memory draw es => along_accesses h memory draw es⟩
  rintro a ⟨r, hr, rfl⟩
  obtain ⟨hsome, hdraw, -⟩ := init_attackEvent cfg (fun _ => 0#8) fun _ => r
  have hattack := (h (fun _ => 0#8) (fun _ => r) [.attack]).1
  refine hattack _ ?_
  simp only [accesses, hsome, ↓reduceIte, List.mem_singleton]
  simp only [drawFault, Rng.below, Rng.next, hdraw, Nat.mod_eq_of_lt hr]

end CHAOSMem

/-! ### Legal addresses -/

section Legal

open CHAOSMem

variable (base : MemConfig) (range : AddrRange) (addr_start addr_end addrXorMask : BitVec 64)

private theorem attach_window :
    let cfg := base.attach range addr_start addr_end addrXorMask
    cfg.target_start = max addr_start.toNat range._start.toNat ∧
    cfg.target_end = min (range._start + range.size - 1).toNat
      (if addr_end = 0 ∨ addr_end.toNat < max addr_start.toNat range._start.toNat then
        (range._start + range.size - 1).toNat else addr_end.toNat) ∧
    cfg.target_start < 2 ^ 64 ∧ cfg.target_end < 2 ^ 64 := by
  obtain ⟨hstart, hend⟩ := clampWindow_toNat range addr_start addr_end
  exact ⟨hstart, hend, BitVec.isLt _, BitVec.isLt _⟩

private theorem inConfigured_iff
    (hrange : ∀ a, Drawn (base.attach range addr_start addr_end addrXorMask) a → range.contains a = true) :
    (∀ a, Drawn (base.attach range addr_start addr_end addrXorMask) a → InConfigured addr_start addr_end a) ↔
      addr_end = 0 ∨ addr_end < addr_start ∨ range._start ≤ addr_end := by
  obtain ⟨hstart, hend, hlt, hendlt⟩ := attach_window base range addr_start addr_end addrXorMask
  generalize base.attach range addr_start addr_end addrXorMask = cfg at *
  -- a window that wraps would contain the last address of all, which is in no range
  have hle : cfg.target_start ≤ cfg.target_end := by
    by_contra hinv
    have hlast := AddrRange.lt_of_contains (hrange _ (drawn_last (by omega) hlt))
    have hbound := range._end.isLt
    omega
  constructor
  · intro h
    by_contra hbelow
    simp only [not_or] at hbelow
    obtain ⟨h0, h1, h2⟩ := hbelow
    have hin := h _ (drawn_start hlt)
    unfold InConfigured at hin
    rcases hin.2 with h3 | h3 | h3
    · exact h0 h3
    · bv_omega
    · bv_omega
  · intro h a ha
    rw [drawn_iff hle hendlt] at ha
    refine ⟨by omega, ?_⟩
    rcases h with h | h | h
    · exact Or.inl h
    · exact Or.inr (Or.inl h)
    · by_cases hopen : addr_end < addr_start
      · exact Or.inr (Or.inl hopen)
      · by_cases h0 : addr_end = 0
        · exact Or.inl h0
        · rw [if_neg (by bv_omega)] at hend
          exact Or.inr (Or.inr (by omega))

private theorem drawn_contains_iff (hrange : range.Contiguous) :
    (∀ a, Drawn (base.attach range addr_start addr_end addrXorMask) a → range.contains a = true) ↔
      addr_start < range._end := by
  obtain ⟨hstart, hend, hlt, hendlt⟩ := attach_window base range addr_start addr_end addrXorMask
  generalize base.attach range addr_start addr_end addrXorMask = cfg at *
  have hlast : (range._start + range.size - 1).toNat = range._end.toNat - 1 := by
    have hnonempty := hrange.nonempty
    rw [AddrRange.size, hrange.masks, List.length_nil, BitVec.ushiftRight_zero]
    bv_omega
  rw [hlast] at hend
  have hnonempty := hrange.nonempty
  constructor
  · intro h
    have hfirst := AddrRange.lt_of_contains (h _ (drawn_start hlt))
    bv_omega
  · intro h a ha
    have hle : cfg.target_start ≤ cfg.target_end := by
      split at hend <;> bv_omega
    rw [drawn_iff hle hendlt] at ha
    rw [hrange.contains_iff]
    bv_omega

/-- In all runs, whatever is drawn, the injector accesses addresses of the memory only, and without redirection addresses
of the configured window only, exactly if the redirected window is inside the memory and the configured one not wholly
below it.  Without redirection and interleaving the former says that the window starts before the end of the memory. -/
theorem accesses_legal_iff :
    ((∀ memory draw es, Along step (fun s e => ∀ a ∈ accesses s e, range.contains a = true ∧
        (base.addr_mode = .fixed → InConfigured addr_start addr_end a))
        (init (base.attach range addr_start addr_end addrXorMask) memory draw) es) ↔
      (∀ a, Drawn (base.attach range addr_start addr_end addrXorMask) a →
        range.contains (redirect (base.attach range addr_start addr_end addrXorMask) a) = true) ∧
      (base.addr_mode = .fixed → addr_end = 0 ∨ addr_end < addr_start ∨ range._start ≤ addr_end)) ∧
    (range.Contiguous → base.addr_mode = .fixed →
      ((∀ a, Drawn (base.attach range addr_start addr_end addrXorMask) a →
        range.contains (redirect (base.attach range addr_start addr_end addrXorMask) a) = true) ↔
      addr_start < range._end)) := by
  have hredirect : base.addr_mode = .fixed →
      ∀ a, redirect (base.attach range addr_start addr_end addrXorMask) a = a := by
    intro hmode a
    simp [redirect, MemConfig.attach, hmode]
  constructor
  · rw [along_accesses_iff fun a => range.contains a = true ∧
      (base.addr_mode = .fixed → InConfigured addr_start addr_end a)]
    constructor
    · intro h
      refine ⟨fun a ha => (h a ha).1, fun hmode => ?_⟩
      have hin : ∀ a, Drawn (base.attach range addr_start addr_end addrXorMask) a → range.contains a = true ∧
          InConfigured addr_start addr_end a := by
        intro a ha
        have hlegal := h a ha
        rw [hredirect hmode] at hlegal
        exact ⟨hlegal.1, hlegal.2 hmode⟩
      exact (inConfigured_iff base range addr_start addr_end addrXorMask fun a ha => (hin a ha).1).1
        fun a ha => (hin a ha).2
    · rintro ⟨hrange, hbelow⟩ a ha
      refine ⟨hrange a ha, fun hmode => ?_⟩
      have hin : ∀ a, Drawn (base.attach range addr_start addr_end addrXorMask) a → range.contains a = true := by
        intro a ha
        have hlegal := hrange a ha
        rwa [hredirect hmode] at hlegal
      rw [hredirect hmode]
      exact (inConfigured_iff base range addr_start addr_end addrXorMask hin).2 (hbelow hmode) a ha
  · intro hrange hmode
    rw [← drawn_contains_iff base range addr_start addr_end addrXorMask hrange]
    simp only [hredirect hmode]

end Legal

def fourKiB : AddrRange := { _start := 0, _end := 0x1000 }

/-- The whole of it is a legal window. -/
theorem accesses_legal_fourKiB :
    fourKiB.Contiguous ∧ oneByte.addr_mode = .fixed ∧
    ∀ memory draw es, Along CHAOSMem.step (fun s e => ∀ a ∈ s.accesses e, fourKiB.contains a = true ∧
      (oneByte.addr_mode = .fixed → InConfigured 0 0xfff a))
      (CHAOSMem.init (oneByte.attach fourKiB 0 0xfff 0) memory draw) es := by
  have hrange : fourKiB.Contiguous := ⟨rfl, rfl, by decide⟩
  obtain ⟨hlegal, hfixed⟩ := accesses_legal_iff oneByte fourKiB 0 0xfff 0
  exact ⟨hrange, rfl, hlegal.2 ⟨(hfixed hrange rfl).2 (by decide), fun _ => Or.inr (Or.inr (by decide))⟩⟩

/-- The injector, before its first attack, for draws of 0 and a memory of zeros. -/
def attachedTo (addr_mode : AddrMode) (range : AddrRange) (addr_start addr_end : BitVec 64) :
    CHAOSMem ({ oneByte with addr_mode := addr_mode }.attach range addr_start addr_end 0) :=
  .init _ (fun _ => 0#8) fun _ => 0

/-- With the default mask, the redirection of address 0 leaves the memory of 4 KiB, in the attack and in the check that
follows; so does a window that starts after the memory.  A window that is wholly below a memory is replaced by it. -/
theorem accesses_not_legal :
    ((attachedTo .addr_map_sub fourKiB 0 0).accesses .attack = [0x1000] ∧
      ((attachedTo .addr_map_sub fourKiB 0 0).step .attack).accesses .check = [0x1000] ∧
      fourKiB.contains 0x1000 = false) ∧
    ((attachedTo .fixed fourKiB 0x2000 0x2fff).accesses .attack = [0x2000] ∧ fourKiB.contains 0x2000 = false) ∧
    ((attachedTo .fixed { _start := 0x1000, _end := 0x2000 } 0x10 0x1f).accesses .attack = [0x1000] ∧
      ¬InConfigured 0x10 0x1f 0x1000) := by
  refine ⟨by decide, by decide, by decide, ?_⟩
  unfold InConfigured
  decide

end GemFI.Mem
