import GemFI.Mem.Fault
import Mathlib.Algebra.Order.Field.Rat
import Mathlib.Data.List.Nodup

/-!
# The exclusive monitors and CHAOSExMon

A load-exclusive sets the monitor of its core, and the memory notes a reservation when the load gets there.  A
store-conditional asks the monitor: CHAOSExMon can make it fail in spite of a reservation, or pass without one.  What
passes is sent to the memory, which has the last word.

The cores issue their requests in any order, and these reach the memory in any order.  In every interleaving, and in
both modes, the memory takes a store-conditional exactly if no write has started in its 16 bytes since the last
load-exclusive of the core in them (`storeCond_taken_iff`).  So a stale reservation does not lose an update, but for
what the reservations do not see (`storeCond_atomic`): atomic swaps, and writes that start before the 16 bytes and
reach into them.

The memory is behind no cache.  Events for waiting cores and the log are left out.
-/

namespace GemFI.Arm

open Mem (Rng)

abbrev Addr := BitVec 64

/-! ### The injector -/

namespace CHAOSExMon

inductive Mode where
  | ClearReservation | StaleReservation
  deriving DecidableEq, Repr

end CHAOSExMon

structure ExMonConfig where
  mode : CHAOSExMon.Mode
  probability : ℚ
  first_clock : Nat
  last_clock : Nat
  max_faults : Nat
  uniform : Nat → ℚ
  cacheBlockMask : Addr

structure CHAOSExMon (cfg : ExMonConfig) where
  rng : Rng
  faults_injected_count : Nat := 0
  numFaultsInjected : Nat := 0
  numClearReservations : Nat := 0
  numStaleReservations : Nat := 0
  numInWindowChecks : Nat := 0
  numOutOfWindow : Nat := 0

namespace CHAOSExMon

variable {cfg : ExMonConfig}

def gate (x : CHAOSExMon cfg) (now : Nat) : Bool × CHAOSExMon cfg :=
  if cfg.last_clock ≠ 0 ∧ cfg.last_clock * 1000 < now then (false, x)
  else if now < cfg.first_clock * 1000 then (false, { x with numOutOfWindow := x.numOutOfWindow + 1 })
  else
    let x : CHAOSExMon cfg := { x with numInWindowChecks := x.numInWindowChecks + 1 }
    if 1 ≤ cfg.probability then (true, x)
    else (decide (cfg.uniform x.rng.next.1 < cfg.probability), { x with rng := x.rng.next.2 })

def shouldInject (x : CHAOSExMon cfg) (now : Nat) : Bool × CHAOSExMon cfg :=
  if cfg.max_faults ≠ 0 ∧ cfg.max_faults ≤ x.faults_injected_count then (false, x) else gate x now

/-- The budget does not count here, and `numFaultsInjected` only takes the first fault. -/
def maybeClearReservationSC (x : CHAOSExMon cfg) (now : Nat) : Bool × CHAOSExMon cfg :=
  if cfg.mode ≠ .ClearReservation then (false, x)
  else
    let g := gate x now
    if g.1 then
      (true, { g.2 with
        numClearReservations := g.2.numClearReservations + 1
        numFaultsInjected := g.2.numFaultsInjected + if g.2.faults_injected_count = 0 then 1 else 0
        faults_injected_count := g.2.faults_injected_count + 1 })
    else g

def maybeStaleReservation (x : CHAOSExMon cfg) (now : Nat) : Bool × CHAOSExMon cfg :=
  if cfg.mode ≠ .StaleReservation then (false, x)
  else
    let g := shouldInject x now
    if g.1 then
      (true, { g.2 with
        faults_injected_count := g.2.faults_injected_count + 1
        numFaultsInjected := g.2.numFaultsInjected + 1
        numStaleReservations := g.2.numStaleReservations + 1 })
    else g

structure Counted (x y : CHAOSExMon cfg) (count faults cleared stale : Nat) : Prop where
  count : y.faults_injected_count = x.faults_injected_count + count
  faults : y.numFaultsInjected = x.numFaultsInjected + faults
  cleared : y.numClearReservations = x.numClearReservations + cleared
  stale : y.numStaleReservations = x.numStaleReservations + stale

variable (x : CHAOSExMon cfg) (now : Nat)

theorem gate_counted : Counted x (gate x now).2 0 0 0 0 := by
  unfold gate
  split
  · exact ⟨rfl, rfl, rfl, rfl⟩
  · split
    · exact ⟨rfl, rfl, rfl, rfl⟩
    · dsimp only
      split <;> exact ⟨rfl, rfl, rfl, rfl⟩

theorem maybeClearReservationSC_cases :
    ((maybeClearReservationSC x now).1 = false ∧ Counted x (maybeClearReservationSC x now).2 0 0 0 0) ∨
    ((maybeClearReservationSC x now).1 = true ∧ cfg.mode = .ClearReservation ∧
      Counted x (maybeClearReservationSC x now).2 1 (if x.faults_injected_count = 0 then 1 else 0) 1 0) := by
  obtain ⟨hcount, hfaults, hcleared, hstale⟩ := gate_counted x now
  unfold maybeClearReservationSC
  split
  · exact .inl ⟨rfl, rfl, rfl, rfl, rfl⟩
  · rename_i hmode
    dsimp only
    split
    · refine .inr ⟨rfl, not_not.1 hmode, congrArg (· + 1) hcount, ?_, congrArg (· + 1) hcleared, hstale⟩
      dsimp only
      rw [hfaults, hcount]
      rfl
    · rename_i hfalse
      exact .inl ⟨Bool.eq_false_iff.2 hfalse, hcount, hfaults, hcleared, hstale⟩

theorem maybeStaleReservation_cases :
    ((maybeStaleReservation x now).1 = false ∧ Counted x (maybeStaleReservation x now).2 0 0 0 0) ∨
    ((maybeStaleReservation x now).1 = true ∧ cfg.mode = .StaleReservation ∧
      (cfg.max_faults = 0 ∨ x.faults_injected_count < cfg.max_faults) ∧
      Counted x (maybeStaleReservation x now).2 1 1 0 1) := by
  obtain ⟨hcount, hfaults, hcleared, hstale⟩ := gate_counted x now
  unfold maybeStaleReservation shouldInject
  split
  · exact .inl ⟨rfl, rfl, rfl, rfl, rfl⟩
  · rename_i hmode
    dsimp only
    split
    · exact .inl ⟨rfl, rfl, rfl, rfl, rfl⟩
    · rename_i hbudget
      split
      · exact .inr ⟨rfl, not_not.1 hmode, by omega, congrArg (· + 1) hcount, congrArg (· + 1) hfaults, hcleared,
          congrArg (· + 1) hstale⟩
      · rename_i hfalse
        exact .inl ⟨Bool.eq_false_iff.2 hfalse, hcount, hfaults, hcleared, hstale⟩

end CHAOSExMon

/-! ### The monitors of the cores -/

/-- The two registers of the ISA that make up the monitor of a core. -/
structure Monitor where
  lockAddr : Addr := 0
  lockFlag : Bool := false
  deriving DecidableEq, Repr

variable {ι : Type} {cfg : ExMonConfig}

def block (cfg : ExMonConfig) (addr : Addr) : Addr := addr &&& cfg.cacheBlockMask

def handleLockedSnoop (cfg : ExMonConfig) (m : Monitor) (addr : Addr) : Monitor :=
  if m.lockFlag ∧ block cfg m.lockAddr = block cfg addr then { m with lockFlag := false } else m

def Monitor.Reserved (cfg : ExMonConfig) (m : Monitor) (addr : Addr) : Prop :=
  m.lockFlag = true ∧ block cfg addr = block cfg m.lockAddr

instance (m : Monitor) (addr : Addr) : Decidable (m.Reserved cfg addr) := inferInstanceAs (Decidable (_ ∧ _))

/-- `lockedWriteHandler`: whether the store-conditional passes. -/
def lockedWriteHandler (x : CHAOSExMon cfg) (m : Monitor) (addr : Addr) (now : Nat) : Bool × Monitor × CHAOSExMon cfg :=
  if ¬m.Reserved cfg addr then
    let stale := x.maybeStaleReservation now
    (stale.1, if stale.1 then m else { m with lockFlag := false }, stale.2)
  else
    let cleared := x.maybeClearReservationSC now
    (!cleared.1, if cleared.1 then { m with lockFlag := false } else m, cleared.2)

theorem lockedWriteHandler_cases (x : CHAOSExMon cfg) (m : Monitor) (addr : Addr) (now : Nat) :
    ((lockedWriteHandler x m addr now).1 = decide (m.Reserved cfg addr) ∧
      x.Counted (lockedWriteHandler x m addr now).2.2 0 0 0 0) ∨
    ((lockedWriteHandler x m addr now).1 = true ∧ ¬m.Reserved cfg addr ∧ cfg.mode = .StaleReservation ∧
      (cfg.max_faults = 0 ∨ x.faults_injected_count < cfg.max_faults) ∧
      x.Counted (lockedWriteHandler x m addr now).2.2 1 1 0 1) ∨
    ((lockedWriteHandler x m addr now).1 = false ∧ m.Reserved cfg addr ∧ cfg.mode = .ClearReservation ∧
      x.Counted (lockedWriteHandler x m addr now).2.2 1 (if x.faults_injected_count = 0 then 1 else 0) 1 0) := by
  unfold lockedWriteHandler
  split
  · rename_i hres
    rcases x.maybeStaleReservation_cases now with ⟨hfalse, hcounted⟩ | ⟨htrue, hstale⟩
    · exact .inl ⟨hfalse.trans (decide_eq_false hres).symm, hcounted⟩
    · exact .inr (.inl ⟨htrue, hres, hstale⟩)
  · rename_i hres
    rcases x.maybeClearReservationSC_cases now with ⟨hfalse, hcounted⟩ | ⟨htrue, hclear⟩
    · exact .inl ⟨(congrArg not hfalse).trans (decide_eq_true (not_not.1 hres)).symm, hcounted⟩
    · exact .inr (.inr ⟨congrArg not htrue, not_not.1 hres, hclear⟩)

/-! ### The reservations of the memory -/

structure LockedAddr (ι : Type) where
  addr : Addr
  contextId : ι
  deriving DecidableEq

/-- Reservations are of 16 bytes. -/
def LockedAddr.mask (paddr : Addr) : Addr := paddr &&& ~~~0xf

/-- The data of a packet; a byte that is not enabled is none. -/
abbrev Payload := List (Option (BitVec 8))

structure AbstractMemory (ι : Type) where
  data : Addr → BitVec 8
  writeable : Bool := true
  lockedAddrList : List (LockedAddr ι) := []

open LockedAddr (mask)

/-- `writeData`: only the enabled bytes are written. -/
def writeData (data : Addr → BitVec 8) (addr : Addr) (payload : Payload) : Addr → BitVec 8 :=
  fun a => (payload[(a - addr).toNat]?.join).getD (data a)

def span (data : Addr → BitVec 8) (addr : Addr) (size : Nat) : List (BitVec 8) :=
  (List.range size).map fun i => data (addr + BitVec.ofNat 64 i)

def Apart (addr : Addr) (size : Nat) (addr' : Addr) (size' : Nat) : Prop :=
  ∀ i < size, size' ≤ (addr + BitVec.ofNat 64 i - addr').toNat

instance Apart.decidable (addr : Addr) (size : Nat) (addr' : Addr) (size' : Nat) :
    Decidable (Apart addr size addr' size') :=
  inferInstanceAs (Decidable (∀ i < size, size' ≤ (addr + BitVec.ofNat 64 i - addr').toNat))

theorem span_writeData (data : Addr → BitVec 8) {addr addr' : Addr} {size : Nat} {payload : Payload}
    (h : Apart addr size addr' payload.length) : span (writeData data addr' payload) addr size = span data addr size := by
  refine List.map_congr_left fun i hi => ?_
  unfold writeData
  rw [List.getElem?_eq_none (h i (List.mem_range.1 hi))]
  rfl

section

variable [DecidableEq ι]

def moveRecord (core : ι) (addr : Addr) : List (LockedAddr ι) → List (LockedAddr ι)
  | [] => []
  | r :: l => if r.contextId = core then { r with addr := addr } :: l else r :: moveRecord core addr l

def trackLoadLocked (core : ι) (paddr : Addr) (l : List (LockedAddr ι)) : List (LockedAddr ι) :=
  if l.any fun r => r.contextId = core then moveRecord core (mask paddr) l else ⟨mask paddr, core⟩ :: l

/-- Whether the write is taken, the records that remain, and the other cores that lose one: their monitors are cleared. -/
def checkLockedAddrList (core : Option ι) (isLLSC : Bool) (paddr : Addr) (l : List (LockedAddr ι)) :
    Bool × List (LockedAddr ι) × List ι :=
  let allowStore := !isLLSC || l.any fun r => r.addr = mask paddr ∧ some r.contextId = core
  if allowStore then
    (true, l.filter fun r => r.addr ≠ mask paddr,
      (l.filter fun r => r.addr = mask paddr ∧ some r.contextId ≠ core).map LockedAddr.contextId)
  else (false, l, [])

def AbstractMemory.writeOK (m : AbstractMemory ι) (core : Option ι) (isLLSC : Bool) (paddr : Addr) :
    Bool × List (LockedAddr ι) × List ι :=
  if !m.writeable then (false, m.lockedAddrList, [])
  else if m.lockedAddrList = [] then (!isLLSC, [], [])
  else checkLockedAddrList core isLLSC paddr m.lockedAddrList

theorem contextId_moveRecord (core : ι) (addr : Addr) (l : List (LockedAddr ι)) :
    (moveRecord core addr l).map LockedAddr.contextId = l.map LockedAddr.contextId := by
  induction l with
  | nil => rfl
  | cons r l ih =>
    rw [moveRecord]
    split
    · rfl
    · rw [List.map_cons, List.map_cons, ih]

theorem mem_moveRecord {core : ι} (addr : Addr) {l : List (LockedAddr ι)} (hnodup : (l.map LockedAddr.contextId).Nodup)
    (hcore : core ∈ l.map LockedAddr.contextId) (a : Addr) (c : ι) :
    ⟨a, c⟩ ∈ moveRecord core addr l ↔ if c = core then a = addr else ⟨a, c⟩ ∈ l := by
  induction l with
  | nil => cases hcore
  | cons r l ih =>
    obtain ⟨b, d⟩ := r
    rw [List.map_cons, List.nodup_cons] at hnodup
    have hout : ∀ x, ⟨x, d⟩ ∉ l := fun x hx => hnodup.1 (List.mem_map.2 ⟨_, hx, rfl⟩)
    rw [moveRecord]
    split
    · rename_i hd
      have hd : d = core := hd
      subst hd
      by_cases hc : c = d
      · subst hc
        simp [hout]
      · simp [hc]
    · rename_i hd
      have hd : d ≠ core := hd
      have hrest : core ∈ l.map LockedAddr.contextId := (List.mem_cons.1 hcore).resolve_left (Ne.symm hd)
      rw [List.mem_cons, ih hnodup.2 hrest]
      by_cases hc : c = core
      · subst hc
        simp [Ne.symm hd]
      · simp [hc]

theorem mem_trackLoadLocked {l : List (LockedAddr ι)} (hnodup : (l.map LockedAddr.contextId).Nodup) (core : ι)
    (paddr a : Addr) (c : ι) :
    ⟨a, c⟩ ∈ trackLoadLocked core paddr l ↔ if c = core then a = mask paddr else ⟨a, c⟩ ∈ l := by
  unfold trackLoadLocked
  split
  · rename_i hany
    exact mem_moveRecord _ hnodup (by simpa using hany) a c
  · rename_i hany
    have hout : ∀ x, ⟨x, core⟩ ∉ l := fun x hx => hany (List.any_eq_true.2 ⟨_, hx, decide_eq_true rfl⟩)
    by_cases hc : c = core
    · subst hc
      simp [hout]
    · simp [hc]

theorem nodup_trackLoadLocked {l : List (LockedAddr ι)} (hnodup : (l.map LockedAddr.contextId).Nodup) (core : ι)
    (paddr : Addr) : ((trackLoadLocked core paddr l).map LockedAddr.contextId).Nodup := by
  unfold trackLoadLocked
  split
  · rwa [contextId_moveRecord]
  · rename_i hany
    rw [List.map_cons, List.nodup_cons]
    exact ⟨by simpa using hany, hnodup⟩

theorem writeOK_iff (m : AbstractMemory ι) (core : Option ι) (isLLSC : Bool) (paddr : Addr) :
    (m.writeOK core isLLSC paddr).1 = true ↔
      m.writeable = true ∧ (isLLSC = true → ∃ c, some c = core ∧ ⟨mask paddr, c⟩ ∈ m.lockedAddrList) := by
  unfold AbstractMemory.writeOK
  split
  · rename_i hrom
    exact iff_of_false Bool.false_ne_true fun h => by simp [h.1] at hrom
  · rename_i hwriteable
    have hwriteable : m.writeable = true := by simpa using hwriteable
    rw [and_iff_right hwriteable]
    split
    · rename_i hnil
      simp [hnil]
    · unfold checkLockedAddrList
      have hany : (m.lockedAddrList.any fun r => r.addr = mask paddr ∧ some r.contextId = core) = true ↔
          ∃ c, some c = core ∧ ⟨mask paddr, c⟩ ∈ m.lockedAddrList := by
        rw [List.any_eq_true]
        constructor
        · rintro ⟨⟨a, c⟩, hmem, hr⟩
          obtain ⟨rfl, hc⟩ := of_decide_eq_true hr
          exact ⟨c, hc, hmem⟩
        · rintro ⟨c, hc, hmem⟩
          exact ⟨_, hmem, decide_eq_true ⟨rfl, hc⟩⟩
      rw [← hany]
      dsimp only
      split <;> cases isLLSC <;> simp_all

theorem writeOK_records (m : AbstractMemory ι) (core : Option ι) (isLLSC : Bool) (paddr : Addr) :
    (m.writeOK core isLLSC paddr).2.1 = if (m.writeOK core isLLSC paddr).1
      then m.lockedAddrList.filter fun r => r.addr ≠ mask paddr else m.lockedAddrList := by
  unfold AbstractMemory.writeOK
  split
  · rfl
  · split
    · rename_i hnil
      rw [hnil]
      cases isLLSC <;> rfl
    · unfold checkLockedAddrList
      dsimp only
      split <;> rfl

end

/-! ### The system -/

/-- A request on its way to the memory.  A write of a device is of no core; `swap` is also a fetch with an operation, and
computes what it writes from the bytes that it finds. -/
inductive Packet (ι : Type) where
  | loadLocked (core : ι) (addr : Addr) (size : Nat)
  | storeCond (core : ι) (addr : Addr) (payload : Payload)
  | write (core : Option ι) (addr : Addr) (payload : Payload)
  | swap (addr : Addr) (size : Nat) (f : List (BitVec 8) → Payload)

inductive Access (ι : Type) where
  | loaded (core : ι) (addr : Addr) (size : Nat)
  | wrote (addr : Addr) (size : Nat)
  | swapped (addr : Addr) (size : Nat)

/-- The cores and their memory.  `loaded` is what the last load-exclusive of a core read, `verdicts` has for each
store-conditional whether there was a reservation and whether it passed, and `history` begins with the last access. -/
structure Cores (ι : Type) (cfg : ExMonConfig) where
  monitor : ι → Monitor := fun _ => {}
  memory : AbstractMemory ι
  inFlight : List (Packet ι) := []
  chaosExMon : CHAOSExMon cfg
  loaded : ι → Option (List (BitVec 8)) := fun _ => none
  verdicts : List (Bool × Bool) := []
  history : List (Access ι) := []

/-- The steps of the system; `clear` is `handleLockedSnoopHit`, and whatever else clears the monitor of a core. -/
inductive CoreEvent (ι : Type) where
  | ldxr (core : ι) (addr : Addr) (size : Nat)
  | stxr (core : ι) (addr : Addr) (payload : Payload) (now : Nat)
  | store (core : Option ι) (addr : Addr) (payload : Payload)
  | swap (addr : Addr) (size : Nat) (f : List (BitVec 8) → Payload)
  | deliver (i : Nat)
  | snoop (core : ι) (addr : Addr)
  | clear (core : ι)

namespace Cores

variable [DecidableEq ι]

def setMonitor (s : Cores ι cfg) (core : ι) (m : Monitor) : Cores ι cfg :=
  { s with monitor := Function.update s.monitor core m }

def send (s : Cores ι cfg) (p : Packet ι) : Cores ι cfg := { s with inFlight := s.inFlight ++ [p] }

def write (s : Cores ι cfg) (core : Option ι) (isLLSC : Bool) (addr : Addr) (payload : Payload) :
    Cores ι cfg :=
  let r := s.memory.writeOK core isLLSC addr
  { s with
    memory := { s.memory with
      lockedAddrList := r.2.1
      data := if r.1 then writeData s.memory.data addr payload else s.memory.data }
    -- `globalClearExclusive`
    monitor := fun c => if c ∈ r.2.2 then { s.monitor c with lockFlag := false } else s.monitor c
    history := if r.1 then .wrote addr payload.length :: s.history else s.history }

def access (s : Cores ι cfg) : Packet ι → Cores ι cfg
  | .loadLocked core addr size =>
    { s with
      memory := { s.memory with lockedAddrList := trackLoadLocked core addr s.memory.lockedAddrList }
      loaded := Function.update s.loaded core (some (span s.memory.data addr size))
      history := .loaded core addr size :: s.history }
  | .storeCond core addr payload => s.write (some core) true addr payload
  | .write core addr payload => s.write core false addr payload
  | .swap addr size f =>
    { s with
      memory := { s.memory with
        data := writeData s.memory.data addr ((f (span s.memory.data addr size)).take size) }
      history := .swapped addr size :: s.history }

def step (s : Cores ι cfg) : CoreEvent ι → Cores ι cfg
  | .ldxr core addr size => (s.setMonitor core ⟨addr, true⟩).send (.loadLocked core addr size)
  | .stxr core addr payload now =>
    let r := lockedWriteHandler s.chaosExMon (s.monitor core) addr now
    let s : Cores ι cfg := { s.setMonitor core r.2.1 with
      chaosExMon := r.2.2
      verdicts := (decide ((s.monitor core).Reserved cfg addr), r.1) :: s.verdicts }
    if r.1 then s.send (.storeCond core addr payload) else s
  | .store core addr payload => s.send (.write core addr payload)
  | .swap addr size f => s.send (.swap addr size f)
  | .deliver i =>
    match s.inFlight[i]? with
    | none => s
    | some p => { s with inFlight := s.inFlight.eraseIdx i }.access p
  | .snoop core addr => s.setMonitor core (handleLockedSnoop cfg (s.monitor core) addr)
  | .clear core => s.setMonitor core { s.monitor core with lockFlag := false }

def run (s : Cores ι cfg) (es : List (CoreEvent ι)) : Cores ι cfg := es.foldl step s

def Reachable (s : Cores ι cfg) : Prop :=
  ∃ (data : Addr → BitVec 8) (writeable : Bool) (draw : Nat → Nat) (es : List (CoreEvent ι)),
    s = run { memory := { data := data, writeable := writeable }, chaosExMon := { rng := { draw := draw } } } es

theorem Reachable.run {s : Cores ι cfg} (h : Reachable s) (es : List (CoreEvent ι)) : Reachable (run s es) := by
  obtain ⟨data, writeable, draw, before, rfl⟩ := h
  exact ⟨data, writeable, draw, before ++ es, List.foldl_append.symm⟩

/-! ### Store-conditionals -/

/-- The last load-exclusive of the core started in the 16 bytes `b`, and no write has started in them since. -/
def Untouched (core : ι) (b : Addr) : List (Access ι) → Prop
  | [] => False
  | .loaded c addr _ :: h => if core = c then b = mask addr else Untouched core b h
  | .wrote addr _ :: h => b ≠ mask addr ∧ Untouched core b h
  | .swapped _ _ :: h => Untouched core b h

/-- The last load-exclusive of the core was of these bytes.  Since then no swap has reached into them, and no write that
started in other 16 bytes. -/
def Unreached (core : ι) (addr : Addr) (size : Nat) : List (Access ι) → Prop
  | [] => False
  | .loaded c a n :: h => if core = c then addr = a ∧ size = n else Unreached core addr size h
  | .wrote a n :: h => (mask addr ≠ mask a → Apart addr size a n) ∧ Unreached core addr size h
  | .swapped a n :: h => Apart addr size a n ∧ Unreached core addr size h

structure Inv (m : AbstractMemory ι) (loaded : ι → Option (List (BitVec 8))) (h : List (Access ι)) : Prop where
  nodup : (m.lockedAddrList.map LockedAddr.contextId).Nodup
  record : ∀ b c, ⟨b, c⟩ ∈ m.lockedAddrList ↔ Untouched c b h
  current : ∀ c addr size, Untouched c (mask addr) h → Unreached c addr size h → loaded c = some (span m.data addr size)

variable {s : Cores ι cfg}

theorem inv_write (h : Inv s.memory s.loaded s.history) (core : Option ι) (isLLSC : Bool) (addr : Addr)
    (payload : Payload) : Inv (s.write core isLLSC addr payload).memory (s.write core isLLSC addr payload).loaded
      (s.write core isLLSC addr payload).history := by
  dsimp only [write]
  rw [writeOK_records]
  split
  · refine ⟨h.nodup.sublist (List.filter_sublist.map _), fun b c => ?_, fun c a n hunt hunr => ?_⟩
    · dsimp only
      rw [List.mem_filter, h.record b c, and_comm]
      exact and_congr_left' decide_eq_true_iff
    · dsimp only
      rw [span_writeData _ (hunr.1 hunt.1)]
      exact h.current c a n hunt.2 hunr.2
  · exact h

theorem inv_access (h : Inv s.memory s.loaded s.history) (p : Packet ι) :
    Inv (s.access p).memory (s.access p).loaded (s.access p).history := by
  cases p with
  | loadLocked core addr size =>
    dsimp only [access]
    refine ⟨nodup_trackLoadLocked h.nodup core addr, fun b c => ?_, fun c a n hunt hunr => ?_⟩
    · dsimp only
      rw [mem_trackLoadLocked h.nodup, h.record b c, Untouched]
    · by_cases hc : c = core
      · obtain ⟨rfl, rfl⟩ : a = addr ∧ n = size := (if_pos hc).mp hunr
        rw [hc, Function.update_self]
      · rw [Function.update_of_ne hc]
        exact h.current c a n ((if_neg hc).mp hunt) ((if_neg hc).mp hunr)
  | storeCond core addr payload => exact inv_write h (some core) true addr payload
  | write core addr payload => exact inv_write h core false addr payload
  | swap addr size f =>
    refine ⟨h.nodup, h.record, fun c a n hunt hunr => ?_⟩
    have hapart : Apart a n addr ((f (span s.memory.data addr size)).take size).length := by
      intro i hi
      exact (List.length_take_le size _).trans (hunr.1 i hi)
    dsimp only [access]
    rw [span_writeData _ hapart]
    exact h.current c a n hunt hunr.2

theorem inv_step (h : Inv s.memory s.loaded s.history) (e : CoreEvent ι) :
    Inv (s.step e).memory (s.step e).loaded (s.step e).history := by
  cases e with
  | deliver i =>
    dsimp only [step]
    split
    · exact h
    · rename_i p _
      exact inv_access (s := { s with inFlight := s.inFlight.eraseIdx i }) h p
  | stxr core addr payload now =>
    dsimp only [step]
    split <;> exact h
  | ldxr | store | swap | snoop | clear => exact h

theorem Reachable.inv (h : Reachable s) : Inv s.memory s.loaded s.history := by
  obtain ⟨data, writeable, draw, es, rfl⟩ := h
  refine List.foldlRecOn es step (motive := fun s : Cores ι cfg => Inv s.memory s.loaded s.history)
    ⟨List.nodup_nil, fun b c => ?_, fun c a n hunt => ?_⟩ fun s hs e _ => inv_step hs e
  · exact iff_of_false List.not_mem_nil id
  · cases hunt

/-- In every interleaving, and whatever the injector let through: the memory takes a store-conditional exactly if no write
has started in its 16 bytes since the last load-exclusive of the core that started there. -/
theorem storeCond_taken_iff (h : Reachable s) (core : ι) (addr : Addr) :
    (s.memory.writeOK (some core) true addr).1 = true ↔
      s.memory.writeable = true ∧ Untouched core (mask addr) s.history := by
  rw [writeOK_iff, ← h.inv.record]
  simp

def idle : Cores Bool
    { mode := .StaleReservation, probability := 1, first_clock := 0, last_clock := 0, max_faults := 1,
      uniform := fun _ => 0, cacheBlockMask := ~~~63 } :=
  { memory := { data := fun _ => 0 }, chaosExMon := { rng := { draw := fun _ => 0 } } }

theorem idle_reachable : Reachable idle := ⟨_, _, _, [], rfl⟩

def word (n : Nat) : Payload := some (BitVec.ofNat 8 n) :: List.replicate 7 (some 0)

/-- Both cores load, one stores, and the store-conditional of the other passes on a stale reservation. -/
def race : List (CoreEvent Bool) :=
  [.ldxr false 8 8, .ldxr true 8 8, .deliver 0, .deliver 0, .stxr true 8 (word 1) 0, .deliver 0, .stxr false 8 (word 1) 0]

theorem stale_storeCond_refused : (run idle race).inFlight.length = 1 ∧
    (run idle race).chaosExMon.numStaleReservations = 1 ∧ ((run idle race).memory.writeOK (some false) true 8).1 = false :=
  ⟨rfl, rfl, Bool.eq_false_iff.2 fun htaken =>
    ((storeCond_taken_iff (idle_reachable.run race) false 8).1 htaken).2.1 rfl⟩

/-- In every interleaving: a store-conditional that the memory takes replaces the bytes that the core has loaded, if it
loaded them there and neither a swap nor a write from other 16 bytes reached into them in between. -/
theorem storeCond_atomic (h : Reachable s) {core : ι} {addr : Addr} {size : Nat}
    (htaken : (s.memory.writeOK (some core) true addr).1 = true) (hreach : Unreached core addr size s.history) :
    s.loaded core = some (span s.memory.data addr size) := by
  obtain ⟨-, hrecord⟩ := (writeOK_iff ..).1 htaken
  obtain ⟨c, hc, hmem⟩ := hrecord rfl
  obtain rfl := Option.some.inj hc
  exact h.inv.current c addr size ((h.inv.record _ c).1 hmem) hreach

/-- The other core stores in the 16 bytes before. -/
theorem idle_atomic :
    let s := run idle [.ldxr false 16 8, .deliver 0, .store (some true) 8 (word 1), .deliver 0]
    s.loaded false = some (span s.memory.data 16 8) :=
  storeCond_atomic (idle_reachable.run _) (by decide) ⟨fun _ => by decide, (if_pos rfl).mpr ⟨rfl, rfl⟩⟩

-- A store of 8 bytes at 12 reaches into the reserved bytes at 16, and the store-conditional there is still taken.
example :
    let s := run idle [.ldxr false 16 8, .deliver 0, .store (some true) 12 (List.replicate 8 (some 1)), .deliver 0]
    (s.memory.writeOK (some false) true 16).1 = true ∧ s.loaded false ≠ some (span s.memory.data 16 8) := by
  decide

/-! ### The counters -/

/-- The counters have the store-conditionals that the monitors did not decide, and the two modes report them as follows. -/
structure Accounted (x : CHAOSExMon cfg) (verdicts : List (Bool × Bool)) : Prop where
  stale_count : x.numStaleReservations = verdicts.count (false, true)
  cleared_count : x.numClearReservations = verdicts.count (true, false)
  stale : cfg.mode = .StaleReservation → x.numClearReservations = 0 ∧
    x.numFaultsInjected = x.numStaleReservations ∧ x.faults_injected_count = x.numStaleReservations ∧
    (cfg.max_faults = 0 ∨ x.numStaleReservations ≤ cfg.max_faults)
  cleared : cfg.mode = .ClearReservation → x.numStaleReservations = 0 ∧
    x.faults_injected_count = x.numClearReservations ∧ x.numFaultsInjected = min 1 x.numClearReservations

theorem accounted_lockedWriteHandler {x : CHAOSExMon cfg} {verdicts : List (Bool × Bool)} (h : Accounted x verdicts)
    (m : Monitor) (addr : Addr) (now : Nat) : Accounted (lockedWriteHandler x m addr now).2.2
      ((decide (m.Reserved cfg addr), (lockedWriteHandler x m addr now).1) :: verdicts) := by
  obtain ⟨hs, hc, hstale, hcleared⟩ := h
  rcases lockedWriteHandler_cases x m addr now with
    ⟨hpass, h1, h2, h3, h4⟩ | ⟨hpass, hres, hmode, hbudget, h1, h2, h3, h4⟩ | ⟨hpass, hres, hmode, h1, h2, h3, h4⟩
  · rw [Nat.add_zero] at h1 h2 h3 h4
    refine ⟨?_, ?_, fun hm => by rw [h1, h2, h3, h4]; exact hstale hm, fun hm => by rw [h1, h2, h3, h4]; exact hcleared hm⟩
    · rw [h4, hs, hpass]
      cases decide (m.Reserved cfg addr) <;> rfl
    · rw [h3, hc, hpass]
      cases decide (m.Reserved cfg addr) <;> rfl
  · have hold := hstale hmode
    rw [hpass, decide_eq_false hres]
    refine ⟨h4.trans (by rw [hs, List.count_cons_self]), h3.trans (by rw [hc]; rfl), fun _ => ?_,
      fun hm => absurd (hm.symm.trans hmode) (by decide)⟩
    omega
  · have hold := hcleared hmode
    rw [hpass, decide_eq_true hres]
    refine ⟨h4.trans (by rw [hs]; rfl), h3.trans (by rw [hc, List.count_cons_self]),
      fun hm => absurd (hm.symm.trans hmode) (by decide), fun _ => ?_⟩
    split at h2 <;> omega

/-- In every interleaving the counters have the store-conditionals that pass without a reservation and those that fail in
spite of one.  The first are the faults and stay in the budget; of the second, which have no budget, one is reported. -/
theorem reservation_faults_accounted (h : Reachable s) : Accounted s.chaosExMon s.verdicts := by
  obtain ⟨data, writeable, draw, es, rfl⟩ := h
  refine List.foldlRecOn es step (motive := fun s : Cores ι cfg => Accounted s.chaosExMon s.verdicts)
    ⟨rfl, rfl, fun _ => ⟨rfl, rfl, rfl, .inr (Nat.zero_le _)⟩, fun _ => ⟨rfl, rfl, rfl⟩⟩ fun s hs e _ => ?_
  cases e with
  | stxr core addr payload now =>
    have hnext := accounted_lockedWriteHandler hs (s.monitor core) addr now
    dsimp only [step]
    split <;> exact hnext
  | deliver i =>
    dsimp only [step]
    split
    · exact hs
    · rename_i p _
      cases p <;> exact hs
  | ldxr | store | swap | snoop | clear => exact hs

theorem race_accounted :
    (run idle race).chaosExMon.numFaultsInjected = 1 ∧ (run idle race).verdicts.count (false, true) = 1 := by
  obtain ⟨hcount, -, hstale, -⟩ := reservation_faults_accounted (idle_reachable.run race)
  exact ⟨(hstale rfl).2.1, hcount.symm⟩

end Cores

end GemFI.Arm
