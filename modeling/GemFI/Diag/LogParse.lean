import GemFI.Lib.Lists
import GemFI.Lib.Text
import Mathlib.Algebra.Order.Floor.Semiring
import Mathlib.Data.List.MinMax
import Mathlib.Data.List.Sort
import Mathlib.Data.Rat.Floor

/-!
# The parser of kernel logs

`parse` goes through the lines of a log.  Some lines begin an event, which stays pending while the lines behind it add
its registers and its core, until the end of its trace or the beginning of the next one.  `aggregate` counts the
anomalies by core.

Every line that looks like an Oops begins an event of its own, so the number of anomalies is the number of such lines
(`n_anomalies_parse`), not of reports; other lines may tell the core of the pending one (`cores_of_not_begins`).

Letters, digits and their cases are those of ASCII, and a quotient is exact.
-/

namespace GemFI.Diag

open Text Counter

/-! ### The message of a line -/

def after? (phrase : String) (t : List Char) : Option (List Char) :=
  if phrase.toList.isPrefixOf t then some (t.drop phrase.toList.length) else none

/-- The rest behind `\s+`. -/
def spaces? (t : List Char) : Option (List Char) := if t.head?.any isSpace then some (t.dropWhile isSpace) else none

/-- The rest behind `\d+`. -/
def digits? (t : List Char) : Option (List Char) :=
  if t.head?.any Char.isDigit then some (t.dropWhile Char.isDigit) else none

/-- The rest behind `\s?`. -/
def dropSpace : List Char → List Char
  | [] => []
  | c :: t => if isSpace c then t else c :: t

/-- The message of a match of `RE_UPTIME`. -/
def uptime? (ln : List Char) : Option (List Char) := do
  let t ← after? "[" ln
  let t ← digits? (t.dropWhile isSpace)
  let t ← after? "." t
  let t ← digits? t
  let t ← after? "]" t
  return dropSpace t

def month? : List Char → Option (List Char)
  | a :: b :: c :: t => if a.isUpper && b.isLower && c.isLower then some t else none
  | _ => none

def day? (t : List Char) : Option (List Char) :=
  let digits := t.takeWhile Char.isDigit
  if digits.length = 1 ∨ digits.length = 2 then some (t.drop digits.length) else none

def clock? : List Char → Option (List Char)
  | a :: b :: ':' :: c :: d :: ':' :: e :: f :: t => if [a, b, c, d, e, f].all Char.isDigit then some t else none
  | _ => none

def host? (t : List Char) : Option (List Char) :=
  if t.head?.any fun c => !isSpace c then some (t.dropWhile fun c => !isSpace c) else none

/-- The message of a match of `RE_SYSLOG`. -/
def syslog? (ln : List Char) : Option (List Char) := do
  let t ← month? ln
  let t ← spaces? t
  let t ← day? t
  let t ← spaces? t
  let t ← clock? t
  let t ← spaces? t
  let t ← host? t
  let t ← spaces? t
  let t ← after? "kernel:" t
  return dropSpace t

def message (ln : List Char) : List Char :=
  match uptime? ln with
  | some rest => rest
  | none =>
    match syslog? ln with
    -- the time since the start may stand inside
    | some rest => (uptime? (strip rest)).getD rest
    | none => ln

/-! ### What a message says -/

def has (phrase : String) (t : List Char) : Bool := decide (phrase.toList <:+: t)

def hasNoCase (phrase : String) (t : List Char) : Bool := has phrase (t.map Char.toLower)

/-- A word, in lower case, occurs in the message; `inWord` if the text begins inside a word. -/
def hasWord (word : String) : Bool → List Char → Bool
  | _, [] => false
  | inWord, c :: t =>
    (!inWord && word.toList.isPrefixOf ((c :: t).map Char.toLower) &&
        !((c :: t).drop word.toList.length).head?.any isWord) ||
      hasWord word (isWord c) t

def isWarn (rest : List Char) : Bool := has "WARNING:" rest

def isOops (rest : List Char) : Bool :=
  has "Oops" rest || hasNoCase "internal error" rest || hasNoCase "unable to handle kernel paging request" rest ||
    hasNoCase "unable to handle kernel write to read-only" rest || has "Kernel panic" rest

def isSpurious (rest : List Char) : Bool := hasNoCase "ignoring spurious kernel translation fault" rest

def isEdac (rest : List Char) : Bool :=
  hasWord "edac" false rest ||
    ["mce", "machine check", "rasnode", "ghes", "hest", "einj", "ras-mc-ctl"].any fun phrase => hasNoCase phrase rest

/-- `RE_WARN_CPU` -/
def warnCpu : List Char → Option Nat :=
  search fun t => (after? "WARNING: CPU: " t).bind fun r => nat? (r.takeWhile Char.isDigit)

/-- The rest behind `\s*:?\s*`. -/
def dropColon (t : List Char) : List Char :=
  match t.dropWhile isSpace with
  | ':' :: r => r.dropWhile isSpace
  | r => r

/-- `RE_OOPS_CPU`; a match of `on CPU` has the match of `CPU` inside. -/
def oopsCpu : List Char → Option Nat :=
  search fun t => (after? "CPU" t).bind fun r => nat? ((dropColon r).takeWhile Char.isDigit)

def headerCpu (rest : List Char) : Option Nat := (warnCpu rest).or (oopsCpu rest)

def nonSpace? (t : List Char) : Option (List Char) :=
  let w := t.takeWhile fun c => !isSpace c
  if w.isEmpty then none else some w

def comm? (t : List Char) : Option (List Char) := do
  let t ← spaces? t
  let t ← after? "Comm:" t
  nonSpace? (t.dropWhile isSpace)

/-- `RE_PID_COMM` -/
def pidComm : List Char → Option (Nat × Option (List Char)) :=
  search fun t => (after? "PID: " t).bind fun r =>
    (nat? (r.takeWhile Char.isDigit)).map fun pid : Nat => (pid, comm? (r.dropWhile Char.isDigit))

/-- A number of at least so many digits with `0x`, at the beginning of a text. -/
def hexAt (least : Nat) : List Char → Option Nat
  | '0' :: x :: t =>
    let digits := (t.takeWhile isHexDigit).take 16
    if x.toLower = 'x' ∧ least ≤ digits.length then some (ofHex digits) else none
  | _ => none

def hexAfter (name : String) (gap least : Nat) : List Char → Option Nat :=
  search fun t =>
    if name.toList.isPrefixOf (t.map Char.toLower) then
      (List.range (gap + 1)).findSome? fun k => hexAt least (t.drop (name.toList.length + k))
    else none

/-- `RE_ESR` -/
def esrIn : List Char → Option Nat := hexAfter "esr" 20 4

/-- `RE_FAR` -/
def farIn : List Char → Option Nat := hexAfter "far" 10 8

def symbolAt (name : String) (rest : List Char) : Option (List Char) :=
  match (after? name (strip rest)).map fun r => r.dropWhile isSpace with
  | some (':' :: r) => nonSpace? (r.dropWhile isSpace)
  | _ => none

/-- `RE_PC` -/
def pcIn : List Char → Option (List Char) := symbolAt "pc"

/-- `RE_LR` -/
def lrIn : List Char → Option (List Char) := symbolAt "lr"

/-! ### Events -/

inductive Kind where
  | spurious_translation_fault
  | WARNING
  | Oops
  | edac_ras_line
  deriving DecidableEq, Repr

def Kind.isAnomaly (k : Kind) : Bool := k ∈ [Kind.WARNING, .Oops, .spurious_translation_fault]

structure Event where
  kind : Kind
  cpu : Option Nat := none
  pid : Option Nat := none
  comm : Option (List Char) := none
  esr : Option Nat := none
  far : Option Nat := none
  pc : Option (List Char) := none
  lr : Option (List Char) := none
  deriving DecidableEq, Repr

namespace Event

def readProcess (e : Event) (rest : List Char) : Event :=
  match pidComm rest with
  | some (pid, comm) => { e with pid := some pid, comm := comm.or e.comm }
  | none => e

def readHeader (e : Event) (rest : List Char) : Event :=
  ({ e with cpu := (headerCpu rest).or e.cpu } : Event).readProcess rest

def readContext (e : Event) (rest : List Char) : Event :=
  ({ e with
      esr := (esrIn rest).or e.esr
      far := (farIn rest).or e.far
      pc := (pcIn rest).or e.pc
      lr := (lrIn rest).or e.lr
      cpu := e.cpu.or (oopsCpu rest) } : Event).readProcess rest

variable (e : Event) (rest : List Char)

@[simp] theorem readProcess_cpu : (e.readProcess rest).cpu = e.cpu := by
  unfold readProcess
  split <;> rfl

@[simp] theorem readProcess_kind : (e.readProcess rest).kind = e.kind := by
  unfold readProcess
  split <;> rfl

@[simp] theorem readHeader_cpu : (e.readHeader rest).cpu = (headerCpu rest).or e.cpu := by
  simp [readHeader]

@[simp] theorem readHeader_kind : (e.readHeader rest).kind = e.kind := by
  simp [readHeader]

@[simp] theorem readContext_cpu : (e.readContext rest).cpu = e.cpu.or (oopsCpu rest) := by
  simp [readContext]

@[simp] theorem readContext_kind : (e.readContext rest).kind = e.kind := by
  simp [readContext]

end Event

/-! ### The parser -/

structure ParseState where
  events : List Event := []
  cur : Option Event := none
  pending : ∀ e ∈ cur, e.kind.isAnomaly = true := by simp

namespace ParseState

def flush (s : ParseState) : ParseState := { events := s.events ++ s.cur.toList }

def start (s : ParseState) (kind : Kind) (h : kind.isAnomaly = true) (rest : List Char) : ParseState where
  events := s.flush.events
  cur := some (({ kind } : Event).readHeader rest)
  pending := by simpa using h

def update (s : ParseState) (f : Event → Event) (h : ∀ e, (f e).kind = e.kind) : ParseState where
  events := s.events
  cur := s.cur.map f
  pending := by
    intro e he
    obtain ⟨e, hcur, rfl⟩ := Option.mem_map.1 he
    rw [h]
    exact s.pending e hcur

end ParseState

/-- The line ends the pending event; the loop does not get to the test if a trace begins. -/
def closes (rest : List Char) : Bool :=
  !has "Call trace:" rest && (has "---[ end trace" rest || has "SMP: stopping" rest)

def parseLine (s : ParseState) (ln : List Char) : ParseState :=
  let rest := message ln
  if isSpurious rest then s.start .spurious_translation_fault (by decide) rest
  else if isWarn rest then
    -- the warning of a spurious fault belongs to it
    if s.cur.any fun e => e.kind = .spurious_translation_fault then
      s.update (fun e => e.readHeader rest) fun e => e.readHeader_kind rest
    else s.start .WARNING (by decide) rest
  else if isOops rest then s.start .Oops (by decide) rest
  else if isEdac rest then { s with events := s.events ++ [{ kind := .edac_ras_line }] }
  else
    let s := s.update (fun e => e.readContext rest) fun e => e.readContext_kind rest
    if closes rest then s.flush else s

def parse (text : List Char) : List Event := ((splitlines text).foldl parseLine {}).flush.events

/-! ### The numbers of a log -/

def anomalies (events : List Event) : List Event := events.filter fun e => e.kind.isAnomaly

def roundHalfEven (x : ℚ) : ℤ :=
  let r := x - ⌊x⌋
  if r < 1 / 2 then ⌊x⌋ else if 1 / 2 < r then ⌊x⌋ + 1 else if ⌊x⌋ % 2 = 0 then ⌊x⌋ else ⌊x⌋ + 1

/-- `round(x, 4)` -/
def round4 (x : ℚ) : ℚ := roundHalfEven (10000 * x) / 10000

structure Aggregate where
  n_anomalies : Nat
  per_core : List (String × Nat)
  top_core : Option Nat
  top_core_count : Nat
  concentration : ℚ
  P1_concentration_gt60pct : Bool
  P2_multi_app_on_top_core : Bool
  per_pc_symbol : List (List Char × Nat)
  esr_histogram : List (String × Nat)
  n_edac_ras_lines : Nat
  deriving DecidableEq

/-- The names of the processes of a core; `?` is a process without name. -/
def comms (events : List Event) (core : Nat) : List (List Char) :=
  ((events.filter fun e => e.cpu = some core).map fun e => e.comm.getD ['?']).dedup

def topCore (events : List Event) : Option (Nat × Nat) := (counts (events.filterMap Event.cpu)).argmax Prod.snd

def esrKey (esr : Nat) : String := "0x" ++ hex esr

def aggregate (events : List Event) : Aggregate :=
  let anomalies := anomalies events
  let total := anomalies.length
  let top := topCore anomalies
  let conc : ℚ := match top with
    | some (_, n) => n / total
    | none => 0
  { n_anomalies := total
    per_core := ((counts (anomalies.filterMap Event.cpu)).insertionSort fun a b => a.1 ≤ b.1).map fun e => (toString e.1, e.2)
    top_core := top.map Prod.fst
    top_core_count := (top.map Prod.snd).getD 0
    concentration := round4 conc
    P1_concentration_gt60pct := decide (3 / 5 < conc)
    P2_multi_app_on_top_core := top.any fun e => 2 ≤ (comms anomalies e.1).length
    per_pc_symbol := counts (anomalies.filterMap Event.pc)
    esr_histogram := counts ((anomalies.filterMap Event.esr).map esrKey)
    n_edac_ras_lines := (events.filter fun e => e.kind = .edac_ras_line).length }

/-! ### What a line does to the cores -/

namespace ParseState

def done (s : ParseState) : List (Option Nat) := (Diag.anomalies s.events).map Event.cpu

def core (s : ParseState) : Option (Option Nat) := s.cur.map Event.cpu

def cores (s : ParseState) : List (Option Nat) := s.done ++ s.core.toList

variable (s : ParseState)

theorem done_flush : s.flush.done = s.cores := by
  have hcur : Diag.anomalies s.cur.toList = s.cur.toList :=
    List.filter_eq_self.2 fun e he => s.pending e (Option.mem_toList.1 he)
  rw [done, flush, Diag.anomalies, List.filter_append, ← Diag.anomalies, ← Diag.anomalies, hcur, List.map_append, cores,
    done, core]
  cases s.cur <;> rfl

theorem cores_flush : s.flush.cores = s.cores := by
  rw [cores, done_flush]
  exact List.append_nil _

theorem done_start {kind : Kind} (h : kind.isAnomaly = true) (rest : List Char) :
    (s.start kind h rest).done = s.cores := s.done_flush

theorem core_start {kind : Kind} (h : kind.isAnomaly = true) (rest : List Char) :
    (s.start kind h rest).core = some (headerCpu rest) := by
  simp [core, start]

theorem cores_start {kind : Kind} (h : kind.isAnomaly = true) (rest : List Char) :
    (s.start kind h rest).cores = s.cores ++ [headerCpu rest] := by
  rw [cores, done_start, core_start]
  rfl

end ParseState

def begins (rest : List Char) : Bool := isSpurious rest || isWarn rest || isOops rest

def beginsOops (rest : List Char) : Bool := !isSpurious rest && !isWarn rest && isOops rest

theorem parseLine_of_beginsOops {ln : List Char} (h : beginsOops (message ln) = true) (s : ParseState) :
    parseLine s ln = s.start .Oops (by decide) (message ln) := by
  simp only [beginsOops, Bool.and_eq_true, Bool.not_eq_true'] at h
  simp [parseLine, h]

def laterCore (rest : List Char) (core : Option Nat) : Option Nat := if isEdac rest then core else core.or (oopsCpu rest)

theorem cores_of_not_begins {ln : List Char} (h : begins (message ln) = false) (s : ParseState) :
    (parseLine s ln).cores = s.done ++ (s.core.map (laterCore (message ln))).toList ∧
      ((parseLine s ln).core = s.core.map (laterCore (message ln)) ∨
        closes (message ln) = true ∧ (parseLine s ln).core = none) := by
  simp only [begins, Bool.or_eq_false_iff] at h
  obtain ⟨⟨hspurious, hwarn⟩, hoops⟩ := h
  by_cases hedac : isEdac (message ln) = true
  · -- the line is an event of its own, which is no anomaly
    have hline : parseLine s ln = { s with events := s.events ++ [{ kind := .edac_ras_line }] } := by
      simp [parseLine, hspurious, hwarn, hoops, hedac]
    have hlater : laterCore (message ln) = id := funext fun c => if_pos hedac
    have hdone : (parseLine s ln).done = s.done := by
      rw [hline, ParseState.done, anomalies, List.filter_append]
      simp [ParseState.done, anomalies, Kind.isAnomaly]
    have hcore : (parseLine s ln).core = s.core := by rw [hline]; rfl
    rw [ParseState.cores, hdone, hcore, hlater, Option.map_id]
    exact ⟨rfl, .inl rfl⟩
  · rw [Bool.not_eq_true] at hedac
    have hlater : laterCore (message ln) = fun c => c.or (oopsCpu (message ln)) :=
      funext fun c => if_neg (by simp [hedac])
    let t := s.update (fun e => e.readContext (message ln)) fun e => e.readContext_kind _
    have hcore : t.core = s.core.map (laterCore (message ln)) := by
      simp only [t, ParseState.core, ParseState.update, Option.map_map, hlater]
      congr 1
      funext e
      exact e.readContext_cpu _
    have hcores : t.cores = s.done ++ (s.core.map (laterCore (message ln))).toList := by
      rw [ParseState.cores, hcore]
      rfl
    have hline : parseLine s ln = if closes (message ln) then t.flush else t := by
      simp [parseLine, hspurious, hwarn, hoops, hedac, t]
    rw [hline]
    split
    · next hcloses => exact ⟨t.cores_flush.trans hcores, .inr ⟨hcloses, rfl⟩⟩
    · exact ⟨hcores, .inl hcore⟩

theorem cores_foldl {ls : List (List Char)} {s : ParseState}
    (h : ∀ ln ∈ ls, begins (message ln) = false ∧ ∀ c ∈ s.core, laterCore (message ln) c = c) :
    (ls.foldl parseLine s).cores = s.cores ∧
      ((ls.foldl parseLine s).core = s.core ∨
        (∃ ln ∈ ls, closes (message ln) = true) ∧ (ls.foldl parseLine s).core = none) := by
  induction ls generalizing s with
  | nil => exact ⟨rfl, .inl rfl⟩
  | cons ln ls ih =>
    obtain ⟨hbegins, hkeep⟩ := h ln List.mem_cons_self
    have hmap : s.core.map (laterCore (message ln)) = s.core := by
      cases hcore : s.core with
      | none => rfl
      | some c => rw [Option.map_some, hkeep c (by rw [hcore]; rfl)]
    obtain ⟨hcores, hcore⟩ := cores_of_not_begins hbegins s
    rw [hmap] at hcores hcore
    have hnext : ∀ c ∈ (parseLine s ln).core, c ∈ s.core := by
      rcases hcore with hcore | ⟨-, hcore⟩ <;> rw [hcore] <;> simp
    obtain ⟨ihcores, ihcore⟩ := ih (s := parseLine s ln) fun l hl =>
      ⟨(h l (List.mem_cons_of_mem _ hl)).1, fun c hc => (h l (List.mem_cons_of_mem _ hl)).2 c (hnext c hc)⟩
    rw [List.foldl_cons]
    refine ⟨ihcores.trans hcores, ?_⟩
    rcases ihcore with ihcore | ⟨⟨l, hl, hcloses⟩, ihcore⟩
    · rw [ihcore]
      rcases hcore with hcore | ⟨hcloses, hcore⟩
      · exact .inl hcore
      · exact .inr ⟨⟨ln, List.mem_cons_self, hcloses⟩, hcore⟩
    · exact .inr ⟨⟨l, List.mem_cons_of_mem _ hl, hcloses⟩, ihcore⟩

/-! ### The number of anomalies -/

theorem length_cores_of_not_begins {ln : List Char} (h : begins (message ln) = false) (s : ParseState) :
    (parseLine s ln).cores.length = s.cores.length := by
  rw [(cores_of_not_begins h s).1, ParseState.cores]
  cases s.core <;> simp

theorem length_cores_parseLine_le (s : ParseState) (ln : List Char) :
    s.cores.length + (if beginsOops (message ln) then 1 else 0) ≤ (parseLine s ln).cores.length := by
  have hstart : ∀ kind (h : kind.isAnomaly = true),
      s.cores.length + 1 ≤ (s.start kind h (message ln)).cores.length := by
    intro kind h
    rw [s.cores_start, List.length_append]
    exact le_rfl
  by_cases hoops : beginsOops (message ln) = true
  · rw [if_pos hoops, parseLine_of_beginsOops hoops]
    exact hstart .Oops (by decide)
  · rw [if_neg hoops, Nat.add_zero]
    by_cases hbegins : begins (message ln) = true
    · unfold parseLine
      dsimp only
      split
      · exact (Nat.le_succ _).trans (hstart _ _)
      · split
        · split
          · -- the event is the same one
            simp only [ParseState.cores, ParseState.core, ParseState.done, ParseState.update, List.length_append]
            cases s.cur <;> simp
          · exact (Nat.le_succ _).trans (hstart _ _)
        · rename_i hspurious hwarn
          exact absurd (by simpa [begins, beginsOops, hspurious, hwarn] using hbegins) hoops
    · rw [Bool.not_eq_true] at hbegins
      rw [length_cores_of_not_begins hbegins]

theorem countP_le_length_cores (ls : List (List Char)) (s : ParseState) :
    s.cores.length + ls.countP (fun ln => beginsOops (message ln)) ≤ (ls.foldl parseLine s).cores.length := by
  induction ls generalizing s with
  | nil => exact le_rfl
  | cons ln ls ih =>
    have hline := length_cores_parseLine_le s ln
    have hls := ih (parseLine s ln)
    rw [List.countP_cons, List.foldl_cons]
    omega

theorem countP_eq_length_cores {ls : List (List Char)}
    (h : ∀ ln ∈ ls, begins (message ln) = true → beginsOops (message ln) = true) (s : ParseState) :
    (ls.foldl parseLine s).cores.length = s.cores.length + ls.countP (fun ln => beginsOops (message ln)) := by
  induction ls generalizing s with
  | nil => rfl
  | cons ln ls ih =>
    rw [List.foldl_cons, ih fun l hl => h l (List.mem_cons_of_mem _ hl), List.countP_cons]
    by_cases hoops : beginsOops (message ln) = true
    · rw [if_pos hoops, parseLine_of_beginsOops hoops, ParseState.cores_start, List.length_append, List.length_singleton]
      omega
    · rw [if_neg hoops, length_cores_of_not_begins]
      · omega
      · exact Bool.eq_false_iff.2 fun hbegins => hoops (h ln List.mem_cons_self hbegins)

theorem anomalies_parse (text : List Char) :
    (anomalies (parse text)).map Event.cpu = ((splitlines text).foldl parseLine {}).cores := ParseState.done_flush _

theorem n_anomalies_parse (text : List Char) :
    (splitlines text).countP (fun ln => beginsOops (message ln)) ≤ (aggregate (parse text)).n_anomalies ∧
      ((∀ ln ∈ splitlines text, begins (message ln) = true → beginsOops (message ln) = true) →
        (aggregate (parse text)).n_anomalies = (splitlines text).countP fun ln => beginsOops (message ln)) := by
  have hn : (aggregate (parse text)).n_anomalies = ((splitlines text).foldl parseLine {}).cores.length := by
    rw [← anomalies_parse, List.length_map]
    rfl
  have hinit : ({} : ParseState).cores.length = 0 := rfl
  rw [hn]
  constructor
  · have hle := countP_le_length_cores (splitlines text) {}
    rwa [hinit, Nat.zero_add] at hle
  · intro h
    rw [countP_eq_length_cores h, hinit, Nat.zero_add]

end GemFI.Diag
