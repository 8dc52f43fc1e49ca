import GemFI.Diag.LogParse
import GemFI.Lib.Run

/-!
# Warnings and spurious faults

The kernel prints a spurious fault in two lines, and `parse` takes a WARNING line for the second of them whenever the
pending event is a spurious fault.  Only an Oops, another spurious fault or the end of its trace take the place of a
pending event.  So a WARNING line has an event of its own exactly if no spurious fault before it is still pending
(`warning_own_event_iff`), however many lines are between them.
-/

namespace GemFI.Diag

open Text

namespace ParseState

def pendingSpurious (s : ParseState) : Bool := s.cur.any fun e => e.kind = .spurious_translation_fault

/-- A line has an event of its own: what is pending is complete, and the new event has nothing but the line. -/
def OwnEvent (s : ParseState) (ln : List Char) : Prop :=
  ∃ kind, (parseLine s ln).events = s.flush.events ∧
    (parseLine s ln).cur = some (({ kind } : Event).readHeader (message ln))

theorem pendingSpurious_start (s : ParseState) {kind : Kind} (h : kind.isAnomaly = true) (rest : List Char) :
    (s.start kind h rest).pendingSpurious = decide (kind = .spurious_translation_fault) := by
  simp [pendingSpurious, start]

theorem pendingSpurious_update (s : ParseState) {f : Event → Event} (h : ∀ e, (f e).kind = e.kind) :
    (s.update f h).pendingSpurious = s.pendingSpurious := by
  show (s.cur.map f).any _ = s.cur.any _
  cases s.cur with
  | none => rfl
  | some e => simp [h]

theorem pendingSpurious_flush (s : ParseState) : s.flush.pendingSpurious = false := rfl

end ParseState

open ParseState

/-! ### The five kinds of lines -/

section Lines

variable {ln : List Char} (s : ParseState)

theorem parseLine_spurious (h : isSpurious (message ln) = true) :
    parseLine s ln = s.start .spurious_translation_fault (by decide) (message ln) := if_pos h

variable (hspurious : isSpurious (message ln) = false)
include hspurious

theorem parseLine_warn (hwarn : isWarn (message ln) = true) :
    parseLine s ln =
      if s.pendingSpurious then s.update (fun e => e.readHeader (message ln)) fun e => e.readHeader_kind _
      else s.start .WARNING (by decide) (message ln) := by
  simp only [parseLine, hspurious, hwarn, Bool.false_eq_true, if_false, if_true]
  rfl

variable (hwarn : isWarn (message ln) = false)
include hwarn

theorem parseLine_edac (hoops : isOops (message ln) = false) (hedac : isEdac (message ln) = true) :
    parseLine s ln = { s with events := s.events ++ [{ kind := .edac_ras_line }] } := by
  simp only [parseLine, hspurious, hwarn, hoops, hedac, Bool.false_eq_true, if_false, if_true]

theorem parseLine_context (hoops : isOops (message ln) = false) (hedac : isEdac (message ln) = false) :
    parseLine s ln =
      if closes (message ln) then (s.update (fun e => e.readContext (message ln)) fun e => e.readContext_kind _).flush
      else s.update (fun e => e.readContext (message ln)) fun e => e.readContext_kind _ := by
  simp only [parseLine, hspurious, hwarn, hoops, hedac, Bool.false_eq_true, if_false]

end Lines

/-! ### Pending spurious faults -/

/-- A line that is no spurious fault leaves a pending one pending. -/
def keepsPending (rest : List Char) : Bool := isWarn rest || !isOops rest && (isEdac rest || !closes rest)

theorem pendingSpurious_of_isSpurious {ln : List Char} (h : isSpurious (message ln) = true) (s : ParseState) :
    (parseLine s ln).pendingSpurious = true := by
  rw [parseLine_spurious s h, pendingSpurious_start]
  rfl

theorem pendingSpurious_parseLine {ln : List Char} (h : isSpurious (message ln) = false) (s : ParseState) :
    (parseLine s ln).pendingSpurious = (s.pendingSpurious && keepsPending (message ln)) := by
  unfold keepsPending
  cases hwarn : isWarn (message ln) with
  | true =>
    rw [parseLine_warn s h hwarn, Bool.true_or, Bool.and_true]
    cases hpending : s.pendingSpurious with
    | true => rw [if_pos rfl, pendingSpurious_update, hpending]
    | false => rw [if_neg Bool.false_ne_true, pendingSpurious_start]; rfl
  | false =>
    cases hoops : isOops (message ln) with
    | true =>
      rw [parseLine_of_beginsOops (by simp [beginsOops, h, hwarn, hoops]), pendingSpurious_start]
      simp
    | false =>
      cases hedac : isEdac (message ln) with
      | true =>
        rw [parseLine_edac s h hwarn hoops hedac]
        simp [pendingSpurious]
      | false =>
        rw [parseLine_context s h hwarn hoops hedac]
        cases hcloses : closes (message ln) with
        | true => simp [pendingSpurious_flush]
        | false => simp [pendingSpurious_update]

/-- There is a spurious fault whose event no later line has completed. -/
def SpuriousBefore (pre : List (List Char)) : Prop :=
  ∃ a sp b, pre = a ++ sp :: b ∧ isSpurious (message sp) = true ∧
    ∀ l ∈ b, isSpurious (message l) = false ∧ keepsPending (message l) = true

theorem pendingSpurious_foldl (pre : List (List Char)) :
    (pre.foldl parseLine {}).pendingSpurious = true ↔ SpuriousBefore pre := by
  have hlatch := foldl_latch (fun s : ParseState => s.pendingSpurious = true)
    (fun l : List Char => isSpurious (message l) = true) (fun l => keepsPending (message l) = true)
    (fun s l h => pendingSpurious_of_isSpurious h s)
    (fun s l h => by rw [pendingSpurious_parseLine (Bool.eq_false_iff.2 h), Bool.and_eq_true]) {} pre
  rw [hlatch, or_iff_right fun h => Bool.false_ne_true h.1]
  simp only [Bool.not_eq_true]
  rfl

/-! ### Events of their own -/

theorem ownEvent_iff {ln : List Char} (hwarn : isWarn (message ln) = true) (s : ParseState) :
    s.OwnEvent ln ↔ isSpurious (message ln) = true ∨ s.pendingSpurious = false := by
  unfold OwnEvent
  cases hspurious : isSpurious (message ln) with
  | true =>
    rw [parseLine_spurious s hspurious]
    exact iff_of_true ⟨.spurious_translation_fault, rfl, rfl⟩ (.inl rfl)
  | false =>
    rw [parseLine_warn s hspurious hwarn, or_iff_right Bool.false_ne_true]
    cases hpending : s.pendingSpurious with
    | true =>
      -- the line adds no event
      refine iff_of_false ?_ (by simp)
      rintro ⟨kind, hevents, -⟩
      obtain ⟨e, he, -⟩ := (Option.any_eq_true _ _).1 hpending
      have hlength := congrArg List.length hevents
      rw [if_pos rfl, flush, he] at hlength
      simp [update] at hlength
    | false =>
      rw [if_neg Bool.false_ne_true]
      exact iff_of_true ⟨.WARNING, rfl, rfl⟩ rfl

theorem events_parseLine (s : ParseState) (ln : List Char) : s.events <+: (parseLine s ln).events := by
  unfold parseLine
  dsimp only
  have hflush : ∀ t : ParseState, t.events = s.events → s.events <+: t.flush.events := by
    intro t ht
    rw [← ht]
    exact List.prefix_append _ _
  split
  · exact hflush s rfl
  · split
    · split
      · exact List.prefix_rfl
      · exact hflush s rfl
    · split
      · exact hflush s rfl
      · split
        · exact List.prefix_append _ _
        · split
          · exact hflush _ rfl
          · exact List.prefix_rfl

theorem events_foldl (ls : List (List Char)) (s : ParseState) : s.events <+: (ls.foldl parseLine s).events := by
  induction ls generalizing s with
  | nil => exact List.prefix_rfl
  | cons l ls ih => exact (events_parseLine s l).trans (ih _)

/-- A WARNING line has an event of its own exactly if it is a spurious fault itself or no spurious fault before it is still
pending.  Then the events before it are among those of the whole log as they are. -/
theorem warning_own_event_iff (pre : List (List Char)) (ln : List Char) (hwarn : isWarn (message ln) = true) :
    ((pre.foldl parseLine {}).OwnEvent ln ↔ isSpurious (message ln) = true ∨ ¬SpuriousBefore pre) ∧
    ((pre.foldl parseLine {}).OwnEvent ln →
      ∀ post, (pre.foldl parseLine {}).flush.events <+: ((pre ++ ln :: post).foldl parseLine {}).flush.events) := by
  refine ⟨?_, ?_⟩
  · rw [ownEvent_iff hwarn, ← pendingSpurious_foldl, Bool.not_eq_true]
  · rintro ⟨kind, hevents, -⟩ post
    rw [List.foldl_append, List.foldl_cons, ← hevents]
    exact (events_foldl post _).trans (List.prefix_append _ _)

/-- A warning at the beginning of a log. -/
theorem warning_own_event_first :
    isWarn (message "WARNING: CPU: 5".toList) = true ∧ ({} : ParseState).OwnEvent "WARNING: CPU: 5".toList := by
  have hwarn : isWarn (message "WARNING: CPU: 5".toList) = true := by decide +kernel
  refine ⟨hwarn, (warning_own_event_iff [] _ hwarn).1.2 (.inr ?_)⟩
  rintro ⟨a, sp, b, hnil, -⟩
  simp at hnil

/-- A spurious fault on core 3, a line of its registers, and a warning on core 5: there is one event, on core 5. -/
theorem warning_joins_over_lines :
    parse ("Ignoring spurious kernel translation fault CPU: 3 PID: 10 Comm: a\npc : f\n" ++
      "WARNING: CPU: 5 PID: 20 Comm: b").toList =
    [{ kind := .spurious_translation_fault, cpu := some 5, pid := some 20, comm := some ['b'], pc := some ['f'] }] := by
  rw [String.toList_append, String.toList_ofList, String.toList_ofList]
  decide +kernel

end GemFI.Diag
