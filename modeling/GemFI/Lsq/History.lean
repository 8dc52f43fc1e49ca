import GemFI.Lsq.Source

/-!
# The history of the forwardings

The ring of `pickSource` holds the last eight forwardings that were recorded.  Read backwards from the cursor, its slots
are the recordings from the newest on (`remembers_run`), so a search that starts `phase_offset` entries back takes the
newest recording that is so old and large enough (`phase_offset_source`).
-/

namespace GemFI.Lsq

namespace CHAOSLSQFwd

variable {cfg : FwdConfig}

def isRecorded (cfg : FwdConfig) (f : Forwarding) : Bool :=
  decide (0 < cfg.probability) && !f.isAllZeros && decide (0 < f.size ∧ f.size ≤ HIST_BYTES)

def recordings (cfg : FwdConfig) (fs : List Forwarding) : List Forwarding := (fs.filter (isRecorded cfg)).reverse

structure EntryOf (e : HistEntry) (g : Forwarding) : Prop where
  valid : e.valid = true
  size : e.size = g.size
  fits : g.size ≤ HIST_BYTES
  data : e.data.take g.size = g.data

def Remembers (s : CHAOSLSQFwd cfg) (rs : List Forwarding) : Prop :=
  ∃ entries, s.hist.Holds {} entries ∧ List.Forall₂ EntryOf entries rs

theorem recordings_concat (fs : List Forwarding) (f : Forwarding) :
    recordings cfg (fs ++ [f]) = if isRecorded cfg f then f :: recordings cfg fs else recordings cfg fs := by
  unfold recordings
  rw [List.filter_append, List.reverse_append]
  by_cases hf : isRecorded cfg f = true
  · rw [if_pos hf, List.filter_cons_of_pos hf]
    rfl
  · rw [if_neg hf, List.filter_cons_of_neg hf]
    rfl

theorem init_remembers (cfg : FwdConfig) (draw : Nat → Nat) : Remembers (init cfg draw) [] :=
  ⟨[], Ring.holds_nil ({} : HistEntry) (show 0 < HIST_CAP by decide), .nil⟩

variable {s : CHAOSLSQFwd cfg} {rs : List Forwarding}

theorem record_remembers (h : Remembers s rs) (f : Forwarding) :
    Remembers (record s f) (if 0 < f.size ∧ f.size ≤ HIST_BYTES then f :: rs else rs) := by
  obtain ⟨entries, hholds, hentries⟩ := h
  by_cases hsize : 0 < f.size ∧ f.size ≤ HIST_BYTES
  · have hnew := hholds.write fun e =>
      { data := f.data ++ e.data.drop f.size, size := f.size, valid := true, event := s.past.length }
    rw [← record_hist s hsize.1 hsize.2] at hnew
    rw [if_pos hsize]
    exact ⟨_, hnew, .cons ⟨rfl, rfl, hsize.2, List.take_left⟩ hentries⟩
  · have hsame : record s f = s := if_neg hsize
    rw [hsame, if_neg hsize]
    exact ⟨entries, hholds, hentries⟩

theorem forward_remembers (h : Remembers s (recordings cfg s.past)) (f : Forwarding) :
    Remembers (forward s f) (recordings cfg (forward s f).past) := by
  have hpast : (forward s f).past = s.past ++ [f] := rfl
  have hhist := forward_hist s f
  rw [hpast, recordings_concat]
  by_cases hseen : 0 < cfg.probability ∧ f.isAllZeros = false
  · rw [if_pos hseen] at hhist
    have hrec : isRecorded cfg f = true ↔ 0 < f.size ∧ f.size ≤ HIST_BYTES := by
      simp [isRecorded, hseen.1, hseen.2]
    obtain ⟨entries, hholds, hentries⟩ := record_remembers h f
    rw [← hhist] at hholds
    simp only [hrec]
    exact ⟨entries, hholds, hentries⟩
  · rw [if_neg hseen] at hhist
    have hrec : ¬isRecorded cfg f = true := by
      intro hrec
      simp only [isRecorded, Bool.and_eq_true, decide_eq_true_eq, Bool.not_eq_true'] at hrec
      exact hseen hrec.1
    obtain ⟨entries, hholds, hentries⟩ := h
    rw [← hhist] at hholds
    rw [if_neg hrec]
    exact ⟨entries, hholds, hentries⟩

theorem remembers_run (cfg : FwdConfig) (draw : Nat → Nat) (fs : List Forwarding) :
    Remembers (fs.foldl forward (init cfg draw)) (recordings cfg (fs.foldl forward (init cfg draw)).past) :=
  List.foldlRecOn (motive := fun s : CHAOSLSQFwd cfg => Remembers s (recordings cfg s.past)) fs forward
    (init_remembers cfg draw) fun _ hs f _ => forward_remembers hs f

theorem past_run (s : CHAOSLSQFwd cfg) (fs : List Forwarding) : (fs.foldl forward s).past = s.past ++ fs := by
  induction fs generalizing s with
  | nil => simp
  | cons f fs ih =>
    rw [List.foldl_cons, ih]
    simp [forward]

/-! ### The search -/

def idx (hist_next : Nat) (i : Int) : Int := ((hist_next : Int) - 1 - i + HIST_CAP).tmod HIST_CAP

theorem idx_eq_back (r : Ring HistEntry HIST_CAP) {i : Int} (hi : i < HIST_CAP) : idx r.next i = r.back i := by
  have hcap : (HIST_CAP : Int) = 8 := rfl
  unfold idx Ring.back
  have hnonneg : 0 ≤ (r.next : Int) - 1 - i + HIST_CAP := by omega
  rw [Int.tmod_eq_emod_of_nonneg hnonneg, Int.toNat_of_nonneg (Int.emod_nonneg _ (by omega))]

theorem find_recording {p : HistEntry → Bool} {q : Forwarding → Bool} (hpq : ∀ e g, EntryOf e g → p e = q g)
    {entries : List HistEntry} (h : List.Forall₂ EntryOf entries rs) {e : HistEntry}
    (hfind : entries.find? p = some e) : ∃ g, rs.find? q = some g ∧ EntryOf e g := by
  induction h with
  | nil => cases hfind
  | @cons e' g' entries rs heg _ ih =>
    cases hp : p e' with
    | true =>
      rw [List.find?_cons_of_pos hp] at hfind
      obtain rfl := Option.some.inj hfind
      exact ⟨g', List.find?_cons_of_pos (by rw [← hpq _ _ heg, hp]), heg⟩
    | false =>
      rw [List.find?_cons_of_neg (by simp [hp])] at hfind
      obtain ⟨g, hg, heg'⟩ := ih hfind
      exact ⟨g, by rw [List.find?_cons_of_neg (by simp [← hpq _ _ heg, hp]), hg], heg'⟩

theorem chosen_recording (h : Remembers s rs)
    (hdepth : 0 ≤ start_depth cfg) {f : Forwarding} {e : HistEntry} (he : (chosen s f).1 = some e) :
    ∃ g, ((if 0 < f.size ∧ f.size ≤ HIST_BYTES then f :: rs else rs).drop (start_depth cfg).toNat).find?
        (fun g => decide (f.size ≤ g.size)) = some g ∧ EntryOf e g := by
  obtain ⟨entries, hholds, hentries⟩ := record_remembers h f
  unfold chosen at he
  dsimp only at he
  split at he
  · cases he
  split at he
  · unfold findStale searched at he
    rw [(gate_same (record s f) f.now).hist] at he
    have hstart : ((start_depth cfg).toNat : Int) = start_depth cfg := Int.toNat_of_nonneg hdepth
    have hcount : ((HIST_CAP : Int) - start_depth cfg).toNat = HIST_CAP - (start_depth cfg).toNat := by omega
    rw [hcount, ← hstart, Int.toNat_natCast] at he
    have hfound := hholds.find_slots (by rfl) he
    refine find_recording ?_ (List.forall₂_drop _ hentries) hfound
    intro e g heg
    rw [heg.valid, heg.size, Bool.true_and]
  · cases he

/-- In every run, `pickSource` indexes the ring only inside, and copies at most the bytes that the chosen entry recorded.
With a phase offset that is not negative, a counted substitution returns the first bytes of the newest recording that is
at least so many recordings older than the last one and has enough bytes. -/
theorem phase_offset_source (cfg : FwdConfig) (hoffset : 0 ≤ cfg.phase_offset) (draw : Nat → Nat)
    (fs : List Forwarding) {f : Forwarding} (hseen : f.isAllZeros = false) :
    let s := fs.foldl forward (init cfg draw)
    s.hist.next < HIST_CAP ∧
    (∀ i : Int, start_depth cfg ≤ i → i < HIST_CAP →
      0 ≤ idx (record s f).hist.next i ∧ idx (record s f).hist.next i < HIST_CAP) ∧
    (∀ e, (chosen s f).1 = some e → f.size ≤ e.size ∧ e.size ≤ HIST_BYTES ∧ e.size ≤ e.data.length) ∧
    (cfg.source_fault_enum = .PhaseOffset → Counted s f →
      ∃ g, ((recordings cfg (fs ++ [f])).drop cfg.phase_offset.toNat).find? (fun g => decide (f.size ≤ g.size)) = some g ∧
        (pickSource s f).1 = g.data.take f.size) := by
  intro s
  have hremembers := remembers_run cfg draw fs
  have hpast : s.past = fs := past_run (init cfg draw) fs
  rw [hpast] at hremembers
  obtain ⟨entries, hholds, -⟩ := hremembers
  have hdepth : 0 ≤ start_depth cfg := by
    unfold start_depth
    split <;> omega
  refine ⟨hholds.next_lt, ?_, ?_, ?_⟩
  · intro i _ hi
    have hlt := (record s f).hist.back_lt (by decide) i
    rw [idx_eq_back _ hi]
    omega
  · intro e he
    obtain ⟨g, hfind, heg⟩ := chosen_recording (remembers_run cfg draw fs) hdepth he
    have hfit := List.find?_some hfind
    rw [decide_eq_true_eq] at hfit
    have hlen := congrArg List.length heg.data
    rw [List.length_take] at hlen
    have hsize : g.size = g.data.length := rfl
    rw [heg.size]
    exact ⟨hfit, heg.fits, by omega⟩
  · intro hmode hcounted
    obtain ⟨e, he⟩ := (counted_iff s f).1 hcounted
    obtain ⟨g, hfind, heg⟩ := chosen_recording (remembers_run cfg draw fs) hdepth he
    have hstart : start_depth cfg = cfg.phase_offset := if_pos hmode
    have hon : 0 < cfg.probability := (chosen_eq_some he).1.1.1
    have hrec : isRecorded cfg f = true ↔ 0 < f.size ∧ f.size ≤ HIST_BYTES := by
      simp [isRecorded, hon, hseen]
    have hfit := List.find?_some hfind
    rw [decide_eq_true_eq] at hfit
    refine ⟨g, ?_, ?_⟩
    · rw [recordings_concat, ← hpast]
      simp only [hrec]
      rw [← hstart]
      exact hfind
    · rw [pickSource_data, he, ← heg.data, List.take_take, Nat.min_eq_left hfit]
      rfl

def phased (phase_offset : Int) : FwdConfig :=
  { probability := 1, fault_type_enum := .BitFlip, fault_mask := 1, mask_width := 1, structural_fault_enum := .None
    source_fault_enum := .PhaseOffset, phase_offset := phase_offset, skew_bytes := 0, num_bits_to_change := 1
    byte_offset := 0, first_clock := 0, last_clock := 0, max_faults := 0, uniform := fun _ => 0
    random_fault_distribution := Mem.firstType }

/-- A load of two bytes after loads of two, one and one: the last two recordings before it are too short. -/
theorem phase_offset_source_short :
    let s := [{ data := [1, 2] }, { data := [3] }, { data := [4] }].foldl forward (init (phased 1) fun _ => 0)
    (pickSource s { data := [8, 9] }).1 = [1, 2] := by
  intro s
  have hcounted : Counted s { data := [8, 9] } := by
    unfold Counted
    decide +kernel
  obtain ⟨g, hfind, hdata⟩ := (phase_offset_source (phased 1) (by decide) (fun _ => 0)
    [{ data := [1, 2] }, { data := [3] }, { data := [4] }] (f := { data := [8, 9] }) rfl).2.2.2 rfl hcounted
  have hg : some { data := [1, 2] } = some g := Eq.trans (by decide +kernel) hfind
  rw [hdata, ← Option.some.inj hg]
  rfl

end CHAOSLSQFwd

end GemFI.Lsq
