import GemFI.Tools.EdProfile

/-!
# The two readers of the ED score

`ed_score` and the fitness of `harp_evolve` compute the same weighted sum from a file of statistics.  `measure` goes
through the lines, and a later value of a statistic replaces an earlier one.  `read_coverage` searches the whole text
for the first value, and if there is none for any unit it derives the coverage from older statistics.

The two scores are the same for all profiles just if the two readers find the same coverage: in a file of several
dumps if the first and the last value agree for every unit, and in a file without coverage if the older statistics are
0 (`fitness_eq_score_iff`).

The text is the file with its ends of lines translated, in ASCII.  A number that `float` does not accept is skipped by
`measure` and ends `ed_score`.
-/

namespace GemFI.Tools

open Text

def EdUnit.name : EdUnit → String
  | .IFU => "IFU"
  | .OoO => "OoO"
  | .IEX => "IEX"
  | .LSU => "LSU"
  | .FSU => "FSU"
  | .MMU => "MMU"
  | .L2C => "L2C"

def harpPrefix : List Char := "system.CHAOSCov.harp.".toList

def covKey (u : EdUnit) : List Char := ("covUnits::" ++ u.name).toList

def isValueChar (c : Char) : Bool := c.isDigit || ['.', 'e', 'E', '+', '-'].contains c

/-- The number of a match of `\s+([\d.eE+-]+)` at the beginning of a text. -/
def valueAt (t : List Char) : Option (List Char) :=
  let value := (t.dropWhile isSpace).takeWhile isValueChar
  if t.head?.any isSpace ∧ value ≠ [] then some value else none

/-! ### The fitness of `harp_evolve` -/

def keyTail : List Char → Bool
  | [] => true
  | ':' :: ':' :: c :: t => isWord c && keyTail t
  | c :: t => isWord c && keyTail t

/-- The text matches `\w+(?:::\w+)*` as a whole. -/
def keyOk : List Char → Bool
  | [] => false
  | c :: t => isWord c && keyTail t

def statLine? (line : List Char) : Option (List Char × List Char) :=
  if harpPrefix.isPrefixOf line then
    let rest := line.drop harpPrefix.length
    -- white space follows the name, so it is all that comes before
    let key := rest.takeWhile fun c => !isSpace c
    if keyOk key then (valueAt (rest.dropWhile fun c => !isSpace c)).map fun value => (key, value) else none
  else none

abbrev Stats := AList fun _ : List Char => ℚ

def measureLine (stats : Stats) (line : List Char) : Stats :=
  match statLine? line with
  | some (key, value) =>
    match decimal? value with
    | some v => stats.insert key v
    | none => stats
  | none => stats

def measure (text : List Char) : Stats := (fileLines text).foldl measureLine ∅

def ed_of_stats (stats : Stats) (prof : CpuProfile) : ℚ :=
  UNITS.foldl (fun ed u =>
    ed + prof.weights u * prof.rho_initial u * min ((stats.lookup (covKey u)).getD 0) (prof.ceiling u)) 0

/-! ### The score of `ed_score` -/

def statAt (key t : List Char) : Option (List Char) :=
  if (harpPrefix ++ key).isPrefixOf t then valueAt (t.drop (harpPrefix ++ key).length) else none

/-- The value of a statistic, if there is one; no result is a `ValueError`. -/
def read_stat (text key : List Char) : Option (Option ℚ) :=
  match search (statAt key) text with
  | some value => (decimal? value).map some
  | none => some none

/-- The statistics from which the coverage is derived if it is missing. -/
def LEGACY : List String :=
  ["irfAvf", "l1dAvf", "l2cAvf", "ibrIntAdd", "ibrIntMul", "sqAvf", "ibrFpAdd", "ibrFpMul"]

def legacyCoverage (stat : String → ℚ) : Coverage
  | .IFU => 0
  | .MMU => 0
  | .OoO => stat "irfAvf"
  | .IEX => max (stat "ibrIntAdd") (stat "ibrIntMul")
  | .LSU => stat "sqAvf"
  | .FSU => max (stat "ibrFpAdd") (stat "ibrFpMul")
  | .L2C => max (stat "l1dAvf") (stat "l2cAvf")

def read_coverage (text : List Char) : Option Coverage :=
  if UNITS.any fun u => (read_stat text (covKey u)).isNone then none
  else if UNITS.all fun u => read_stat text (covKey u) = some none then
    if LEGACY.any fun key => (read_stat text key.toList).isNone then none
    else some (legacyCoverage fun key => (read_stat text key.toList).join.getD 0)
  else some fun u => (read_stat text (covKey u)).join.getD 0

/-- The score with the default options: the checker sees everything, and no `rho` is measured. -/
def ed_score (text : List Char) (prof : CpuProfile) : Option ℚ :=
  let q : EdUnit → ℚ := fun _ => 1
  let rho : EdUnit → ℚ := fun u => (prof.rho_overrides u).getD (prof.rho_initial u)
  (read_coverage text).map fun cov =>
    UNITS.foldl (fun ed u => ed + prof.weights u * rho u * q u * min (cov u) (prof.ceiling u)) 0

/-! ### Profiles tell coverages apart -/

def measuredCoverage (text : List Char) : Coverage := fun u => ((measure text).lookup (covKey u)).getD 0

def weightedSum (prof : CpuProfile) (cov : Coverage) : ℚ :=
  (UNITS.map fun u => prof.weights u * prof.rho_initial u * min (cov u) (prof.ceiling u)).sum

theorem ed_of_stats_eq (text : List Char) (prof : CpuProfile) :
    ed_of_stats (measure text) prof = weightedSum prof (measuredCoverage text) := by
  rw [ed_of_stats, weightedSum, List.sum_eq_foldl, List.foldl_map]
  rfl

theorem ed_score_eq (text : List Char) (prof : CpuProfile) :
    ed_score text prof = (read_coverage text).map (weightedSum prof) := by
  have hrho : ∀ u, (prof.rho_overrides u).getD (prof.rho_initial u) = prof.rho_initial u := by
    intro u
    unfold CpuProfile.rho_initial
    cases prof.rho_overrides u <;> rfl
  unfold ed_score
  dsimp only
  congr 1
  funext cov
  simp only [hrho, mul_one]
  rw [weightedSum, List.sum_eq_foldl, List.foldl_map]

def onlyUnit (u : EdUnit) (c : ℚ) : CpuProfile :=
  let p : CpuProfile :=
    match u with
    | .IFU => { l1i_tlb := some 1 }
    | .OoO => { rob := some 1 }
    | .IEX => { iex_fus := [{ count := some 3, width := some 1 }] }
    | .LSU => { lq := some 1 }
    | .FSU => { fsu_fus := [{ count := some 3, width := some 1 }] }
    | .MMU => { l2_tlb := some 1 }
    | .L2C => { l2_size := some ⟨.number 1, rfl⟩ }
  { p with rho_overrides := fun _ => some 1, ceilings := fun _ => some c }

theorem weightedSum_onlyUnit (u : EdUnit) (c : ℚ) (cov : Coverage) : weightedSum (onlyUnit u c) cov = min (cov u) c := by
  have hbits : (onlyUnit u c).unit_bits u ≠ 0 ∧ ∀ v, v ≠ u → (onlyUnit u c).unit_bits v = 0 := by
    have hzero : ∀ u v, (onlyUnit u 0).unit_bits v ≠ 0 ↔ v = u := by decide +kernel
    have hceiling : (onlyUnit u c).unit_bits = (onlyUnit u 0).unit_bits := by cases u <;> rfl
    rw [hceiling]
    exact ⟨(hzero u u).2 rfl, fun v hv => not_not.1 fun hne => hv ((hzero u v).1 hne)⟩
  have hweights := CpuProfile.weights_of_only hbits.1 hbits.2
  have hrho : ∀ v, (onlyUnit u c).rho_initial v = 1 := fun _ => rfl
  have hceiling : ∀ v, (onlyUnit u c).ceiling v = c := fun _ => rfl
  unfold weightedSum
  simp only [hweights, hrho, hceiling, mul_one]
  cases u <;> simp [UNITS]

theorem scores_eq_iff (text : List Char) :
    (∀ prof, ed_score text prof = some (ed_of_stats (measure text) prof)) ↔
      read_coverage text = some (measuredCoverage text) := by
  constructor
  · intro h
    cases hread : read_coverage text with
    | none =>
      have hnone := h {}
      rw [ed_score_eq, hread] at hnone
      cases hnone
    | some cov =>
      congr 1
      funext u
      -- a profile with a ceiling above both values
      have heq := h (onlyUnit u (max (cov u) (measuredCoverage text u)))
      rw [ed_score_eq, ed_of_stats_eq, hread, Option.map_some, weightedSum_onlyUnit, weightedSum_onlyUnit,
        Option.some_inj, min_eq_left (le_max_left _ _), min_eq_left (le_max_right _ _)] at heq
      exact heq
  · intro h prof
    rw [ed_score_eq, ed_of_stats_eq, h, Option.map_some]

/-! ### Files of statistics -/

/-- The parts of a line with a statistic of the collector; `number` is the value. -/
structure HarpLine where
  key : List Char
  pad : Nat
  value : List Char
  number : ℚ
  rest : List Char

namespace HarpLine

def body (l : HarpLine) : List Char := l.key ++ (List.replicate (l.pad + 1) ' ' ++ (l.value ++ l.rest))

def text (l : HarpLine) : List Char := harpPrefix ++ l.body

/-- A line as the simulator writes it.  The name of the collector stands nowhere else in it. -/
structure Ok (l : HarpLine) : Prop where
  key : keyOk l.key = true
  value : decimal? l.value = some l.number
  value_chars : ∀ c ∈ l.value, isValueChar c = true
  rest : ∀ c ∈ l.rest.head?, isValueChar c = false
  line : ∀ c ∈ l.rest, (c == '\n' || c == '\r') = false
  once : ¬harpPrefix <:+: l.text.tail

end HarpLine

/-- A line of a file: a statistic of the collector, or anything else. -/
inductive StatsLine where
  | harp (l : HarpLine) (ok : l.Ok)
  | other (t : List Char) (line : ∀ c ∈ t, (c == '\n' || c == '\r') = false) (none : ¬harpPrefix <:+: t)

def StatsLine.text : StatsLine → List Char
  | .harp l _ => l.text
  | .other t _ _ => t

def StatsLine.value? (key : List Char) : StatsLine → Option ℚ
  | .harp l _ => if l.key = key then some l.number else none
  | .other _ _ _ => none

abbrev StatsFile := List StatsLine

def StatsFile.text (f : StatsFile) : List Char := unlines (f.map StatsLine.text)

def StatsFile.values (f : StatsFile) (key : List Char) : List ℚ := f.filterMap (StatsLine.value? key)

/-! ### The characters of a line -/

theorem names_table : harpPrefix ≠ [] ∧ (harpPrefix.all fun c => !(c == '\n' || c == '\r')) = true ∧
    (∀ u, ((covKey u).all fun c => !isSpace c) = true) ∧ ∀ key ∈ LEGACY, (key.toList.all fun c => !isSpace c) = true := by
  decide +kernel

theorem harpPrefix_chars : ∀ c ∈ harpPrefix, (c == '\n' || c == '\r') = false := by
  simpa using List.all_eq_true.1 names_table.2.1

theorem covKey_chars (u : EdUnit) : ∀ c ∈ covKey u, isSpace c = false := by
  simpa using names_table.2.2.1 u

theorem legacy_chars {key : String} (h : key ∈ LEGACY) : ∀ c ∈ key.toList, isSpace c = false := by
  simpa using names_table.2.2.2 key h

theorem isSpace_of_isValueChar {c : Char} (h : isValueChar c = true) : isSpace c = false := by
  simp only [isValueChar, Bool.or_eq_true, List.contains_cons, List.contains_nil, Bool.or_false, beq_iff_eq] at h
  rcases h with h | h | h | h | h | h
  · exact isSpace_of_isDigit h
  all_goals
    rw [h]
    decide

theorem keyTail_chars {k : List Char} (h : keyTail k = true) : ∀ c ∈ k, isSpace c = false := by
  fun_induction keyTail k with
  | case1 => simp
  | case2 c t ih =>
    rw [Bool.and_eq_true] at h
    have hcolon : isSpace ':' = false := by decide
    simp only [List.forall_mem_cons]
    exact ⟨hcolon, hcolon, isSpace_of_isWord h.1, ih h.2⟩
  | case3 c t _ ih =>
    rw [Bool.and_eq_true] at h
    exact List.forall_mem_cons.2 ⟨isSpace_of_isWord h.1, ih h.2⟩

theorem keyOk_chars {k : List Char} (h : keyOk k = true) : ∀ c ∈ k, isSpace c = false := by
  cases k with
  | nil => simp
  | cons c t =>
    rw [keyOk, Bool.and_eq_true] at h
    exact List.forall_mem_cons.2 ⟨isSpace_of_isWord h.1, keyTail_chars h.2⟩

theorem valueAt_pad {value r : List Char} (hne : value ≠ []) (hchars : ∀ c ∈ value, isValueChar c = true)
    (hr : ∀ c ∈ r.head?, isValueChar c = false) (n : Nat) :
    valueAt (List.replicate (n + 1) ' ' ++ (value ++ r)) = some value := by
  have hpad : ∀ c ∈ List.replicate (n + 1) ' ', isSpace c = true := by
    intro c hc
    rw [(List.mem_replicate.1 hc).2]
    decide
  have hdrop : (value ++ r).dropWhile isSpace = value ++ r := by
    cases value with
    | nil => exact absurd rfl hne
    | cons c v =>
      rw [List.cons_append, List.dropWhile_cons_of_neg]
      simp [isSpace_of_isValueChar (hchars c List.mem_cons_self)]
  have htake : r.takeWhile isValueChar = [] := by
    cases r with
    | nil => rfl
    | cons c r =>
      rw [List.takeWhile_cons_of_neg]
      simp [hr c (by simp)]
  rw [valueAt, List.dropWhile_append_of_pos hpad, hdrop, List.takeWhile_append_of_pos hchars, htake, List.append_nil]
  exact if_pos ⟨rfl, hne⟩

theorem value_ne_nil {l : HarpLine} (ok : l.Ok) : l.value ≠ [] := by
  intro hnil
  have hvalue := ok.value
  have hempty : decimal? [] = none := rfl
  rw [hnil, hempty] at hvalue
  cases hvalue

theorem no_break_of_isSpace {c : Char} (h : isSpace c = false) : (c == '\n' || c == '\r') = false := by
  rw [Bool.or_eq_false_iff, beq_eq_false_iff_ne, beq_eq_false_iff_ne]
  constructor <;>
  · rintro rfl
    revert h
    decide

theorem StatsLine.no_break (l : StatsLine) : ∀ c ∈ l.text, (c == '\n' || c == '\r') = false := by
  cases l with
  | harp l ok =>
    intro c hc
    rw [StatsLine.text, HarpLine.text, HarpLine.body] at hc
    simp only [List.mem_append] at hc
    rcases hc with hc | hc | hc | hc | hc
    · exact harpPrefix_chars c hc
    · exact no_break_of_isSpace (keyOk_chars ok.key c hc)
    · rw [(List.mem_replicate.1 hc).2]
      decide
    · exact no_break_of_isSpace (isSpace_of_isValueChar (ok.value_chars c hc))
    · exact ok.line c hc
  | other t line none => exact line

theorem StatsFile.values_cons (l : StatsLine) (f : StatsFile) (key : List Char) :
    StatsFile.values (l :: f) key = (l.value? key).toList ++ f.values key := by
  rw [StatsFile.values, List.filterMap_cons]
  cases l.value? key <;> rfl

/-! ### The fitness takes the last value -/

theorem statLine?_harp {l : HarpLine} (ok : l.Ok) : statLine? l.text = some (l.key, l.value) := by
  have hkey : ∀ c ∈ l.key, (!isSpace c) = true := fun c hc => by simp [keyOk_chars ok.key c hc]
  have hblank : ∀ t, (' ' :: t).takeWhile (fun c => !isSpace c) = [] := fun _ => rfl
  have hblank' : ∀ t, (' ' :: t).dropWhile (fun c => !isSpace c) = ' ' :: t := fun _ => rfl
  rw [statLine?, HarpLine.text, if_pos (List.isPrefixOf_iff_prefix.2 (List.prefix_append _ _)), List.drop_left]
  dsimp only
  rw [HarpLine.body, List.takeWhile_append_of_pos hkey, List.dropWhile_append_of_pos hkey, List.replicate_succ,
    List.cons_append, hblank, hblank', List.append_nil, if_pos ok.key, ← List.cons_append, ← List.replicate_succ,
    valueAt_pad (value_ne_nil ok) ok.value_chars ok.rest, Option.map_some]

theorem measureLine_text (stats : Stats) (l : StatsLine) (key : List Char) :
    (measureLine stats l.text).lookup key = (l.value? key).or (stats.lookup key) := by
  cases l with
  | harp l ok =>
    rw [StatsLine.text, measureLine, statLine?_harp ok]
    dsimp only
    rw [ok.value, StatsLine.value?]
    dsimp only
    by_cases h : l.key = key
    · rw [if_pos h, ← h, AList.lookup_insert, Option.some_or]
    · rw [if_neg h, AList.lookup_insert_ne (Ne.symm h), Option.none_or]
  | other t line none =>
    have hstat : statLine? t = .none := by
      rw [statLine?, if_neg]
      intro hprefix
      exact none (List.isPrefixOf_iff_prefix.1 hprefix).isInfix
    rw [StatsLine.text, measureLine, hstat, StatsLine.value?, Option.none_or]

theorem foldl_measureLine (f : StatsFile) (stats : Stats) (key : List Char) :
    ((f.map StatsLine.text).foldl measureLine stats).lookup key = (f.values key).getLast?.or (stats.lookup key) := by
  induction f generalizing stats with
  | nil => rfl
  | cons l f ih =>
    have hlast : (l.value? key).toList.getLast? = l.value? key := by cases l.value? key <;> rfl
    rw [List.map_cons, List.foldl_cons, ih, measureLine_text, StatsFile.values_cons, List.getLast?_append, hlast,
      Option.or_assoc]

theorem measure_file (f : StatsFile) (key : List Char) : (measure f.text).lookup key = (f.values key).getLast? := by
  have hlines : fileLines f.text = f.map StatsLine.text := by
    refine linesBy_unlines (by decide) (by decide) fun l hl => ?_
    obtain ⟨line, -, rfl⟩ := List.mem_map.1 hl
    exact line.no_break
  rw [measure, hlines, foldl_measureLine, AList.lookup_empty, Option.or_none]

/-! ### The score takes the first value -/

theorem search_line {a : List Char} (h : ¬harpPrefix <:+: a) (key t : List Char) :
    search (statAt key) (a ++ '\n' :: t) = search (statAt key) t := by
  have hbreak : '\n' ∉ harpPrefix := fun hmem => absurd (harpPrefix_chars _ hmem) (by decide)
  have hstat : ∀ b, ¬harpPrefix <:+: b → statAt key (b ++ '\n' :: t) = none := by
    intro b hb
    refine if_neg fun hprefix => ?_
    have hcollector := (List.prefix_append harpPrefix key).trans (List.isPrefixOf_iff_prefix.1 hprefix)
    exact hb ((prefix_append_cons_iff hbreak).1 hcollector).isInfix
  induction a with
  | nil => rw [List.nil_append, search_cons, ← List.nil_append ('\n' :: t), hstat [] h, Option.none_or]
  | cons c a ih =>
    rw [List.cons_append, search_cons, ← List.cons_append, hstat (c :: a) h, Option.none_or]
    exact ih fun hmatch => h (hmatch.trans (List.suffix_cons c a).isInfix)

theorem statAt_harp {l : HarpLine} (ok : l.Ok) {key : List Char} (hkey : ∀ c ∈ key, isSpace c = false) (t : List Char) :
    statAt key (l.text ++ '\n' :: t) = if l.key = key then some l.value else none := by
  have hrest : ∀ c ∈ (l.rest ++ '\n' :: t).head?, isValueChar c = false := by
    cases hcase : l.rest with
    | nil => simp; decide
    | cons c r =>
      have hhead := ok.rest
      rw [hcase] at hhead
      exact hhead
  -- the body with the rest of the file behind it
  have hbody : l.text ++ '\n' :: t =
      harpPrefix ++ (l.key ++ (List.replicate (l.pad + 1) ' ' ++ (l.value ++ (l.rest ++ '\n' :: t)))) := by
    simp only [HarpLine.text, HarpLine.body, List.append_assoc]
  rw [statAt, hbody]
  simp only [List.isPrefixOf_iff_prefix, List.prefix_append_right_inj, List.length_append, ← List.drop_drop,
    List.drop_left]
  by_cases h : l.key = key
  · rw [if_pos h, ← h, if_pos (List.prefix_append _ _), List.drop_left,
      valueAt_pad (value_ne_nil ok) ok.value_chars hrest]
  · rw [if_neg h]
    refine ite_eq_right_iff.2 fun hprefix => ?_
    have hspace : ' ' ∉ key := fun hmem => absurd (hkey _ hmem) (by decide)
    rw [List.replicate_succ, List.cons_append, prefix_append_cons_iff hspace] at hprefix
    obtain ⟨m, hm⟩ := hprefix
    cases m with
    | nil => exact absurd (by rw [← hm, List.append_nil]) h
    | cons c m =>
      -- the name goes on, so no white space follows
      have hc : isSpace c = false := keyOk_chars ok.key c (by simp [← hm])
      rw [← hm, List.append_assoc, List.drop_left]
      exact if_neg fun hand => absurd hand.1 (by simp [hc])

theorem read_stat_harp {l : HarpLine} (ok : l.Ok) {key : List Char} (hkey : ∀ c ∈ key, isSpace c = false)
    (t : List Char) :
    read_stat (l.text ++ '\n' :: t) key = if l.key = key then some (some l.number) else read_stat t key := by
  have hsearch : search (statAt key) (l.text ++ '\n' :: t) =
      (if l.key = key then some l.value else none).or (search (statAt key) t) := by
    have hcons : l.text = 's' :: l.text.tail := rfl
    rw [← statAt_harp ok hkey t, ← search_line ok.once key t]
    nth_rewrite 1 2 [hcons]
    rw [List.cons_append, search_cons]
  rw [read_stat, hsearch]
  by_cases h : l.key = key
  · rw [if_pos h, if_pos h, Option.some_or]
    dsimp only
    rw [ok.value, Option.map_some]
  · rw [if_neg h, if_neg h, Option.none_or, read_stat]

theorem read_stat_file (f : StatsFile) {key : List Char} (hkey : ∀ c ∈ key, isSpace c = false) :
    read_stat f.text key = some (f.values key).head? := by
  induction f with
  | nil =>
    have hprefix : ¬harpPrefix ++ key <+: [] := by
      rw [List.prefix_nil, List.append_eq_nil_iff]
      exact fun h => names_table.1 h.1
    have hnone : search (statAt key) [] = none := by
      rw [search, List.tails, List.findSome?_singleton, statAt, if_neg (mt List.isPrefixOf_iff_prefix.1 hprefix)]
    rw [StatsFile.text, List.map_nil, unlines, List.flatMap_nil, read_stat, hnone]
    rfl
  | cons l f ih =>
    have htext : StatsFile.text (l :: f) = l.text ++ '\n' :: StatsFile.text f := by
      simp [StatsFile.text, unlines]
    rw [htext, StatsFile.values_cons]
    cases l with
    | harp l ok =>
      rw [StatsLine.text, read_stat_harp ok hkey, ih, StatsLine.value?]
      by_cases h : l.key = key
      · rw [if_pos h, if_pos h]
        rfl
      · rw [if_neg h, if_neg h]
        rfl
    | other t line none =>
      rw [StatsLine.text, read_stat, search_line none, ← read_stat, ih]
      rfl

/-! ### When the two scores agree -/

def StatsFile.NoCoverage (f : StatsFile) : Prop := ∀ u, f.values (covKey u) = []

/-- The last value of every coverage is the first one, and without coverage the older statistics are 0. -/
structure StatsFile.Steady (f : StatsFile) : Prop where
  coverage : ∀ u, (f.values (covKey u)).head? = (f.values (covKey u)).getLast?
  legacy : f.NoCoverage → ∀ u, legacyCoverage (fun key => (f.values key.toList).head?.getD 0) u = 0

theorem legacyCoverage_congr {s t : String → ℚ} (h : ∀ key ∈ LEGACY, s key = t key) : legacyCoverage s = legacyCoverage t := by
  funext u
  cases u with
  | IFU => rfl
  | MMU => rfl
  | OoO => exact h _ (by decide)
  | LSU => exact h _ (by decide)
  | IEX => exact congrArg₂ max (h _ (by decide)) (h _ (by decide))
  | FSU => exact congrArg₂ max (h _ (by decide)) (h _ (by decide))
  | L2C => exact congrArg₂ max (h _ (by decide)) (h _ (by decide))

theorem read_coverage_file (f : StatsFile) :
    (f.NoCoverage → read_coverage f.text = some (legacyCoverage fun key => (f.values key.toList).head?.getD 0)) ∧
      (¬f.NoCoverage → read_coverage f.text = some fun u => (f.values (covKey u)).head?.getD 0) := by
  have hcov : ∀ u, read_stat f.text (covKey u) = some (f.values (covKey u)).head? := fun u =>
    read_stat_file f (covKey_chars u)
  have hlegacy : ∀ key ∈ LEGACY, read_stat f.text key.toList = some (f.values key.toList).head? := fun key hkey =>
    read_stat_file f (legacy_chars hkey)
  have hnone : ¬(UNITS.any fun u => (read_stat f.text (covKey u)).isNone) = true := by
    simp [hcov]
  have hall : (UNITS.all fun u => read_stat f.text (covKey u) = some none) = true ↔ f.NoCoverage := by
    simp only [hcov, List.all_eq_true, decide_eq_true_eq, Option.some_inj, List.head?_eq_none_iff]
    exact ⟨fun h u => h u (by cases u <;> decide), fun h u _ => h u⟩
  have hlegacyNone : ¬(LEGACY.any fun key => (read_stat f.text key.toList).isNone) = true := by
    rw [List.any_eq_true]
    rintro ⟨key, hkey, h⟩
    rw [hlegacy key hkey] at h
    cases h
  unfold read_coverage
  rw [if_neg hnone]
  constructor
  · intro h
    rw [if_pos (hall.2 h), if_neg hlegacyNone]
    refine congrArg some (legacyCoverage_congr fun key hkey => ?_)
    rw [hlegacy key hkey, Option.join_some]
  · intro h
    rw [if_neg (mt hall.1 h)]
    simp only [hcov, Option.join_some]

/-- The fitness is the score for all profiles just if both readers find the same coverage.  In a file of dumps, that is so
if the first and the last value of every unit agree, and the older statistics are 0 if there is no coverage. -/
theorem fitness_eq_score_iff (text : List Char) (f : StatsFile) :
    ((∀ prof, ed_score text prof = some (ed_of_stats (measure text) prof)) ↔
      read_coverage text = some (measuredCoverage text)) ∧
    ((∀ prof, ed_score f.text prof = some (ed_of_stats (measure f.text) prof)) ↔ f.Steady) := by
  refine ⟨scores_eq_iff text, ?_⟩
  have hmeasured : measuredCoverage f.text = fun u => (f.values (covKey u)).getLast?.getD 0 := by
    funext u
    rw [measuredCoverage, measure_file]
  rw [scores_eq_iff, hmeasured]
  by_cases hno : f.NoCoverage
  · rw [(read_coverage_file f).1 hno, Option.some_inj, funext_iff]
    constructor
    · intro h
      refine ⟨fun u => by rw [hno u]; rfl, fun _ u => ?_⟩
      rw [h u, hno u]
      rfl
    · intro h u
      rw [h.legacy hno u, hno u]
      rfl
  · rw [(read_coverage_file f).2 hno, Option.some_inj, funext_iff]
    constructor
    · intro h
      refine ⟨fun u => ?_, fun hyes => absurd hyes hno⟩
      cases hvalues : f.values (covKey u) with
      | nil => rfl
      | cons v vs =>
        have heq := h u
        rw [hvalues, List.getLast?_cons] at heq
        rw [List.getLast?_cons]
        exact congrArg some heq
    · intro h u
      rw [h.coverage u]

def twoDumps : List Char :=
  "system.CHAOSCov.harp.covUnits::OoO 0.5\nsystem.CHAOSCov.harp.covUnits::OoO 0.75\n".toList

/-- The fitness is 3/4 and the score is 1/2. -/
theorem fitness_ne_score :
    ed_of_stats (measure twoDumps) (onlyUnit .OoO 1) = 3 / 4 ∧ ed_score twoDumps (onlyUnit .OoO 1) = some (1 / 2) := by
  decide +kernel

end GemFI.Tools
