import GemFI.Lib.Text
import GemFI.Mem.CHAOSCache
import GemFI.Tools.Classify

/-!
# The log of the protection model

`applyProtectionModel` writes a line with the outcome of a fault to the log, in which the classifier looks for its
markers.  The line of a corrected or contained fault has a marker of its class.  The markers of a latent one are
`Latent:` with a colon and two phrases; the line says `Latent` and goes on with a blank.  So a fault that was counted
as latent is read as one without protection (`parsed_outcome_iff`).
-/

namespace GemFI.Mem

open Text Tools

def protectionModelToString : ProtectionModel → String
  | .None => "none"
  | .SED => "sed"
  | .SECDED => "secded"
  | .SECDEDPoison => "secded_poison"
  | .ParityInterleaved => "parity_interleaved"

namespace CHAOSCache

def outcomeText : Outcome → String
  | .RawEscaped => ""
  | .EccCorrected => "EccCorrected"
  | .DetectedContained => "Poisoned: DetectedContained"
  | .Latent => "Latent"

/-- The line that `applyProtectionModel` writes. -/
def protectionLine (protection_model : ProtectionModel) (mask : BitVec 8) : String :=
  if protection_model = .None then
    "  ProtectionModel=none: raw escape (mask=" ++ bitset mask ++ ")\n"
  else
    "  ProtectionModel=" ++ protectionModelToString protection_model ++ " bits=" ++ toString (popcount mask) ++ " -> " ++
      outcomeText (outcome protection_model mask) ++ " (mask=" ++ bitset mask ++ ")\n"

def Outcome.category : Outcome → Option Category
  | .RawEscaped => none
  | .EccCorrected => some .Corrected
  | .DetectedContained => some .DetectedContained
  | .Latent => some .Latent

/-! ### Reading the line -/

def markers : List (List Char) := (PA_MARKERS.flatMap (·.2)).map String.toList

def correctedMarkers : List (List Char) := ["EccCorrected", "Corrected:", "ECC-corrected"].map String.toList

def rawPieces : List Piece := [.lit "  ProtectionModel=none: raw escape (mask=", .number, .lit ")\n"]

def outcomePieces (protection_model : ProtectionModel) (o : Outcome) : List Piece :=
  [.lit "  ProtectionModel=", .lit (protectionModelToString protection_model), .lit " bits=", .number, .lit " -> ",
    .lit (outcomeText o), .lit " (mask=", .number, .lit ")\n"]

theorem pieces_table : (∀ mk ∈ markers, mayOccur rawPieces mk = false) ∧
    ∀ m ∈ [ProtectionModel.None, .SED, .SECDED, .SECDEDPoison, .ParityInterleaved],
      (∀ mk ∈ correctedMarkers, mayOccur (outcomePieces m .DetectedContained) mk = false) ∧
      ∀ mk ∈ markers, mayOccur (outcomePieces m .Latent) mk = false := by
  decide +kernel

theorem raw_avoids (mask : BitVec 8) : Avoids markers (protectionLine .None mask).toList := by
  have hfits : Fits markers rawPieces (protectionLine .None mask).toList := by
    apply Fits.of_append_nil
    rw [protectionLine, if_pos rfl]
    simp only [String.toList_append, List.append_assoc]
    exact .lit _ (.bitset _ (.lit _ .nil))
  exact hfits.avoids (List.Subset.refl _) pieces_table.1

theorem protectionLine_fits {protection_model : ProtectionModel} (h : protection_model ≠ .None) (mask : BitVec 8)
    (mks : List (List Char)) :
    Fits mks (outcomePieces protection_model (outcome protection_model mask)) (protectionLine protection_model mask).toList := by
  apply Fits.of_append_nil
  rw [protectionLine, if_neg h]
  simp only [String.toList_append, List.append_assoc]
  exact .lit _ (.lit _ (.lit _ (.nat _ (.lit _ (.lit _ (.lit _ (.bitset _ (.lit _ .nil))))))))

/-! ### The class that is read -/

theorem parse_of_avoids {text : String} (h : Avoids markers text.toList) : parse_pa_outcome text = none := by
  have hfind : (PA_MARKERS.find? fun e => e.2.any fun m => occursIn m text) = none := by
    rw [List.find?_eq_none]
    intro e he hany
    obtain ⟨m, hm, hocc⟩ := List.any_eq_true.1 hany
    have hmem : m.toList ∈ markers := List.mem_map_of_mem (List.mem_flatMap.2 ⟨e, he, hm⟩)
    exact h _ hmem (of_decide_eq_true hocc)
  rw [parse_pa_outcome, hfind]
  exact ite_self _

theorem parse_of_corrected {text : String} (h : "EccCorrected".toList <:+: text.toList) :
    parse_pa_outcome text = some .Corrected := by
  have hne : text ≠ "" := by
    rintro rfl
    exact absurd h (by simp)
  have hocc : occursIn "EccCorrected" text = true := decide_eq_true h
  rw [parse_pa_outcome, if_neg hne, PA_MARKERS, List.find?_cons_of_pos (by simp [hocc])]
  rfl

theorem parse_of_contained {text : String} (h : "Poisoned:".toList <:+: text.toList)
    (hnot : Avoids correctedMarkers text.toList) : parse_pa_outcome text = some .DetectedContained := by
  have hne : text ≠ "" := by
    rintro rfl
    exact absurd h (by simp)
  have hocc : occursIn "Poisoned:" text = true := decide_eq_true h
  have hcorrected : ¬(["EccCorrected", "Corrected:", "ECC-corrected"].any fun m => occursIn m text) = true := by
    intro hany
    obtain ⟨m, hm, hocc⟩ := List.any_eq_true.1 hany
    exact hnot _ (List.mem_map_of_mem hm) (of_decide_eq_true hocc)
  rw [parse_pa_outcome, if_neg hne, PA_MARKERS,
    List.find?_cons_of_neg (p := fun e : Category × List String => e.2.any fun m => occursIn m text) hcorrected,
    List.find?_cons_of_pos (by simp [hocc])]
  rfl

theorem parse_protectionLine (protection_model : ProtectionModel) (mask : BitVec 8) :
    parse_pa_outcome (protectionLine protection_model mask) =
      if outcome protection_model mask = .Latent then none else (outcome protection_model mask).category := by
  have hmodel := fun m => pieces_table.2 m (by cases m <;> decide)
  by_cases hnone : protection_model = .None
  · subst hnone
    rw [parse_of_avoids (raw_avoids mask)]
    simp [outcome, Outcome.category]
  · cases ho : outcome protection_model mask with
    | RawEscaped =>
      rw [outcome, if_neg hnone] at ho
      dsimp only at ho
      split at ho <;> [cases ho; split at ho <;> [split at ho <;> cases ho; cases ho]]
    | EccCorrected =>
      have hfits := protectionLine_fits hnone mask []
      rw [ho] at hfits
      rw [parse_of_corrected (hfits.infix_of_mem (s := "EccCorrected") (by simp [outcomePieces, outcomeText]))]
      rfl
    | DetectedContained =>
      have hfits := protectionLine_fits hnone mask correctedMarkers
      rw [ho] at hfits
      have hpart := hfits.infix_of_mem (s := "Poisoned: DetectedContained") (by simp [outcomePieces, outcomeText])
      have hmark : "Poisoned:".toList <:+: "Poisoned: DetectedContained".toList := ⟨[], " DetectedContained".toList, by simp⟩
      rw [parse_of_contained (hmark.trans hpart) (hfits.avoids (List.Subset.refl _) (hmodel _).1)]
      rfl
    | Latent =>
      have hfits := protectionLine_fits hnone mask markers
      rw [ho] at hfits
      rw [parse_of_avoids (hfits.avoids (List.Subset.refl _) (hmodel _).2), if_pos rfl]

theorem outcome_ne_latent_iff (protection_model : ProtectionModel) (mask : BitVec 8) :
    outcome protection_model mask ≠ .Latent ↔ protection_model = .None ∨ popcount mask = 1 ∨
      popcount mask = 2 ∧ protection_model ≠ .SED ∧ protection_model ≠ .ParityInterleaved := by
  by_cases hnone : protection_model = .None
  · simp [outcome, hnone]
  by_cases hone : popcount mask = 1
  · simp [outcome, hnone, hone]
  by_cases htwo : popcount mask = 2
  · cases protection_model <;> simp_all [outcome]
  · simp [outcome, hnone, hone, htwo]

/-- The outcome that was counted is read back from the log exactly if the fault was not latent: there is no protection, or
one bit is hit, or two are hit and the code detects them. -/
theorem parsed_outcome_iff (protection_model : ProtectionModel) (mask : BitVec 8) :
    parse_pa_outcome (protectionLine protection_model mask) = (outcome protection_model mask).category ↔
      protection_model = .None ∨ popcount mask = 1 ∨
        popcount mask = 2 ∧ protection_model ≠ .SED ∧ protection_model ≠ .ParityInterleaved := by
  rw [parse_protectionLine, ← outcome_ne_latent_iff]
  cases outcome protection_model mask <;> simp [Outcome.category]

/-- A fault of three bits is counted as latent, and nothing is read back. -/
theorem latent_not_parsed :
    outcome .SECDED 7#8 = .Latent ∧ (outcome .SECDED 7#8).category = some .Latent ∧
      parse_pa_outcome (protectionLine .SECDED 7#8) = none := by
  have hlatent : outcome .SECDED 7#8 = .Latent := by decide
  refine ⟨hlatent, by rw [hlatent]; rfl, ?_⟩
  rw [parse_protectionLine, if_pos hlatent]

end CHAOSCache

end GemFI.Mem
