import GemFI.Lib.Text

/-!
# The decoder of the exception syndrome

`decode` splits a value of `ESR_ELx` into its exception class, which has a name and a number of stars, and the fields of the
aborts and of `SError`.
-/

namespace GemFI.Diag

open Text

def EC_TABLE : List (Nat × String × Nat) :=
  [(0x00, "Undefined Instruction (current EL)", 4),
   (0x01, "WFI/WFE trapped", 0),
   (0x03, "PAC instruction (EL0/EL1, FA/PAC)", 0),
   (0x0E, "Illegal Execution State", 2),
   (0x15, "SVC (AArch32)", 0),
   (0x17, "SVC (AArch64)", 0),
   (0x18, "HVC", 0),
   (0x19, "SMC", 0),
   (0x20, "Instruction Abort from lower EL", 3),
   (0x21, "Instruction Abort from current EL", 3),
   (0x22, "PC-alignment fault", 1),
   (0x24, "Data Abort from lower EL", 4),
   (0x25, "Data Abort from current EL", 4),
   (0x26, "SP-alignment fault", 4),
   (0x28, "FP/Advanced SIMD trapped", 1),
   (0x2C, "System register trapped (MRS/MSR)", 1),
   (0x2D, "SVE trapped", 1),
   (0x2F, "SError interrupt", 5),
   (0x30, "Breakpoint (lower EL)", 3),
   (0x31, "Breakpoint (current EL)", 3),
   (0x32, "Software Step (lower EL)", 3),
   (0x33, "Software Step (current EL)", 3),
   (0x34, "Watchpoint (lower EL)", 2),
   (0x35, "Watchpoint (current EL)", 2),
   (0x3C, "BRK (AArch64)", 3),
   (0x3E, "Pointer Authentication failure", 2)]

/-- The text of a fault status.  The last entry has the key of an earlier one, `0x17`, and replaces it. -/
def FSC_TABLE : List (Nat × String) :=
  [(0x00, "Address size fault, level 0"),
   (0x01, "Address size fault, level 1"),
   (0x02, "Address size fault, level 2"),
   (0x03, "Address size fault, level 3"),
   (0x04, "Translation fault, level 0"),
   (0x05, "Translation fault, level 1"),
   (0x06, "Translation fault, level 2"),
   (0x07, "Translation fault, level 3"),
   (0x09, "Access flag fault, level 1"),
   (0x0A, "Access flag fault, level 2"),
   (0x0B, "Access flag fault, level 3"),
   (0x0D, "Permission fault, level 1"),
   (0x0E, "Permission fault, level 2"),
   (0x0F, "Permission fault, level 3"),
   (0x10, "Synchronous external abort (SEA)"),
   (0x11, "Tag check fault"),
   (0x13, "Synchronous external abort on page-table walk, level -1"),
   (0x14, "Synchronous external abort on page-table walk, level 0"),
   (0x15, "Synchronous external abort on page-table walk, level 1"),
   (0x16, "Synchronous external abort on page-table walk, level 2"),
   (0x17, "Synchronous external abort on page-table walk, level 3"),
   (0x18, "Synchronous parity/ECC error on memory access"),
   (0x19, "Synchronous parity/ECC error on page-table walk, level -1"),
   (0x1A, "Synchronous parity/ECC error on page-table walk, level 0"),
   (0x1B, "Synchronous parity/ECC error on page-table walk, level 1"),
   (0x1C, "Synchronous parity/ECC error on page-table walk, level 2"),
   (0x1D, "Synchronous parity/ECC error on page-table walk, level 3"),
   (0x21, "Alignment fault"),
   (0x22, "Background flag fault"),
   (23, "Unsupported atomic update")]

def hexPad (width n : Nat) : String := "0x" ++ String.ofList (List.replicate (width - (hex n).length) '0') ++ hex n

def fsc_text (fsc : Nat) : String := (FSC_TABLE.reverse.lookup fsc).getD ("unknown FSC " ++ hexPad 2 fsc)

inductive Iss where
  | dataAbort (wnr isv sas srt fsc : Nat) (fsc_text : String)
  | instructionAbort (fsc : Nat) (fsc_text : String)
  | serror (aet : Nat)
  | other
  deriving DecidableEq

structure Decoded where
  ec : Nat
  ec_name : String
  il : Nat
  sdc_relevance : String
  sdc_weight_stars : Nat
  iss : Iss
  deriving DecidableEq

def decode (esr : Nat) : Decoded :=
  let ec := (esr >>> 26) &&& 0x3F
  let iss := esr &&& 0x1FFFFFF
  let fsc := iss &&& 0x3F
  let (ec_name, weight) := (EC_TABLE.lookup ec).getD ("Unknown EC " ++ hexPad 2 ec, 0)
  { ec
    ec_name
    il := (esr >>> 25) &&& 1
    sdc_relevance := if weight = 0 then "-" else String.ofList (List.replicate weight '★')
    sdc_weight_stars := weight
    iss :=
      if ec = 0x24 ∨ ec = 0x25 then
        .dataAbort ((iss >>> 6) &&& 1) ((iss >>> 24) &&& 1) ((iss >>> 22) &&& 3) ((iss >>> 16) &&& 0x1F) fsc (fsc_text fsc)
      else if ec = 0x20 ∨ ec = 0x21 then .instructionAbort fsc (fsc_text fsc)
      else if ec = 0x2F then .serror ((iss >>> 10) &&& 7)
      else .other }

example : (decode 0x96000044).iss = .dataAbort 1 0 0 0 4 "Translation fault, level 0" := by decide +kernel

end GemFI.Diag
