import GemFI.Lib.Text
import Mathlib.Data.List.Dedup
import Mathlib.Data.Nat.Bitwise

/-!
# The command line of the runner

The runner makes a command line of gem5 from a manifest: first the arguments that all components have in common, then
those of the component.  The branch of the caches runs another script and makes the list anew; the mask, the arguments
of the workload and the overrides of the platform do not come into it.  A manifest is carried over faithfully just if
the runner knows its component, no bit is given twice, and a manifest for a cache has none of what its branch drops
(`command_faithful_iff`).

The values of a manifest have the types of the schema; the fields that the runner does not read and the golden value,
which does not enter the command, are left out.
-/

namespace GemFI.Tools

open Text

inductive CacheTarget where
  | l1d | l2 | l1i
  deriving DecidableEq, Repr

inductive Component where
  | gpr | physreg | memory | rat | freelist | exec | fpu | rob | lsq_fwd
  | cache (target : CacheTarget)
  | sysreg | ptw | l1_tlb | l2_tlb
  deriving DecidableEq, Repr

def CacheTarget.ofName : String → Option CacheTarget
  | "l1d" => some .l1d
  | "l2" => some .l2
  | "l1i" => some .l1i
  | _ => none

def Component.ofName : String → Option Component
  | "gpr" => some .gpr
  | "physreg" => some .physreg
  | "memory" => some .memory
  | "rat" => some .rat
  | "freelist" => some .freelist
  | "exec" => some .exec
  | "fpu" => some .fpu
  | "rob" => some .rob
  | "lsq_fwd" => some .lsq_fwd
  | "sysreg" => some .sysreg
  | "ptw" => some .ptw
  | "l1_tlb" => some .l1_tlb
  | "l2_tlb" => some .l2_tlb
  | name => (CacheTarget.ofName name).map .cache

structure Window where
  rob_entries : Option Int := none
  phys_int_regs : Option Int := none
  lq_entries : Option Int := none
  sq_entries : Option Int := none

structure Manifest where
  config_family : Option String := none
  window : Window := {}
  binary_sha256 : Option String := none
  trigger_mode : Option String := none
  trigger_value : Int
  component : String
  layer : Option String := none
  index : Option Int := none
  width_bits : Option Int := none
  semantic_role : Option String := none
  sub_field : Option String := none
  model : String
  bit_indices : Option (List Int) := none
  trigger_value_mask : Option Int := none
  trigger_value_pattern : Option Int := none
  f5_substitute_target : Option Int := none
  bit_segment : Option String := none
  rob_mode : Option String := none
  f6_phase_offset : Option Int := none
  protection_model : Option String := none
  target_field : Option String := none
  selection_seed : Int
  max_faults : Int

structure RunnerEnv where
  G5 : String
  REPO : String
  HAVE_SCHEMA : Bool
  /-- What the validator says about a manifest that it rejects. -/
  schema_message : String
  dir : String
  binary : String
  sha256_binary : String
  probability : String
  cache_block_addr : Int
  CHAOS_WORKLOAD_ARGS : String
  /-- The number in the variable, 0 if it is not set; none if it is not a number. -/
  CHAOS_CACHE_BLOCK_ADDR : Option Int

/-! ### The command -/

inductive Arg where
  | flag (name : String)
  | opt (name value : String)
  | eq (name value : String)
  deriving DecidableEq, Repr

def Arg.tokens : Arg → List String
  | .flag name => [name]
  | .opt name value => [name, value]
  | .eq name value => [name ++ "=" ++ value]

inductive Script where
  | arm_chaos | arm_chaos_cache
  deriving DecidableEq, Repr

def Script.path (env : RunnerEnv) : Script → String
  | .arm_chaos => env.REPO ++ "/configs/se/arm_chaos.py"
  | .arm_chaos_cache => env.REPO ++ "/configs/se/arm_chaos_cache.py"

structure Command where
  script : Script
  args : List Arg
  deriving DecidableEq, Repr

def Command.tokens (env : RunnerEnv) (c : Command) : List String :=
  [env.G5, "--quiet", "-d", env.dir, c.script.path env] ++ c.args.flatMap Arg.tokens

/-! ### From the manifest to the command -/

def truthy (t : Option String) : Option String := t.filter (· ≠ "")

def schemaAccepts (m : Manifest) : Bool :=
  m.config_family.any (· ∈ ["C0", "C1", "C2"]) && m.binary_sha256.isSome &&
    m.trigger_mode.any (· ∈ ["tick", "cycle", "pc", "committedInst", "event"]) && decide (0 ≤ m.trigger_value) &&
    m.layer.any (· ∈ ["architectural", "physical"]) &&
    decide (m.component ∈ ["gpr", "l1i", "l1d", "l2", "memory", "physreg", "rat"]) &&
    decide (m.model ∈ ["transient_bit_flip", "local_mbu", "intermittent_burst", "stuck_at_zero", "stuck_at_one",
      "legal_domain_sub", "delay_omission"]) &&
    decide (0 ≤ m.max_faults ∧ m.max_faults ≤ 1)

def model_map : List (String × String) :=
  [("transient_bit_flip", "bit_flip"), ("stuck_at_zero", "stuck_at_zero"), ("stuck_at_one", "stuck_at_one"),
    ("local_mbu", "bit_flip"), ("intermittent_burst", "bit_flip"), ("legal_domain_sub", "bit_flip"),
    ("delay_omission", "bit_flip")]

def Manifest.bits (m : Manifest) : List Int := m.bit_indices.getD []

def maskLoop (width : Int) : Nat → List Int → Except String Nat
  | mask, [] => .ok mask
  | mask, b :: bs =>
    if b < 0 ∨ width ≤ b then
      .error ("[runner] bit " ++ toString b ++ " outside width " ++ toString width ++ ". Aborting.")
    else maskLoop width (mask ||| 1 <<< b.toNat) bs

/-- The mask and the number of bits; without bits the mask is a random one of one bit. -/
def faultMask (m : Manifest) : Except String (Nat × Nat) :=
  if m.bits = [] then .ok (0, 1) else (maskLoop (m.width_bits.getD 64) 0 m.bits).map fun mask => (mask, m.bits.length)

def wl_args (env : RunnerEnv) : String := String.ofList (strip env.CHAOS_WORKLOAD_ARGS.toList)

def Window.overrides (w : Window) : List (String × Int) :=
  (w.rob_entries.map ("--rob_entries", ·)).toList ++ (w.phys_int_regs.map ("--phys_int_regs", ·)).toList ++
    (w.lq_entries.map ("--lq_entries", ·)).toList ++ (w.sq_entries.map ("--sq_entries", ·)).toList

/-- The arguments that the components of `arm_chaos.py` have in common. -/
def commonArgs (env : RunnerEnv) (m : Manifest) (fault_type : String) (fault_mask bits_to_change : Nat) : List Arg :=
  [.opt "--cmd" env.binary, .opt "--cpu" "O3", .opt "--first_clock" (toString m.trigger_value),
      .opt "--max_faults" (toString m.max_faults), .opt "--rng_seed" (toString m.selection_seed),
      .opt "--fault_type" fault_type, .opt "--fault_mask" (toString fault_mask),
      .opt "--bits_to_change" (toString bits_to_change)] ++
    (if wl_args env ≠ "" then [.opt "--workload_args" (wl_args env)] else []) ++
    (if m.config_family = some "C2-KP" then [.flag "--kp920_proxy"] else []) ++
    m.window.overrides.map fun o => .opt o.1 (toString o.2)

def indexArgs (name : String) (idx : Option Int) : List Arg := (idx.map fun i => .eq name (toString i)).toList

def roleArgs (name : String) (m : Manifest) : List Arg := ((truthy m.semantic_role).map (.eq name)).toList

def componentArgs (env : RunnerEnv) (m : Manifest) : Component → List Arg
  | .gpr => .flag "--chaos_reg" :: indexArgs "--target_reg_idx" m.index
  | .physreg =>
    .flag "--chaos_phys" ::
      (if m.layer.getD "architectural" = "physical" then
        .opt "--phys_mode" "phys" :: indexArgs "--phys_target_idx" m.index
      else .opt "--phys_mode" "arch_frontend" :: indexArgs "--phys_target_arch" m.index) ++
      match m.trigger_value_mask.filter (· ≠ 0) with
      | some tvm =>
        [.eq "--phys_trigger_mask" (toString tvm),
          .eq "--phys_trigger_pattern" (toString (m.trigger_value_pattern.getD 0))]
      | none => []
  | .memory => [.flag "--chaos_mem"]
  | .rat =>
    .flag "--chaos_rat" ::
      -- -1 stands for a random register and does not override the index
      (match m.f5_substitute_target.filter (· ≠ -1) with
        | some f5t => [.eq "--rat_target_arch" (toString f5t), .eq "--rat_mode" "f5_substitute"]
        | none => indexArgs "--rat_target_arch" m.index) ++
      roleArgs "--rat_semantic_role" m ++
      if m.semantic_role = some "fp_accum" then [.opt "--rat_reg_class" "vector"] else []
  | .freelist => .flag "--chaos_freelist" :: indexArgs "--freelist_target_phys" m.index
  | .exec =>
    .flag "--chaos_exec" :: .eq "--exec_bit_segment" (m.bit_segment.getD "all") :: roleArgs "--exec_semantic_role" m
  | .fpu =>
    .flag "--chaos_fpu" :: .eq "--probability" env.probability ::
      .eq "--fpu_bit_segment" (m.bit_segment.getD "all") :: roleArgs "--fpu_semantic_role" m
  | .rob =>
    .flag "--chaos_rob" :: .eq "--rob_mode" (m.rob_mode.getD "entry_bitflip") :: roleArgs "--rob_semantic_role" m
  | .lsq_fwd =>
    .flag "--chaos_lsqfwd" ::
      match m.f6_phase_offset with
      | some offset => [.eq "--lsq_source_fault" "phase_offset", .eq "--lsq_phase_offset" (toString offset)]
      | none => []
  | .cache _ | .sysreg | .ptw | .l1_tlb | .l2_tlb => []

def cacheArgs (env : RunnerEnv) (m : Manifest) (fault_type : String) (bits_to_change : Nat) (block_addr : Int) :
    List Arg :=
  [.opt "--cmd" env.binary, .opt "--cpu" "O3", .opt "--target" m.component,
      .opt "--target_block_addr" (toString block_addr), .opt "--target_byte_offset" (toString (m.index.getD (-1))),
      .opt "--first_clock" (toString m.trigger_value), .opt "--max_faults" (toString m.max_faults),
      .opt "--rng_seed" (toString m.selection_seed), .opt "--fault_type" fault_type,
      .opt "--bits_to_change" (toString bits_to_change),
      .opt "--protection_model" (m.protection_model.getD "none")] ++
    (((truthy m.sub_field).or (truthy m.target_field)).map (.opt "--target_field")).toList

def dispatch (env : RunnerEnv) (m : Manifest) (fault_type : String) (fault_mask bits_to_change : Nat) :
    Except String Command :=
  let common := commonArgs env m fault_type fault_mask bits_to_change
  match Component.ofName m.component with
  | some (.cache _) =>
    match if env.cache_block_addr ≠ 0 then some env.cache_block_addr else env.CHAOS_CACHE_BLOCK_ADDR with
    | some block_addr => .ok ⟨.arm_chaos_cache, cacheArgs env m fault_type bits_to_change block_addr⟩
    | none => .error "invalid literal for int() with base 0"
  | some .sysreg | some .ptw | some .l1_tlb | some .l2_tlb =>
    .error ("[runner] component '" ++ m.component ++ "' requires FS mode (arm_chaos_fs.py); " ++
      "the SE runner cannot drive it. Use the FS campaign path.")
  | some comp => .ok ⟨.arm_chaos, common ++ componentArgs env m comp⟩
  -- a component that is not known is left to the script
  | none => .ok ⟨.arm_chaos, common⟩

/-- The command that the runner makes of a manifest, or the text with which it ends. -/
def command (env : RunnerEnv) (m : Manifest) : Except String Command :=
  if env.HAVE_SCHEMA && !schemaAccepts m then
    .error ("manifest schema validation FAILED: " ++ env.schema_message)
  else if (truthy m.binary_sha256).any (· ≠ env.sha256_binary) then
    .error ("[runner] binary sha256 MISMATCH: " ++ env.sha256_binary ++ " != " ++ m.binary_sha256.getD "")
  else if ¬(m.max_faults = 0 ∨ m.max_faults = 1) then .error "formal runs require max_faults in \x7b0,1\x7d"
  else if m.trigger_mode.getD "cycle" ∉ ["cycle", "tick"] then
    .error ("[runner] trigger.mode='" ++ m.trigger_mode.getD "cycle" ++ "' not supported yet " ++
      "(needs G6 pc/committedInst/event hooks). Use 'cycle' " ++ "with value = first_clock. Aborting — not silently " ++
      "mis-triggering.")
  else
    match model_map.lookup m.model with
    | none => .error ("[runner] fault.model='" ++ m.model ++ "' not mapped yet. Aborting.")
    | some fault_type =>
      match faultMask m with
      | .error e => .error e
      | .ok mask => dispatch env m fault_type mask.1 mask.2

/-! ### What the command says -/

inductive Injector where
  | CHAOSReg | CHAOSPhysReg | CHAOSMem | CHAOSExMon | CHAOSLSQFwd | CHAOSAddrPath | CHAOSRenameMap | CHAOSFreeList
  | CHAOSROB | CHAOSRAS | CHAOSIQ | CHAOSExec | CHAOSFPU | CHAOSL1DForward | CHAOSBPU
  | CHAOSCache (target : CacheTarget)
  deriving DecidableEq, Repr

def Injector.ofFlag : String → Option Injector
  | "--chaos_reg" => some .CHAOSReg
  | "--chaos_phys" => some .CHAOSPhysReg
  | "--chaos_mem" => some .CHAOSMem
  | "--chaos_exmon" => some .CHAOSExMon
  | "--chaos_lsqfwd" => some .CHAOSLSQFwd
  | "--chaos_addrpath" => some .CHAOSAddrPath
  | "--chaos_rat" => some .CHAOSRenameMap
  | "--chaos_freelist" => some .CHAOSFreeList
  | "--chaos_rob" => some .CHAOSROB
  | "--chaos_ras" => some .CHAOSRAS
  | "--chaos_iq" => some .CHAOSIQ
  | "--chaos_exec" => some .CHAOSExec
  | "--chaos_fpu" => some .CHAOSFPU
  | "--chaos_l1dfwd" => some .CHAOSL1DForward
  | "--chaos_bpu" => some .CHAOSBPU
  | _ => none

def Arg.flag? : Arg → Option String
  | .flag name => some name
  | _ => none

def Arg.value? (name : String) : Arg → Option String
  | .flag _ => none
  | .opt n value | .eq n value => if n = name then some value else none

namespace Command

def flags (c : Command) : List String := c.args.filterMap Arg.flag?

def values (c : Command) (name : String) : List String := c.args.filterMap (Arg.value? name)

/-- The injectors that are enabled: `arm_chaos.py` has a flag for each, `arm_chaos_cache.py` attaches the one of the
target. -/
def injectors (c : Command) : List Injector :=
  match c.script with
  | .arm_chaos => c.flags.filterMap Injector.ofFlag
  | .arm_chaos_cache => (c.values "--target").filterMap fun t => (CacheTarget.ofName t).map .CHAOSCache

end Command

/-- The injector of a component; the last four have theirs in the full system only. -/
def Component.injector : Component → Option Injector
  | .gpr => some .CHAOSReg
  | .physreg => some .CHAOSPhysReg
  | .memory => some .CHAOSMem
  | .rat => some .CHAOSRenameMap
  | .freelist => some .CHAOSFreeList
  | .exec => some .CHAOSExec
  | .fpu => some .CHAOSFPU
  | .rob => some .CHAOSROB
  | .lsq_fwd => some .CHAOSLSQFwd
  | .cache target => some (.CHAOSCache target)
  | .sysreg | .ptw | .l1_tlb | .l2_tlb => none

structure Faithful (env : RunnerEnv) (m : Manifest) (c : Command) : Prop where
  injector : ∃ i, (Component.ofName m.component).bind Component.injector = some i ∧ c.injectors = [i]
  mask : m.bits ≠ [] → ∃ mask : Nat, c.values "--fault_mask" = [toString mask] ∧
    ∀ i : Nat, mask.testBit i = true ↔ (i : Int) ∈ m.bits
  bits_to_change : m.bits ≠ [] → c.values "--bits_to_change" = [toString m.bits.dedup.length]
  workload_args : wl_args env ≠ "" → c.values "--workload_args" = [wl_args env]
  window : ∀ o ∈ m.window.overrides, c.values o.1 = [toString o.2]
  kp920_proxy : m.config_family = some "C2-KP" → "--kp920_proxy" ∈ c.flags

/-! ### The manifests that are accepted -/

theorem maskLoop_ok {width : Int} {bits : List Int} {mask mask' : Nat} (h : maskLoop width mask bits = .ok mask') (i : Nat) :
    mask'.testBit i = true ↔ mask.testBit i = true ∨ (i : Int) ∈ bits := by
  induction bits generalizing mask with
  | nil =>
    cases h
    simp
  | cons b bs ih =>
    rw [maskLoop] at h
    split at h
    · cases h
    · rename_i hrange
      have hbit : (1 <<< b.toNat).testBit i = true ↔ (i : Int) = b := by
        rw [Nat.one_shiftLeft, Nat.testBit_two_pow, decide_eq_true_eq]
        omega
      rw [ih h, Nat.testBit_or, Bool.or_eq_true, hbit, List.mem_cons, or_assoc]

theorem faultMask_ok {m : Manifest} {mask : Nat × Nat} (h : faultMask m = .ok mask) (hbits : m.bits ≠ []) :
    mask.2 = m.bits.length ∧ ∀ i : Nat, mask.1.testBit i = true ↔ (i : Int) ∈ m.bits := by
  rw [faultMask, if_neg hbits] at h
  cases hloop : maskLoop (m.width_bits.getD 64) 0 m.bits with
  | error e =>
    rw [hloop] at h
    cases h
  | ok mask' =>
    rw [hloop] at h
    cases h
    refine ⟨rfl, fun i => ?_⟩
    rw [maskLoop_ok hloop i]
    simp

theorem command_ok {env : RunnerEnv} {m : Manifest} {c : Command} (h : command env m = .ok c) :
    ∃ fault_type mask, faultMask m = .ok mask ∧ dispatch env m fault_type mask.1 mask.2 = .ok c := by
  unfold command at h
  -- the four checks before the model is looked up
  iterate 4
    split at h
    · cases h
  split at h
  · cases h
  · split at h
    · cases h
    · rename_i fault_type _ _ mask hmask
      exact ⟨fault_type, mask, hmask, h⟩

theorem ofName_cache {name : String} {target : CacheTarget} (h : Component.ofName name = some (.cache target)) :
    CacheTarget.ofName name = some target := by
  unfold Component.ofName at h
  split at h
  case h_14 =>
    obtain ⟨target', hname, htarget⟩ := Option.map_eq_some_iff.1 h
    cases htarget
    exact hname
  all_goals cases h

theorem dispatch_ok {env : RunnerEnv} {m : Manifest} {fault_type : String} {mask bits_to_change : Nat} {c : Command}
    (h : dispatch env m fault_type mask bits_to_change = .ok c) :
    (∃ target block_addr, Component.ofName m.component = some (.cache target) ∧
      c = ⟨.arm_chaos_cache, cacheArgs env m fault_type bits_to_change block_addr⟩) ∨
    (∃ comp i, Component.ofName m.component = some comp ∧ (∀ target, comp ≠ .cache target) ∧ comp.injector = some i ∧
      c = ⟨.arm_chaos, commonArgs env m fault_type mask bits_to_change ++ componentArgs env m comp⟩) ∨
    (Component.ofName m.component = none ∧ c = ⟨.arm_chaos, commonArgs env m fault_type mask bits_to_change⟩) := by
  unfold dispatch at h
  dsimp only at h
  cases hname : Component.ofName m.component with
  | none =>
    rw [hname] at h
    cases h
    exact .inr (.inr ⟨rfl, rfl⟩)
  | some comp =>
    rw [hname] at h
    cases comp with
    | cache target =>
      dsimp only at h
      split at h
      · cases h
        exact .inl ⟨target, _, rfl, rfl⟩
      · cases h
    | sysreg | ptw | l1_tlb | l2_tlb => cases h
    | gpr | physreg | memory | rat | freelist | exec | fpu | rob | lsq_fwd =>
      cases h
      exact .inr (.inl ⟨_, _, rfl, by simp, rfl, rfl⟩)

/-! ### The values of the options -/

def Arg.name : Arg → String
  | .flag name | .opt name _ | .eq name _ => name

theorem Arg.value?_eq_none {a : Arg} {name : String} (h : a.name ≠ name) : a.value? name = none := by
  cases a with
  | flag n => rfl
  | opt n value => exact if_neg h
  | eq n value => exact if_neg h

def carriedNames : List String :=
  ["--fault_mask", "--bits_to_change", "--workload_args", "--rob_entries", "--phys_int_regs", "--lq_entries",
    "--sq_entries"]

def Component.flag : Component → Option String
  | .gpr => some "--chaos_reg"
  | .physreg => some "--chaos_phys"
  | .memory => some "--chaos_mem"
  | .rat => some "--chaos_rat"
  | .freelist => some "--chaos_freelist"
  | .exec => some "--chaos_exec"
  | .fpu => some "--chaos_fpu"
  | .rob => some "--chaos_rob"
  | .lsq_fwd => some "--chaos_lsqfwd"
  | .cache _ | .sysreg | .ptw | .l1_tlb | .l2_tlb => none

def Arg.Own (a : Arg) : Prop := a.flag? = none ∧ a.name ∉ carriedNames

theorem componentArgs_eq (env : RunnerEnv) (m : Manifest) (comp : Component) :
    ∃ rest, componentArgs env m comp = comp.flag.toList.map .flag ++ rest ∧ ∀ a ∈ rest, a.Own := by
  have hnil : ∀ a ∈ ([] : List Arg), a.Own := by simp
  have heq : ∀ {name value : String} {l : List Arg}, name ∉ carriedNames → (∀ a ∈ l, a.Own) →
      ∀ a ∈ Arg.eq name value :: l, a.Own := fun hname hl => List.forall_mem_cons.2 ⟨⟨rfl, hname⟩, hl⟩
  have hopt : ∀ {name value : String} {l : List Arg}, name ∉ carriedNames → (∀ a ∈ l, a.Own) →
      ∀ a ∈ Arg.opt name value :: l, a.Own := fun hname hl => List.forall_mem_cons.2 ⟨⟨rfl, hname⟩, hl⟩
  have hindex : ∀ {name : String}, name ∉ carriedNames → ∀ a ∈ indexArgs name m.index, a.Own := by
    intro name hname
    unfold indexArgs
    cases m.index with
    | none => exact hnil
    | some i => exact heq hname hnil
  have hrole : ∀ {name : String}, name ∉ carriedNames → ∀ a ∈ roleArgs name m, a.Own := by
    intro name hname
    unfold roleArgs
    cases truthy m.semantic_role with
    | none => exact hnil
    | some role => exact heq hname hnil
  cases comp with
  | gpr => exact ⟨_, rfl, hindex (by decide)⟩
  | physreg =>
    refine ⟨_, rfl, List.forall_mem_append.2 ⟨?_, ?_⟩⟩
    · split <;> exact hopt (by decide) (hindex (by decide))
    · split
      · exact heq (by decide) (heq (by decide) hnil)
      · exact hnil
  | memory => exact ⟨_, rfl, hnil⟩
  | rat =>
    refine ⟨_, rfl, List.forall_mem_append.2 ⟨List.forall_mem_append.2 ⟨?_, hrole (by decide)⟩, ?_⟩⟩
    · split
      · exact heq (by decide) (heq (by decide) hnil)
      · exact hindex (by decide)
    · split
      · exact hopt (by decide) hnil
      · exact hnil
  | freelist => exact ⟨_, rfl, hindex (by decide)⟩
  | exec => exact ⟨_, rfl, heq (by decide) (hrole (by decide))⟩
  | fpu => exact ⟨_, rfl, heq (by decide) (heq (by decide) (hrole (by decide)))⟩
  | rob => exact ⟨_, rfl, heq (by decide) (hrole (by decide))⟩
  | lsq_fwd =>
    refine ⟨_, rfl, ?_⟩
    split
    · exact heq (by decide) (heq (by decide) hnil)
    · exact hnil
  | cache _ | sysreg | ptw | l1_tlb | l2_tlb => exact ⟨[], rfl, hnil⟩

theorem componentArgs_values (env : RunnerEnv) (m : Manifest) (comp : Component) {name : String}
    (h : name ∈ carriedNames) : (componentArgs env m comp).filterMap (Arg.value? name) = [] := by
  obtain ⟨rest, heq, hrest⟩ := componentArgs_eq env m comp
  rw [heq, List.filterMap_eq_nil_iff]
  refine List.forall_mem_append.2 ⟨?_, fun a ha => Arg.value?_eq_none ?_⟩
  · simp [Arg.value?]
  · rintro rfl
    exact (hrest a ha).2 h

theorem componentArgs_flags (env : RunnerEnv) (m : Manifest) (comp : Component) :
    (componentArgs env m comp).filterMap Arg.flag? = comp.flag.toList := by
  obtain ⟨rest, heq, hrest⟩ := componentArgs_eq env m comp
  rw [heq, List.filterMap_append, List.filterMap_eq_nil_iff.2 fun a ha => (hrest a ha).1, List.append_nil,
    List.filterMap_map]
  exact List.filterMap_some

theorem commonArgs_values (env : RunnerEnv) (m : Manifest) (fault_type : String) (mask bits_to_change : Nat)
    (name : String) :
    (commonArgs env m fault_type mask bits_to_change).filterMap (Arg.value? name) =
      [("--cmd", env.binary), ("--cpu", "O3"), ("--first_clock", toString m.trigger_value),
          ("--max_faults", toString m.max_faults), ("--rng_seed", toString m.selection_seed),
          ("--fault_type", fault_type), ("--fault_mask", toString mask),
          ("--bits_to_change", toString bits_to_change)].filterMap (fun o => if o.1 = name then some o.2 else none) ++
        (if wl_args env ≠ "" ∧ "--workload_args" = name then [wl_args env] else []) ++
        m.window.overrides.filterMap fun o => if o.1 = name then some (toString o.2) else none := by
  have hkp : (if m.config_family = some "C2-KP" then [Arg.flag "--kp920_proxy"] else []).filterMap (Arg.value? name) =
      [] := by
    split <;> rfl
  have hwl : (if wl_args env ≠ "" then [Arg.opt "--workload_args" (wl_args env)] else []).filterMap (Arg.value? name) =
      if wl_args env ≠ "" ∧ "--workload_args" = name then [wl_args env] else [] := by
    by_cases hempty : wl_args env ≠ ""
    · rw [if_pos hempty]
      by_cases hname : "--workload_args" = name
      · rw [if_pos ⟨hempty, hname⟩]
        simp [Arg.value?, hname]
      · rw [if_neg fun h => hname h.2]
        simp [Arg.value?, hname]
    · rw [if_neg hempty, if_neg fun h => hempty h.1]
      rfl
  rw [commonArgs, List.filterMap_append, List.filterMap_append, List.filterMap_append, hwl, hkp, List.append_nil,
    List.filterMap_map]
  rfl

theorem overrides_values {w : Window} {o : String × Int} (h : o ∈ w.overrides) :
    (w.overrides.filterMap fun o' => if o'.1 = o.1 then some (toString o'.2) else none) = [toString o.2] := by
  obtain ⟨rob, phys, lq, sq⟩ := w
  simp only [Window.overrides, List.mem_append, Option.mem_toList, Option.map_eq_some_iff] at h
  rcases h with ((⟨v, rfl, rfl⟩ | ⟨v, rfl, rfl⟩) | ⟨v, rfl, rfl⟩) | ⟨v, rfl, rfl⟩
  · cases phys <;> cases lq <;> cases sq <;> simp [Window.overrides]
  · cases rob <;> cases lq <;> cases sq <;> simp [Window.overrides]
  · cases rob <;> cases phys <;> cases sq <;> simp [Window.overrides]
  · cases rob <;> cases phys <;> cases lq <;> simp [Window.overrides]

theorem overrides_name {w : Window} {o : String × Int} (h : o ∈ w.overrides) :
    o.1 ∈ ["--rob_entries", "--phys_int_regs", "--lq_entries", "--sq_entries"] := by
  simp only [Window.overrides, List.mem_append, Option.mem_toList, Option.map_eq_some_iff] at h
  rcases h with ((⟨v, -, rfl⟩ | ⟨v, -, rfl⟩) | ⟨v, -, rfl⟩) | ⟨v, -, rfl⟩ <;> simp

theorem overrides_values_of_ne {w : Window} {name : String}
    (h : name ∉ ["--rob_entries", "--phys_int_regs", "--lq_entries", "--sq_entries"]) :
    (w.overrides.filterMap fun o => if o.1 = name then some (toString o.2) else none) = [] := by
  refine List.filterMap_eq_nil_iff.2 fun o ho => if_neg ?_
  rintro rfl
  exact h (overrides_name ho)

/-! ### The injectors that are enabled -/

theorem commonArgs_flags (env : RunnerEnv) (m : Manifest) (fault_type : String) (mask bits_to_change : Nat) :
    (commonArgs env m fault_type mask bits_to_change).filterMap Arg.flag? =
      if m.config_family = some "C2-KP" then ["--kp920_proxy"] else [] := by
  have hwl : (if wl_args env ≠ "" then [Arg.opt "--workload_args" (wl_args env)] else []).filterMap Arg.flag? = [] := by
    split <;> rfl
  have hwindow : (m.window.overrides.map fun o => Arg.opt o.1 (toString o.2)).filterMap Arg.flag? = [] := by
    rw [List.filterMap_map]
    exact List.filterMap_eq_nil_iff.2 fun _ _ => rfl
  rw [commonArgs, List.filterMap_append, List.filterMap_append, List.filterMap_append, hwl, hwindow]
  split <;> rfl

theorem flag_injector {comp : Component} {i : Injector} (h : comp.injector = some i)
    (hcache : ∀ target, comp ≠ .cache target) : comp.flag.toList.filterMap Injector.ofFlag = [i] := by
  cases comp with
  | cache target => exact absurd rfl (hcache target)
  | sysreg | ptw | l1_tlb | l2_tlb => cases h
  | gpr | physreg | memory | rat | freelist | exec | fpu | rob | lsq_fwd =>
    cases h
    rfl

/-! ### The three kinds of commands -/

/-- What a manifest must be like to be carried over: a component with an injector, no bit twice, and for a cache nothing
that the branch of the caches drops. -/
structure Carried (env : RunnerEnv) (m : Manifest) : Prop where
  known : Component.ofName m.component ≠ none
  nodup : m.bits.Nodup
  cache : ∀ target, Component.ofName m.component = some (.cache target) →
    m.bits = [] ∧ wl_args env = "" ∧ m.window.overrides = [] ∧ m.config_family ≠ some "C2-KP"

theorem length_dedup_eq_iff {bits : List Int} : bits.dedup.length = bits.length ↔ bits.Nodup := by
  constructor
  · intro hlen
    rw [← (List.dedup_sublist bits).eq_of_length hlen]
    exact List.nodup_dedup bits
  · intro hnodup
    rw [hnodup.dedup]

section Common

variable {env : RunnerEnv} {m : Manifest} {fault_type : String} {mask : Nat × Nat} {comp : Component}

theorem values_common {name : String} (h : name ∈ carriedNames) :
    (Command.mk .arm_chaos (commonArgs env m fault_type mask.1 mask.2 ++ componentArgs env m comp)).values name =
      (commonArgs env m fault_type mask.1 mask.2).filterMap (Arg.value? name) := by
  rw [Command.values, List.filterMap_append, componentArgs_values env m comp h, List.append_nil]

theorem common_faithful_iff (hmask : faultMask m = .ok mask) {i : Injector}
    (hname : Component.ofName m.component = some comp) (hcache : ∀ target, comp ≠ .cache target)
    (hinj : comp.injector = some i) :
    Faithful env m ⟨.arm_chaos, commonArgs env m fault_type mask.1 mask.2 ++ componentArgs env m comp⟩ ↔
      m.bits.Nodup := by
  have hbits : (Command.mk .arm_chaos (commonArgs env m fault_type mask.1 mask.2 ++ componentArgs env m comp)).values
      "--bits_to_change" = [toString mask.2] := by
    rw [values_common (by decide), commonArgs_values, overrides_values_of_ne (by simp)]
    simp
  constructor
  · intro h
    by_cases hempty : m.bits = []
    · rw [hempty]
      exact List.nodup_nil
    · have heq := h.bits_to_change hempty
      rw [hbits, (faultMask_ok hmask hempty).1, List.singleton_inj] at heq
      exact length_dedup_eq_iff.1 (toString_injective heq).symm
  · intro hnodup
    refine ⟨⟨i, by rw [hname]; exact hinj, ?_⟩, ?_, ?_, ?_, ?_, ?_⟩
    · have hkp : (if m.config_family = some "C2-KP" then ["--kp920_proxy"] else []).filterMap Injector.ofFlag = [] := by
        split <;> rfl
      rw [Command.injectors, Command.flags, List.filterMap_append, commonArgs_flags, componentArgs_flags,
        List.filterMap_append, hkp, flag_injector hinj hcache]
      rfl
    · intro hne
      refine ⟨mask.1, ?_, (faultMask_ok hmask hne).2⟩
      rw [values_common (by decide), commonArgs_values, overrides_values_of_ne (by simp)]
      simp
    · intro hne
      rw [hbits, (faultMask_ok hmask hne).1, length_dedup_eq_iff.2 hnodup]
    · intro hne
      rw [values_common (by decide), commonArgs_values, overrides_values_of_ne (by simp)]
      simp [hne]
    · intro o ho
      have hother : ∀ name ∈ ["--rob_entries", "--phys_int_regs", "--lq_entries", "--sq_entries"],
          name ∈ carriedNames ∧ "--workload_args" ≠ name ∧ ∀ other ∈ ["--cmd", "--cpu", "--first_clock", "--max_faults",
            "--rng_seed", "--fault_type", "--fault_mask", "--bits_to_change"], other ≠ name := by
        simp [carriedNames]
      obtain ⟨hcomponent, hworkload, hbase⟩ := hother o.1 (overrides_name ho)
      rw [values_common hcomponent, commonArgs_values, overrides_values ho]
      simp only [List.forall_mem_cons, List.not_mem_nil, false_implies, implies_true, and_true] at hbase
      simp [hworkload, hbase]
    · intro hfamily
      rw [Command.flags, List.filterMap_append, commonArgs_flags, if_pos hfamily]
      simp

end Common

def cacheNames : List String :=
  ["--cmd", "--cpu", "--target", "--target_block_addr", "--target_byte_offset", "--first_clock", "--max_faults",
    "--rng_seed", "--fault_type", "--bits_to_change", "--protection_model", "--target_field"]

section Cache

variable {env : RunnerEnv} {m : Manifest} {fault_type : String} {bits_to_change : Nat} {block_addr : Int}

theorem cacheArgs_opt :
    ∀ a ∈ cacheArgs env m fault_type bits_to_change block_addr, ∃ name value, a = .opt name value ∧ name ∈ cacheNames := by
  intro a ha
  rcases List.mem_append.1 ha with hbase | hfield
  · simp only [List.mem_cons, List.not_mem_nil, or_false] at hbase
    rcases hbase with rfl | rfl | rfl | rfl | rfl | rfl | rfl | rfl | rfl | rfl | rfl <;>
      exact ⟨_, _, rfl, by simp [cacheNames]⟩
  · rw [Option.mem_toList, Option.map_eq_some_iff] at hfield
    obtain ⟨value, -, rfl⟩ := hfield
    exact ⟨_, _, rfl, by simp [cacheNames]⟩

theorem values_cache {name : String} (h : name ∉ cacheNames) :
    (Command.mk .arm_chaos_cache (cacheArgs env m fault_type bits_to_change block_addr)).values name = [] := by
  refine List.filterMap_eq_nil_iff.2 fun a ha => ?_
  obtain ⟨n, value, rfl, hn⟩ := cacheArgs_opt a ha
  refine Arg.value?_eq_none ?_
  rintro rfl
  exact h hn

theorem flags_cache : (Command.mk .arm_chaos_cache (cacheArgs env m fault_type bits_to_change block_addr)).flags = [] := by
  refine List.filterMap_eq_nil_iff.2 fun a ha => ?_
  obtain ⟨n, value, rfl, -⟩ := cacheArgs_opt a ha
  rfl

theorem cache_faithful_iff {target : CacheTarget} (hname : Component.ofName m.component = some (.cache target)) :
    Faithful env m ⟨.arm_chaos_cache, cacheArgs env m fault_type bits_to_change block_addr⟩ ↔
      m.bits = [] ∧ wl_args env = "" ∧ m.window.overrides = [] ∧ m.config_family ≠ some "C2-KP" := by
  constructor
  · intro h
    refine ⟨?_, ?_, ?_, ?_⟩
    · by_contra hne
      obtain ⟨mask, hvalues, -⟩ := h.mask hne
      rw [values_cache (by simp [cacheNames])] at hvalues
      cases hvalues
    · by_contra hne
      have hvalues := h.workload_args hne
      rw [values_cache (by simp [cacheNames])] at hvalues
      cases hvalues
    · refine List.eq_nil_iff_forall_not_mem.2 fun o ho => ?_
      have hvalues := h.window o ho
      have hother : ∀ name ∈ ["--rob_entries", "--phys_int_regs", "--lq_entries", "--sq_entries"], name ∉ cacheNames := by
        simp [cacheNames]
      rw [values_cache (hother o.1 (overrides_name ho))] at hvalues
      cases hvalues
    · intro hfamily
      have hflag := h.kp920_proxy hfamily
      rw [flags_cache] at hflag
      cases hflag
  · rintro ⟨hbits, hworkload, hwindow, hfamily⟩
    refine ⟨⟨.CHAOSCache target, by rw [hname]; rfl, ?_⟩, fun h => absurd hbits h, fun h => absurd hbits h,
      fun h => absurd hworkload h, ?_, fun h => absurd h hfamily⟩
    · have htarget : (Command.mk .arm_chaos_cache (cacheArgs env m fault_type bits_to_change block_addr)).values
          "--target" = [m.component] := by
        cases hfield : (truthy m.sub_field).or (truthy m.target_field) <;>
          simp [Command.values, cacheArgs, Arg.value?, hfield]
      rw [Command.injectors, htarget]
      simp [ofName_cache hname]
    · rw [hwindow]
      simp

end Cache

/-- The command of an accepted manifest is faithful just if nothing of the manifest is of the kind that gets lost. -/
theorem command_faithful_iff {env : RunnerEnv} {m : Manifest} {c : Command} (h : command env m = .ok c) :
    Faithful env m c ↔ Carried env m := by
  obtain ⟨fault_type, mask, hmask, hdispatch⟩ := command_ok h
  rcases dispatch_ok hdispatch with ⟨target, block_addr, hname, rfl⟩ | ⟨comp, i, hname, hcache, hinj, rfl⟩ | ⟨hname, rfl⟩
  · rw [cache_faithful_iff hname]
    constructor
    · intro hdropped
      refine ⟨by rw [hname]; simp, ?_, fun _ _ => hdropped⟩
      rw [hdropped.1]
      exact List.nodup_nil
    · exact fun hcarried => hcarried.cache target hname
  · rw [common_faithful_iff hmask hname hcache hinj]
    constructor
    · intro hnodup
      refine ⟨by rw [hname]; simp, hnodup, fun target htarget => ?_⟩
      rw [hname] at htarget
      exact absurd (Option.some.inj htarget) (hcache target)
    · exact Carried.nodup
  · constructor
    · intro hfaithful
      obtain ⟨i, hi, -⟩ := hfaithful.injector
      rw [hname] at hi
      cases hi
    · exact fun hcarried => absurd hname hcarried.known

/-- A run that has all it needs: no arguments for the workload, and the validator is there. -/
def plainEnv : RunnerEnv :=
  { G5 := "gem5.opt", REPO := "/repo", HAVE_SCHEMA := true, schema_message := "", dir := "/tmp/man-0", binary := "reg_chain"
    sha256_binary := "0", probability := "1.0", cache_block_addr := 0, CHAOS_WORKLOAD_ARGS := ""
    CHAOS_CACHE_BLOCK_ADDR := some 0 }

def flipBits (component : String) (bits : List Int) : Manifest :=
  { config_family := some "C1", binary_sha256 := some "0", trigger_mode := some "cycle", trigger_value := 1000
    component := component, layer := some "architectural", model := "transient_bit_flip", bit_indices := some bits
    selection_seed := 1, max_faults := 1 }

/-- Bits 3 and 5 of a general register are carried over. -/
theorem command_faithful_gpr :
    ∃ c, command plainEnv (flipBits "gpr" [3, 5]) = .ok c ∧ Faithful plainEnv (flipBits "gpr" [3, 5]) c := by
  refine ⟨_, rfl, (command_faithful_iff rfl).2 ⟨by decide +kernel, by decide, ?_⟩⟩
  intro target htarget
  have hname : Component.ofName (flipBits "gpr" [3, 5]).component = some .gpr := by decide +kernel
  rw [hname] at htarget
  cases htarget

/-- Bit 3 of a line of the first-level data cache: no mask is passed.  Bit 3 of a general register given twice: two bits
are to be changed. -/
theorem command_not_faithful :
    (∃ c, command plainEnv (flipBits "l1d" [3]) = .ok c ∧ c.values "--fault_mask" = [] ∧
      ¬Faithful plainEnv (flipBits "l1d" [3]) c) ∧
    ∃ c, command plainEnv (flipBits "gpr" [3, 3]) = .ok c ∧ c.values "--fault_mask" = ["8"] ∧
      c.values "--bits_to_change" = ["2"] ∧ ¬Faithful plainEnv (flipBits "gpr" [3, 3]) c := by
  refine ⟨⟨_, rfl, by decide +kernel, fun h => ?_⟩, _, rfl, by decide +kernel, by decide +kernel, fun h => ?_⟩
  · obtain ⟨mask, hvalues, -⟩ := h.mask (by decide)
    rw [values_cache (by simp [cacheNames])] at hvalues
    cases hvalues
  · exact absurd (h.bits_to_change (by decide)) (by decide +kernel)

end GemFI.Tools
