import GemFI.Lib.Lists
import GemFI.Lib.Text

/-!
# The order of the advice

`build_advice` has one rule for each symptom in the statistics of a run, and sorts what the rules say by confidence.
The rank of an advice is looked up from the text of its confidence.  Most rules write more than the level into this
text, and such a text has no rank, so these advices come last, in the order of the length of their symptoms.

So the list is in order of the levels exactly if every advice with a high level and a longer text comes with none that
is just `medium`, and has a longer symptom than those whose level is medium and whose text is longer, or one of the
same length and an earlier rule (`confidence_order_iff`).

Numbers are exact.  How a number is printed without a format is a parameter.
-/

namespace GemFI.Tools.HarpAdvice

open Text

/-! ### The rules -/

inductive StatKey where
  | irfAvfInt | irfAvfCommitInt | l1dAvf | l1dReads | l1dWrites | l1dEvicts | sqAvf | sqWrites | sqConsumes | ibrIntAdd
  | ibrIntMul | ibrFpAdd | ibrFpMul | sdcGap | fpValueEntropy | ibrIssuesFPAdd | ibrIssuesFPMul | mulSensRatio
  | mulSensSamples | l2cTagFaceRatio | l2cReads
  deriving DecidableEq, Repr

abbrev Stats := StatKey → Option ℚ

/-- `stats.get(key, 0)`. -/
def Stats.get (stats : Stats) (key : StatKey) : ℚ := (stats key).getD 0

/-- The issues of the four classes, as `parse_detail` has found them. -/
abbrev Detail := Fin 4 → Nat

structure Advice where
  struct : String
  symptom : String
  action : String
  gain : String
  confidence : String
  deriving DecidableEq, Repr

section

variable (repr : ℚ → String)

/-- A statistic in a text without a format; the default is an integer. -/
def Stats.print (stats : Stats) (key : StatKey) : String :=
  match stats key with
  | some q => repr q
  | none => "0"

def irfLow (stats : Stats) : List Advice :=
  let avf_int := stats.get .irfAvfInt
  if avf_int < 1 / 10 then
    [{ struct := "IRF"
       symptom := "irfAvfInt=" ++ fixed 4 avf_int ++ " 偏低（写后读区间短/覆写频繁）"
       action := "提高寄存器依赖距离：把串行链 (add x9,x9,x9) 改为多目的寄存器并行链 (add x9,x10,x11; add x12,x13,x14; ...)，" ++
         "让每个值在被覆写前保持更长的可读窗口"
       gain := "+ΔAVF 上界 = 新写读间距/旧间距 比值 × 现值（实证由重测确认）"
       confidence := "high（直接作用区间语义）" }]
  else []

def irfWrongPath (stats : Stats) : List Advice :=
  let avf_int := stats.get .irfAvfInt
  let avf_commit := stats.get .irfAvfCommitInt
  if 0 < avf_int ∧ avf_int * (11 / 10) < avf_commit then
    [{ struct := "IRF"
       symptom := "commit 口径 " ++ fixed 4 avf_commit ++ " >> 乐观口径 " ++ fixed 4 avf_int ++ "（差 " ++
         fixed 4 (avf_commit - avf_int) ++ "）"
       action := "wrong-path 读占比高：降低序列分支密度，或让分支两侧都消费同一寄存器组（消除 squash 回退差）"
       gain := "口径差收敛 → 乐观 AVF 向 commit AVF 靠拢"
       confidence := "medium（间接作用于分支行为）" }]
  else []

def l1dUnread (stats : Stats) : List Advice :=
  let l1d_avf := stats.get .l1dAvf
  if l1d_avf < 1 / 20 ∧ stats.get .l1dReads < stats.get .l1dWrites then
    [{ struct := "L1D"
       symptom := "l1dAvf=" ++ fixed 4 l1d_avf ++ "，writes=" ++ stats.print repr .l1dWrites ++ " > reads=" ++
         stats.print repr .l1dReads ++ "（fill/store 后未充分读）"
       action := "增加对已 fill 块的重复读：把一次性写改为 store→load 同址对（str x9,[x8]; ldr x10,[x8]），或顺序 stride-8 扫 32KB"
       gain := "read 占比提升直接加长 block 的 read→next-event 区间"
       confidence := "high（fill→read→read 即 ACE 模式）" }]
  else []

def l1dEvicted (stats : Stats) : List Advice :=
  if 0 < stats.get .l1dEvicts ∧ stats.get .l1dReads < stats.get .l1dEvicts then
    [{ struct := "L1D"
       symptom := "evicts=" ++ stats.print repr .l1dEvicts ++ " > reads=" ++ stats.print repr .l1dReads ++
         "（块在消费前被逐出）"
       action := "缩小工作集或提高时间局部性：让同一 64B 块的多次访问聚在一起（访问序列按块分组），减少 fill→evict 未读窗口"
       gain := "fill→evict 转 fill→read"
       confidence := "medium" }]
  else []

def lsq (stats : Stats) : List Advice :=
  let sq_avf := stats.get .sqAvf
  let sq_w := stats.get .sqWrites
  let sq_c := stats.get .sqConsumes
  if sq_avf < 1 / 20 ∧ 0 < sq_w ∧ sq_c / sq_w < 1 / 2 then
    [{ struct := "LSQ"
       symptom := "sqAvf=" ++ fixed 4 sq_avf ++ "，consumes/writes=" ++ stats.print repr .sqConsumes ++ "/" ++
         stats.print repr .sqWrites ++ "=" ++ fixed 2 (sq_c / if sq_w < 1 then 1 else sq_w) ++ "（store 数据驻留短）"
       action := "拉长 store 在飞时间：store 后插长依赖链再触发写回（str x9,[x8]; ...8 条无关 ALU...; 再下一条 store），" ++
         "并增加 store→load 前转对让 SQ data 被读"
       gain := "execute→writeback 间距拉长直接加 ACE 区间"
       confidence := "high" }]
  else if sq_w = 0 then
    [{ struct := "LSQ"
       symptom := "sqWrites=0（序列无 store）"
       action := "插入 store→load 前转对：str xN,[x8,#k]; ldr xM,[x8,#k]（前转命中即 SQ data 消费）"
       gain := "SQ AVF 从 0 起步"
       confidence := "high" }]
  else []

def fuClasses : List (Fin 4 × String × StatKey × String) :=
  [(0, "IntAdd", .ibrIntAdd, "add x9, x10, x11"), (1, "IntMul", .ibrIntMul, "mul x19, x20, x21"),
    (2, "FPAdd", .ibrFpAdd, "fadd d8, d9, d10"), (3, "FPMul", .ibrFpMul, "fmul d11, d12, d13")]

def fu (stats : Stats) (issues : Detail) (cls : Fin 4 × String × StatKey × String) : List Advice :=
  let (i, name, key, sample) := cls
  -- a sum of 0 is no total
  let total_issues := ((List.finRange 4).map issues).sum
  let ins := if total_issues ≠ 0 then issues i else 0
  let share : ℚ := if total_issues ≠ 0 then ins / total_issues else 0
  if stats.get key < 3 / 100 then
    [{ struct := "FU-" ++ name
       symptom := "ibr" ++ name ++ "=" ++ fixed 4 (stats.get key) ++ " 偏低；issue 占比 " ++ percent 1 share ++ "（" ++
         toString ins ++ " 条）"
       action := "指令 mix 缺口：把序列中出现的低贡献指令替换为 " ++ sample ++ "（全宽操作数，W 寄存器只有 32b 有效）"
       gain := "上界：全替换后 issue 占比→100% 时 IBR 饱和值（实测重测确认）"
       confidence := "high（mix 直接决定分子）" }]
  else []

def deadChain (stats : Stats) : List Advice :=
  match stats .sdcGap with
  | some sdc_gap =>
    if 1 / 10 < sdc_gap then
      [{ struct := "IRF-SDC"
         symptom := "sdcGap=" ++ fixed 4 sdc_gap ++ "（commit 读流中 " ++ percent 0 sdc_gap ++
           " 的消费不在到达校验输出的数据流切片上）"
         action := "死链改造：把「读后丢弃」的消费者改为把结果串到序列末尾仍存回的寄存器（或删除中间死写），让每次读都落在" ++
           "store-back 可达的链上"
         gain := "SDC-ACE 是 ED 的 OoO 轴分量——gap 每降 1 个点，irfAvfSdc 同比例上升（区间算术不变、分母不变）"
         confidence := "high（负对照 dead_read gap=0.196 vs 直达 0 实测）" }]
    else []
  | none => []

def valueClasses (stats : Stats) : List Advice :=
  let fp_issues := stats.get .ibrIssuesFPAdd + stats.get .ibrIssuesFPMul
  match stats .fpValueEntropy with
  | some fp_ent =>
    if 0 < fp_issues ∧ fp_ent < 3 / 10 then
      [{ struct := "FSU-value"
         symptom := "fpValueEntropy=" ++ fixed 4 fp_ent ++ "（FP 源操作数值类集中在少数 IEEE754 类；" ++ repr fp_issues ++
           " 条 FP issue）"
         action := "值域扩展：序列中加入产生 subnormal/NaN/Inf 的操作数源（ldr 随机位模式 d 寄存器天然覆盖五类；或对大数 fadd " ++
           "制造溢出 Inf、对 Inf×0 制造 NaN）"
         gain := "CHAOSFPU 全 Masked 证明 FP 软件掩蔽值依赖——值类熵是IBR 之外的 FSU 覆盖轴"
         confidence := "high（randbits_seq 熵 0.392 vs rand_fp 0.351 实测分化）" }]
    else []
  | none => []

def multiplier (stats : Stats) : List Advice :=
  match stats .mulSensRatio with
  | some mul_ratio =>
    if 0 < stats.get .mulSensSamples ∧ mul_ratio < 9 / 10 then
      [{ struct := "IEX-mul"
         symptom := "mulSensRatio=" ++ fixed 4 mul_ratio ++ "（乘法输入位 " ++ percent 0 (1 - mul_ratio) ++
           " 被逻辑掩蔽；" ++ stats.print repr .mulSensSamples ++ " 采样）"
         action := "非零密集操作数：把乘法源改成全 64 位都非零/非一的值（ldr 随机位模式源），避开 0×x / 1×x / 高位零重叠"
         gain := "乘法器真实掩蔽在 Task 4.3 实测（0×0→0.000，随机对→1.000）；敏感度即检测位面"
         confidence := "medium（加法器零掩蔽为 1.000 结构值，无需 advice）" }]
    else []
  | none => []

def l2cTag (stats : Stats) : List Advice :=
  match stats .l2cTagFaceRatio with
  | some tag_ratio =>
    if stats.get .l2cReads = 0 ∧ tag_ratio = 0 then
      [{ struct := "L2C-tag"
         symptom := "l2cReads=0（L2 数据面零触达——工作集全部 L1 命中或 targetCache 未含 L2）"
         action := "扩大工作集越过 L1D 容量（64KiB）迫使 L2 读写：stride 访问 >128KiB 区域；再构造同 tag 不同 set 的冲突" ++
           "对触发 tag 比较路径"
         gain := "ρ_L2C(tag)=0.45 是 ECC 盲高危面（39-47% 实测线），tag-face 触达是 L2C 单元的主要覆盖缺口"
         confidence := "high（w_L2C=0.525 最大翻转份额）" }]
    else []
  | none => []

def advices (stats : Stats) (issues : Detail) : List Advice :=
  irfLow stats ++ irfWrongPath stats ++ l1dUnread repr stats ++ l1dEvicted repr stats ++ lsq repr stats ++
    fuClasses.flatMap (fu stats issues) ++ deadChain stats ++ valueClasses repr stats ++ multiplier repr stats ++
    l2cTag stats

end

/-! ### The sort -/

/-- `conf_rank.get(confidence, 3)`. -/
def confRank (confidence : String) : Nat :=
  if confidence = "high" then 0 else if confidence = "medium" then 1 else if confidence = "low" then 2 else 3

def Before (a b : Advice) : Prop :=
  confRank a.confidence < confRank b.confidence ∨
    confRank a.confidence = confRank b.confidence ∧ b.symptom.length ≤ a.symptom.length

instance : DecidableRel Before := fun a b =>
  inferInstanceAs (Decidable (confRank a.confidence < confRank b.confidence ∨
    confRank a.confidence = confRank b.confidence ∧ b.symptom.length ≤ a.symptom.length))

/-- `l[:k]`. -/
def slice (k : Int) (l : List Advice) : List Advice := l.take (if 0 ≤ k then k.toNat else l.length - (-k).toNat)

def build_advice (repr : ℚ → String) (stats : Stats) (issues : Detail) (top_k : Int) : List Advice :=
  slice top_k ((advices repr stats issues).insertionSort Before)

/-! ### The order -/

def Advice.High (a : Advice) : Prop := "high".toList <+: a.confidence.toList
def Advice.Medium (a : Advice) : Prop := "medium".toList <+: a.confidence.toList

instance (a : Advice) : Decidable a.High := inferInstanceAs (Decidable (_ <+: _))
instance (a : Advice) : Decidable a.Medium := inferInstanceAs (Decidable (_ <+: _))

def InOrder (l : List Advice) : Prop := l.Pairwise fun a b => ¬(a.Medium ∧ b.High)

private theorem not_begins {p t : String} (c : String) (hp : p.toList <+: c.toList) (ht : ¬p.toList <+: t.toList) :
    c ≠ t := by
  rintro rfl
  exact ht hp

theorem Advice.High.confRank {a : Advice} (h : a.High) :
    confRank a.confidence = if a.confidence = "high" then 0 else 3 := by
  unfold HarpAdvice.confRank
  split
  · rfl
  · rw [if_neg (not_begins _ h (by decide)), if_neg (not_begins _ h (by decide))]

theorem Advice.Medium.confRank {a : Advice} (h : a.Medium) :
    confRank a.confidence = if a.confidence = "medium" then 1 else 3 := by
  unfold HarpAdvice.confRank
  rw [if_neg (not_begins _ h (by decide))]
  split
  · rfl
  · rw [if_neg (not_begins _ h (by decide))]

theorem Advice.Medium.ne {m h : Advice} (hm : m.Medium) (hh : h.High) : m ≠ h := by
  rintro rfl
  rcases List.prefix_or_prefix_of_prefix hm hh with hpre | hpre
  · exact absurd hpre (by decide)
  · exact absurd hpre (by decide)

instance : Std.Total Before where
  total a b := by
    unfold Before
    omega

instance : IsTrans Advice Before where
  trans a b c hab hbc := by
    unfold Before at *
    omega

theorem medium_first_iff {l : List Advice} {m h : Advice} (hm : m.Medium) (hh : h.High) (hml : m ∈ l) (hhl : h ∈ l) :
    [m, h].Sublist (l.insertionSort Before) ↔
      h.confidence ≠ "high" ∧ (m.confidence = "medium" ∨ h.symptom.length < m.symptom.length ∨
        h.symptom.length = m.symptom.length ∧ [m, h].Sublist l) := by
  rw [StableSort.pair_sublist_insertionSort_iff (hm.ne hh), and_iff_right hml, and_iff_right hhl]
  unfold Before
  rw [hm.confRank, hh.confRank]
  by_cases hhigh : h.confidence = "high"
  · rw [if_pos hhigh]
    refine iff_of_false (fun hfirst => ?_) fun hboth => hboth.1 hhigh
    have := hfirst.1
    split at this <;> omega
  · rw [if_neg hhigh]
    by_cases hmed : m.confidence = "medium"
    · rw [if_pos hmed]
      refine iff_of_true ⟨Or.inl (by omega), fun hback => ?_⟩ ⟨hhigh, .inl hmed⟩
      omega
    · rw [if_neg hmed]
      constructor
      · rintro ⟨hlen, hrule⟩
        refine ⟨hhigh, .inr ?_⟩
        by_cases heq : h.symptom.length = m.symptom.length
        · exact .inr ⟨heq, hrule (.inr ⟨rfl, by omega⟩)⟩
        · exact .inl (by omega)
      · rintro ⟨-, hmed' | hlen | ⟨heq, hrule⟩⟩
        · exact absurd hmed' hmed
        · exact ⟨.inr ⟨rfl, by omega⟩, fun hback => by omega⟩
        · exact ⟨.inr ⟨rfl, by omega⟩, fun _ => hrule⟩

/-! ### Truncation -/

theorem slice_sublist (k : Int) (l : List Advice) : (slice k l).Sublist l := List.take_sublist _ _

theorem forall_slice_iff (l : List Advice) :
    (∀ k, InOrder (slice k l) ∧ ∀ m ∈ slice k l, m.Medium → ∀ h ∈ l, h.High → h ∈ slice k l) ↔ InOrder l := by
  constructor
  · intro hall
    have hwhole : slice l.length l = l := by simp [slice]
    exact hwhole ▸ (hall l.length).1
  · intro hl k
    refine ⟨hl.sublist (slice_sublist k l), fun m hm hmed h hh hhigh => ?_⟩
    by_contra hdropped
    -- the dropped advice comes behind the one that is kept
    have hsplit := List.take_append_drop (if 0 ≤ k then k.toNat else l.length - (-k).toNat) l
    rw [← hsplit] at hh hl
    have hbehind := (List.mem_append.1 hh).resolve_left hdropped
    exact (List.pairwise_append.1 hl).2.2 m hm h hbehind ⟨hmed, hhigh⟩

/-- The list that is returned is in order for every `top_k`, and never keeps an advice of medium level while it drops one of
high level, exactly if no advice of medium level is ranked before one of high level whose text has more than the level. -/
theorem confidence_order_iff (repr : ℚ → String) (stats : Stats) (issues : Detail) :
    (∀ top_k, InOrder (build_advice repr stats issues top_k) ∧
      ∀ m ∈ build_advice repr stats issues top_k, m.Medium → ∀ h ∈ advices repr stats issues, h.High →
        h ∈ build_advice repr stats issues top_k) ↔
    ∀ m ∈ advices repr stats issues, ∀ h ∈ advices repr stats issues, m.Medium → h.High → h.confidence ≠ "high" →
      m.confidence ≠ "medium" ∧ (m.symptom.length < h.symptom.length ∨
        m.symptom.length = h.symptom.length ∧ ¬[m, h].Sublist (advices repr stats issues)) := by
  have hslice := forall_slice_iff ((advices repr stats issues).insertionSort Before)
  simp only [List.mem_insertionSort] at hslice
  unfold build_advice
  rw [hslice, InOrder, List.pairwise_iff_forall_sublist]
  constructor
  · intro horder m hm h hh hmed hhigh hlong
    have hnot : ¬[m, h].Sublist ((advices repr stats issues).insertionSort Before) := fun hfirst =>
      horder hfirst ⟨hmed, hhigh⟩
    rw [medium_first_iff hmed hhigh hm hh, and_iff_right hlong, not_or, not_or] at hnot
    obtain ⟨hmedium, hlen, hrule⟩ := hnot
    refine ⟨hmedium, ?_⟩
    by_cases heq : m.symptom.length = h.symptom.length
    · exact .inr ⟨heq, fun hsub => hrule ⟨heq.symm, hsub⟩⟩
    · exact .inl (by omega)
  · rintro hcond m h hfirst ⟨hmed, hhigh⟩
    have hmem := fun x hx => (List.mem_insertionSort Before).1 (hfirst.subset (a := x) hx)
    have hm := hmem m (by simp)
    have hh := hmem h (by simp)
    obtain ⟨hlong, hcases⟩ := (medium_first_iff hmed hhigh hm hh).1 hfirst
    obtain ⟨hmedium, hlen⟩ := hcond m hm h hh hmed hhigh hlong
    rcases hcases with hmedium' | hlonger | ⟨heq, hrule⟩
    · exact hmedium hmedium'
    · omega
    · exact hlen.elim (fun hlt => by omega) fun hsame => hsame.2 hrule

private def reprInteger (q : ℚ) : String := toString q.num ++ ".0"

private def evicting : Stats
  | .irfAvfInt => some (1 / 20)
  | .l1dReads => some 1
  | .l1dEvicts => some 2
  | _ => none

/-- The rule for evicted blocks has the confidence `medium`, and comes behind the one rule with the confidence `high` and
before all that say more.  With `top_k` 2 it is kept, and the advice on the registers is dropped. -/
theorem medium_before_high :
    (advices reprInteger evicting fun _ => 0).map (fun a => (a.struct, a.confidence)) =
      [("IRF", "high（直接作用区间语义）"), ("L1D", "medium"), ("LSQ", "high"), ("FU-IntAdd", "high（mix 直接决定分子）"),
        ("FU-IntMul", "high（mix 直接决定分子）"), ("FU-FPAdd", "high（mix 直接决定分子）"),
        ("FU-FPMul", "high（mix 直接决定分子）")] ∧
    (build_advice reprInteger evicting (fun _ => 0) 2).map (fun a => (a.struct, a.confidence)) =
      [("LSQ", "high"), ("L1D", "medium")] := by
  decide +kernel

end GemFI.Tools.HarpAdvice
