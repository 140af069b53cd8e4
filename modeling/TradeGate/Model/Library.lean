import TradeGate.Machine.Run
import TradeGate.Model.Strategies

/-! The library of strategy versions: one table, written by seeding, by new versions, along the line
of promotions, by retirement and by the results of tests; and what live judgments take from it. -/
namespace TradeGate.Strategies
open Keyed Js

def StrategySpec.key (s : StrategySpec) : String × ℕ := (s.id,s.version)

structure Library where
  rows : Table StrategySpec.key
  /-- Every row as it was written, newest first; the program does not keep them. -/
  written : List StrategySpec

namespace Library

def empty : Library := ⟨.empty,[]⟩

def write (t : Library) (s : StrategySpec) : Library := ⟨t.rows.upsert s,s::t.written⟩

def version (t : Library) (id : String) (version : ℕ) : Option StrategySpec :=
  t.rows.lookup (id,version)

/-- All versions of a strategy, the newest first. -/
def versions (t : Library) (id : String) : List StrategySpec :=
  (t.rows.rows.filter fun s => s.id=id).insertionSort fun s r => r.version ≤ s.version

/-- The newest version. -/
def head (t : Library) (id : String) : Option StrategySpec := (t.versions id).head?

/-! Seeding. -/

section
variable [Host]

/-- Adds the parameters that the stored version lacks; those it has stay as they are. -/
def backfillParams (t : Library) (stored builtin : StrategySpec) : Library :=
  let missing := builtin.params.rows.filter fun p => stored.params.get p.1=none
  if missing=[] then t
  else
    let next := { stored with params := missing.foldl (fun (ps : Params) (p : String × StrategyParam) => ps.set p.1 p.2) stored.params }
    t.write { next with contentHash := strategyContentHash next.toContent }

def seedOne (now : ℕ) (t : Library × ℕ) (s : StrategySpec) : Library × ℕ :=
  match t.1.version s.id 1 with
  | some stored => (t.1.backfillParams stored s,t.2)
  | none => (t.1.write { s with createdAt := now },t.2+1)

/-- The strategies the program comes with are written unless they are there; with the number of
those written. -/
def seed (t : Library) (now : ℕ) : Library × ℕ := builtinStrategies.foldl (seedOne now) (t,0)

end

/-! What judgments take: the newest version or, while that is still below paper, the newest one that
is not. -/

def resolveOne (t : Library) (allowBelowPaper : Bool) (id : String) : Except String StrategySpec :=
  match t.head id with
  | none => .error ("策略 " ++ id ++ " 不在策略库里")
  | some s =>
    if s.status=.retired then .error ("策略 " ++ id ++ " 已退役")
    else if ¬allowBelowPaper ∧ s.status.index<StrategyStatus.paper.index then
      match (t.versions id).find? fun v =>
        v.status ≠ .retired ∧ StrategyStatus.paper.index ≤ v.status.index with
      | none => .error ("策略 " ++ id ++ " 状态是 " ++ s.status.text ++ ",未到 paper,不能在实盘判断里启用")
      | some fallback => .ok fallback
    else .ok s

structure Resolved where
  specs : List StrategySpec
  errors : List String

def resolve (t : Library) (ids : List String) (allowBelowPaper : Bool := false) : Resolved where
  specs := ids.eraseDups.filterMap fun id => match t.resolveOne allowBelowPaper id with
    | .ok s => some s
    | .error _ => none
  errors := ids.eraseDups.filterMap fun id => match t.resolveOne allowBelowPaper id with
    | .ok _ => none
    | .error e => some e

/-! New versions. -/

structure RulesPatch where
  entry : Option (List String) := none
  invalidation : Option (List String) := none
  exit : Option (List String) := none
  sizingNote : Option String := none

structure VersionPatch where
  params : List (String × Js.Num) := []
  rules : RulesPatch := {}
  name : Option String := none

def patchParam (id : String) (params : Params) (change : String × Js.Num) : Except String Params :=
  match params.get change.1 with
  | none => .error ("策略 " ++ id ++ " 没有参数 " ++ change.1)
  | some cur =>
    match change.2 with
    | .fin n =>
      if n<cur.min ∨ cur.max<n then
        .error ("参数 " ++ change.1 ++ " = " ++ numberText n ++ " 超出范围 [" ++ numberText cur.min ++
          ", " ++ numberText cur.max ++ "]")
      else .ok (params.set change.1 { cur with value := n })
    | _ => .error ("参数 " ++ change.1 ++ " 必须是数字")

/-- The rules after the patch; an empty note on sizes is left out. -/
def Rules.patched (rules : Rules) (patch : RulesPatch) : Rules where
  entry := patch.entry.getD rules.entry
  invalidation := patch.invalidation.getD rules.invalidation
  exit := patch.exit.getD rules.exit
  sizingNote := (patch.sizingNote.or rules.sizingNote).filter (· ≠ "")

section
variable [Host]

/-- A draft from the newest version with the changes of the patch. -/
def createVersion (t : Library) (id : String) (patch : VersionPatch) (now : ℕ) :
    Except String (StrategySpec × Library) :=
  match t.head id with
  | none => .error ("策略 " ++ id ++ " 不存在")
  | some head =>
    match patch.params.foldlM (patchParam id) head.params with
    | .error e => .error e
    | .ok params =>
      let content : Content :=
        { head.toContent with
          name := slice 40 (patch.name.getD head.name)
          rules := Rules.patched head.rules patch.rules
          params := params }
      let hash := strategyContentHash content
      if hash=head.contentHash then .error "内容没有变化,不生成新版本"
      else
        let spec : StrategySpec :=
          { head with
            toContent := content
            version := head.version+1
            contentHash := hash
            status := .draft
            evalStats := emptyEvalStats
            labStats := none
            createdAt := now
            parentVersion := some head.version }
        .ok (spec,t.write spec)

end

/-! Promotion and retirement. -/

/-- `String` of a number that may have been kept as null. -/
def nullText (x : Option ℚ) : String := x.elim "null" numberText

/-- Enough trades with a good enough result in the mechanical forward test. -/
def labOk (s : StrategySpec) : Bool :=
  s.labStats.any fun lab => 20 ≤ lab.n.getD 0 ∧ lab.expectancyR.any fun r => 0.1 ≤ r

def shadowGate (s : StrategySpec) : Option String :=
  if labOk s then none
  else if s.evalStats.backtests<1 then
    some (match s.labStats with
      | none => "至少要跑过 1 次回测(或等 Lab 实验给出 ≥20 笔正期望)"
      | some lab => "Lab 期望 " ++ lab.expectancyR.elim "n/a" (toFixed · 2) ++ "R/" ++ nullText lab.n ++
          " 笔不够(要 ≥20 笔且期望为正),或至少跑过 1 次回测")
  else if s.evalStats.trades.getD 0<20 then
    some ("回测成交数 " ++ nullText s.evalStats.trades ++ ",不足 20 笔")
  else none

def paperGate (s : StrategySpec) : Option String :=
  match s.evalStats.expectancyR with
  | none => some "还没有期望 R,先跑回测"
  | some r => if r ≤ 0 then some ("期望 R = " ++ toFixed r 2 ++ ",不为正") else none

/-- One step forward only, and through the gate of that step. -/
def promoteGate (s : StrategySpec) (target : StrategyStatus) (confirm : Bool) : Option String :=
  if s.status=.retired then some "已退役的策略不能晋升,先生成新版本"
  else if target.index<0 then some ("不能晋升到 " ++ target.text)
  else if target.index ≠ s.status.index+1 then
    some ("只能一格一格晋升:" ++ s.status.text ++ " 的下一格是 " ++
      (statusOrder[(s.status.index+1).toNat]?.map StrategyStatus.text).getD "(没有了)")
  else
    match target with
    | .shadow => shadowGate s
    | .paper => paperGate s
    | .liveCapped => if confirm then none else some "进限额实盘必须人工确认(confirm=true)"
    | _ => none

def promote (t : Library) (id : String) (target : StrategyStatus) (confirm : Bool) :
    Except String (StrategySpec × Library) :=
  match t.head id with
  | none => .error ("策略 " ++ id ++ " 不存在")
  | some head =>
    match promoteGate head target confirm with
    | some e => .error e
    | none => .ok ({ head with status := target },t.write { head with status := target })

def retire (t : Library) (id : String) : Except String (StrategySpec × Library) :=
  match t.head id with
  | none => .error ("策略 " ++ id ++ " 不存在")
  | some head =>
    if head.status=.retired then .ok (head,t)
    else .ok ({ head with status := .retired },t.write { head with status := .retired })

/-! Results of tests. -/

/-- The results of the forward test go to the version that was tested. -/
def updateLabStats (t : Library) (id : String) (version : ℕ) (stats : LabStats) :
    Option (StrategySpec × Library) :=
  (t.version id version).map fun s =>
    ({ s with labStats := some stats },t.write { s with labStats := some stats })

/-- The results of a replay go to the newest version and count as one more. -/
def updateEvalStats (t : Library) (id : String) (trades expectancyR : Option ℚ) :
    Option (StrategySpec × Library) :=
  (t.head id).map fun head =>
    let next := { head with evalStats := ⟨head.evalStats.backtests+1,trades,expectancyR⟩ }
    (next,t.write next)

/-! The second version of the first strategy. -/

def breakoutRetestV2 : VersionPatch where
  params := [("breakout_window",.fin 12),("retest_vol_min",.fin 2)]
  rules :=
    { entry := some
        [ "方向随 1h EMA20/EMA50;4h 反向只许限价回踩、信心 ≤ 0.5。",
          "突破发生在最近 breakout_window 根内(与突破位比的是**该根之前**的 20 根高/低),且那根量比 ≥ retest_vol_min → 现在的回踩可以做;回踩那根本身缩量不算否决。",
          "距突破位 > chase_atr_max ATR 或 ATR% < 分周期门槛不做;日线 bear 不做多、bull 不做空,range 要量比 ≥ range_vol_min。" ] }

def isV2 (s : StrategySpec) : Prop :=
  (s.params.get "breakout_window").map StrategyParam.value=some 12 ∧
    (s.params.get "retest_vol_min").map StrategyParam.value=some 2

instance (s : StrategySpec) : Decidable (isV2 s) := inferInstanceAs (Decidable (_ ∧ _))

section
variable [Host]

/-- Unless some version already carries its values, the second version is made and goes to backtest. -/
def ensureBreakoutRetestV2 (t : Library) (now : ℕ) : Option (StrategySpec × Library) :=
  match t.head "breakout_retest" with
  | none => none
  | some head =>
    if (∃ v ∈ t.versions "breakout_retest", isV2 v) ∨ head.params.get "breakout_window"=none then none
    else
      match t.createVersion "breakout_retest" breakoutRetestV2 now with
      | .error _ => none
      | .ok (spec,made) =>
        match made.promote "breakout_retest" .backtest false with
        | .error _ => some (spec,made)
        | .ok promoted => some promoted

/-! Runs. -/

inductive Op
  | seed (now : ℕ)
  | createVersion (id : String) (patch : VersionPatch) (now : ℕ)
  | promote (id : String) (target : StrategyStatus) (confirm : Bool)
  | retire (id : String)
  | updateLabStats (id : String) (version : ℕ) (stats : LabStats)
  | updateEvalStats (id : String) (trades expectancyR : Option ℚ)
  | ensureBreakoutRetestV2 (now : ℕ)

/-- The library after an attempt. -/
def after (t : Library) (r : Except String (StrategySpec × Library)) : Library :=
  match r with
  | .error _ => t
  | .ok r => r.2

def apply (t : Library) : Op → Library
  | .seed now => (t.seed now).1
  | .createVersion id patch now => t.after (t.createVersion id patch now)
  | .promote id target confirm => t.after (t.promote id target confirm)
  | .retire id => t.after (t.retire id)
  | .updateLabStats id version stats => ((t.updateLabStats id version stats).map Prod.snd).getD t
  | .updateEvalStats id trades expectancyR =>
    ((t.updateEvalStats id trades expectancyR).map Prod.snd).getD t
  | .ensureBreakoutRetestV2 now => ((t.ensureBreakoutRetestV2 now).map Prod.snd).getD t

/-- The library after the operations. -/
abbrev run (t : Library) (ops : List Op) : Library := Machine.run apply t ops

end
end Library
end TradeGate.Strategies
