import Mathlib.Data.List.Sort
import TradeGate.Js.Arith
import TradeGate.Keyed.Table
import TradeGate.Model.Threads

/-! Strategies: versioned objects of a trigger, a checklist, rules and parameters with ranges, the
hash of that content, and the strategies the program comes with. -/
namespace TradeGate.Strategies
open Keyed Js

inductive StrategyStatus | draft | backtest | shadow | paper | liveCapped | retired
deriving DecidableEq

def StrategyStatus.text : StrategyStatus → String
  | draft => "draft"
  | backtest => "backtest"
  | shadow => "shadow"
  | paper => "paper"
  | liveCapped => "live_capped"
  | retired => "retired"

/-- The line along which a promotion goes; a retired strategy stands on none of its steps. -/
def statusOrder : List StrategyStatus := [.draft,.backtest,.shadow,.paper,.liveCapped]

/-- `STATUS_ORDER.indexOf(status)`. -/
def StrategyStatus.index (s : StrategyStatus) : ℤ := ((statusOrder.idxOf? s).map Nat.cast).getD (-1)

inductive StrategyFamily | trendContinuation | mtf | volatility | derivatives | meanReversion
deriving DecidableEq

def StrategyFamily.text : StrategyFamily → String
  | trendContinuation => "trend_continuation"
  | mtf => "mtf"
  | volatility => "volatility"
  | derivatives => "derivatives"
  | meanReversion => "mean_reversion"

structure StrategyParam where
  value : ℚ
  min : ℚ
  max : ℚ
  unit : Option String
  note : Option String
deriving DecidableEq

abbrev Params := Map String StrategyParam

/-- The statistics of the replays.  A number that `JSON.stringify` writes as null is none here. -/
structure StrategyEvalStats where
  backtests : ℕ
  trades : Option ℚ
  expectancyR : Option ℚ
deriving DecidableEq

def emptyEvalStats : StrategyEvalStats := ⟨0,some 0,none⟩

/-- The results of the mechanical forward test of one version. -/
structure LabStats where
  n : Option ℚ
  expectancyR : Option ℚ
deriving DecidableEq

structure StrategyTrigger where
  kinds : List String
  minTimeframe : String
  cooldownBars : ℚ
deriving DecidableEq

structure Checklist where
  required : List String
  timeframes : List String
deriving DecidableEq

structure Rules where
  entry : List String
  invalidation : List String
  exit : List String
  sizingNote : Option String
deriving DecidableEq

/-- What the hash is taken of. -/
structure Content where
  name : String
  family : StrategyFamily
  trigger : StrategyTrigger
  checklist : Checklist
  rules : Rules
  params : Params

structure StrategySpec extends Content where
  id : String
  version : ℕ
  contentHash : String
  status : StrategyStatus
  evalStats : StrategyEvalStats
  labStats : Option LabStats
  createdAt : ℕ
  parentVersion : Option ℕ

def strings (xs : List String) : Value := .arr (xs.map .str)

/-- The content as it is written to be hashed: lists whose order means nothing are sorted. -/
def Content.canonical (c : Content) : Value :=
  .obj [
    ("name",.str c.name),
    ("family",.str c.family.text),
    ("trigger",.obj [
      ("kinds",strings (c.trigger.kinds.insertionSort (· ≤ ·))),
      ("min_timeframe",.str c.trigger.minTimeframe),
      ("cooldown_bars",.num (.fin c.trigger.cooldownBars))]),
    ("checklist",.obj [
      ("required",strings (c.checklist.required.insertionSort (· ≤ ·))),
      ("timeframes",strings c.checklist.timeframes)]),
    ("rules",.obj [
      ("entry",strings c.rules.entry),
      ("invalidation",strings c.rules.invalidation),
      ("exit",strings c.rules.exit),
      ("sizing_note",.str (c.rules.sizingNote.getD ""))]),
    ("params",.obj ((c.params.rows.insertionSort fun p q => p.1 ≤ q.1).map fun p =>
      (p.1,.arr [.num (.fin p.2.value),.num (.fin p.2.min),.num (.fin p.2.max),
        .str (p.2.unit.getD "")])))]

def strategyContentHash [Host] (c : Content) : String := Host.sha256Hex c.canonical.jsonText

/-! The strategies the program comes with. -/

def p (value min max : ℚ) (unit note : Option String := none) : StrategyParam :=
  ⟨value,min,max,unit,note⟩

structure BuiltIn extends Content where
  id : String
  status : StrategyStatus

def breakoutRetest : BuiltIn where
  id := "breakout_retest"
  name := "突破-回踩"
  family := .trendContinuation
  status := .paper
  trigger := ⟨["breakout","retest","ema_cross"],"15m",4⟩
  checklist := ⟨["scan_checklist","daily_regime"],["15m","1h","4h"]⟩
  rules :=
    { entry :=
        [ "方向随 1h EMA20/EMA50;4h 反向只许限价回踩、信心 ≤ 0.5。",
          "回踩确认(收在突破位外侧、量比 ≥ retest_vol_min)→ 市价;刚突破未回踩 → 限价挂突破位与 EMA20 之间。",
          "距突破位 > chase_atr_max ATR 或 ATR% < atr_pct_floor 不做;日线 bear 不做多、bull 不做空,range 要量比 ≥ range_vol_min。" ]
      invalidation := ["收盘回到突破位另一侧,或 1h 与 4h 双双转反向。"]
      exit := ["论点未变 HOLD;失效 EXIT;浮盈 ≥ 1R 且结构转弱 REDUCE;挂单远离入场区 INVALIDATE。"]
      sizingNote := some "止损在最近 swing 外 ≥ 0.8 ATR,第一止盈 ≥ 1.5 倍止损。" }
  params := .ofRows [
    ("atr_pct_floor",p 0.4 0.05 2 "%" "判断周期的 ATR% 下限"),
    ("chase_atr_max",p 1.5 0.5 3 "ATR" "距突破位多远就不追"),
    ("retest_vol_min",p 1 0.5 3 "倍" "回踩确认要的量比"),
    ("range_vol_min",p 1.5 1 3 "倍" "日线 range 时突破要的量比"),
    ("breakout_window",p 1 1 24 "根" "突破发生后多少根内,回踩仍然算数")]

def mtfAlignment : BuiltIn where
  id := "mtf_alignment"
  name := "多周期对齐"
  family := .mtf
  status := .backtest
  trigger := ⟨["breakout","retest","ema_cross"],"5m",4⟩
  checklist := ⟨["scan_checklist"],["15m","1h","4h"]⟩
  rules :=
    { entry :=
        [ "5m/15m 出现突破/回踩/EMA 交叉,且 15m 与 1h EMA20/50 同向,方向随之。",
          "4h 只作否决:4h 反向且距 EMA 超 veto_atr ATR 一律不开;4h 同向不算入场理由。",
          "距突破位 ≤ chase_atr_max ATR 才入场,超出只 WATCH。" ]
      invalidation := ["确认周期(15m 或 1h)收盘转反向,或价回到触发位另一侧。"]
      exit := ["确认周期仍同向 HOLD;转向 EXIT;浮盈 ≥ 1R 且 15m 收在 EMA20 另一侧 REDUCE。"]
      sizingNote := some "止损在触发周期 swing 之外(≥ 0.8 ATR),第一止盈 ≥ 1.5R。" }
  params := .ofRows [
    ("confirm_tf_count",p 2 1 3 "个" "要几个确认周期同向"),
    ("veto_atr",p 1 0.3 3 "ATR" "4h 反向多远算否决"),
    ("chase_atr_max",p 1.5 0.5 3 "ATR")]

def volCompressionExpansion : BuiltIn where
  id := "vol_compression_expansion"
  name := "波动压缩→扩张"
  family := .volatility
  status := .backtest
  trigger := ⟨["vol_spike","breakout"],"15m",6⟩
  checklist := ⟨["indicator_snapshot","scan_checklist"],["15m","1h"]⟩
  rules :=
    { entry :=
        [ "先压缩:带宽 90 根分位 ≤ bb_width_rank_max,或 squeeze 连续 ≥ squeeze_bars_min 根。",
          "再扩张:同一根同时突破 + 量比 ≥ vol_spike_min,方向由突破决定。",
          "只做压缩后第一次扩张;已走出 chase_atr_max ATR 不追。" ]
      invalidation := ["revert_bars 根内收回压缩区间且量比 < 1,或收盘回到布林中轨另一侧。"]
      exit := ["量比不衰减且价在带外 HOLD;回中轨 EXIT;浮盈 ≥ 1.5R 且量比 < 1 REDUCE。"]
      sizingNote := some "止损在压缩区间另一端外(≥ 1 ATR);第一止盈 ≥ 2R,靠少数大赢家。" }
  params := .ofRows [
    ("bb_width_rank_max",p 20 5 40 "%" "带宽 90 根分位上限"),
    ("squeeze_bars_min",p 6 3 20 "根" "squeeze 连续根数"),
    ("vol_spike_min",p 1.8 1.2 4 "倍" "扩张那根的量比"),
    ("revert_bars",p 2 1 5 "根" "几根内收回算失效"),
    ("chase_atr_max",p 1.5 0.5 3 "ATR")]

def fundingOiExtreme : BuiltIn where
  id := "funding_oi_extreme"
  name := "资金费率/OI 极值"
  family := .derivatives
  status := .backtest
  trigger := ⟨["funding","fast_move"],"15m",8⟩
  checklist := ⟨["funding_stats","scan_checklist"],["15m","1h","4h"]⟩
  rules :=
    { entry :=
        [ "|费率| ≥ funding_abs_min 且 30 天 z ≥ funding_z_min 才算极值,只看绝对值不算。",
          "fade:正极值 + OI 降 ≥ oi_change_min 做空;负极值 + OI 降做多。",
          "follow:极值但 OI 仍升且 1h/4h 同向 → 只许顺势限价挂回踩。",
          "距结算 minutes_before_funding 分钟内不新开。" ]
      invalidation := ["费率回到 ±0.02% 内而价未跟随,或 OI 回升且价反向走出 1 ATR。"]
      exit := ["费率仍极端且论点未破 HOLD;归一且浮盈 > 0 REDUCE;归一且论点已破 EXIT。"]
      sizingNote := some "条件性策略:止损 ≥ 1.2 ATR,仓位不超常规,第一止盈 1.5R。" }
  params := .ofRows [
    ("funding_abs_min",p 0.05 0.01 0.5 "%" "费率绝对值门槛"),
    ("funding_z_min",p 2 1 4 "σ" "30 天 z-score 门槛"),
    ("oi_change_min",p 1 0.2 10 "%" "OI 1h 变化确认门槛"),
    ("minutes_before_funding",p 30 0 240 "分钟" "结算前多久不开新仓")]

def rangeMeanReversion : BuiltIn where
  id := "range_mean_reversion"
  name := "区间均值回归"
  family := .meanReversion
  status := .backtest
  trigger := ⟨["fast_move","vol_spike","kline_close"],"15m",6⟩
  checklist := ⟨["reversion_stats","indicator_snapshot","daily_regime"],["15m","1h","4h"]⟩
  rules :=
    { entry :=
        [ "只在震荡:日线 range 或 ADX14 < adx_max。",
          "价距 EMA20 ≥ dev_atr_min ATR,反着偏离方向做。",
          "「回归统计」里 horizon_bars 根内回归比例 < min_reversion_prob 不做。",
          "目标 EMA20/VWAP,不加仓摊平。" ]
      invalidation := ["收盘再偏离 0.5 ATR,或 ADX14 升破 25 / 日线转 trend。"]
      exit := ["触及 EMA20 EXIT;超回归中位根数 2 倍未回归 EXIT;浮盈 ≥ 1R 且走完一半 REDUCE。"]
      sizingNote := some "止损在偏离方向再 stop_atr ATR;高胜率低盈亏比,止盈即 EMA20。" }
  params := .ofRows [
    ("dev_atr_min",p 2 1 4 "ATR" "偏离 EMA20 多少个 ATR 才算"),
    -- an empty unit is left out
    ("adx_max",p 20 10 30 none "4h/判断周期 ADX 上限"),
    ("horizon_bars",p 12 4 48 "根" "回归观察窗口"),
    ("min_reversion_prob",p 55 30 90 "%" "历史回归比例下限"),
    ("stop_atr",p 1 0.5 2 "ATR")]

def builtinDefs : List BuiltIn :=
  [breakoutRetest,mtfAlignment,volCompressionExpansion,fundingOiExtreme,rangeMeanReversion]

/-- Version 1 of a strategy the program comes with. -/
def BuiltIn.spec [Host] (b : BuiltIn) : StrategySpec where
  toContent := b.toContent
  id := b.id
  version := 1
  contentHash := strategyContentHash b.toContent
  status := b.status
  evalStats := emptyEvalStats
  labStats := none
  createdAt := 0
  parentVersion := none

def builtinStrategies [Host] : List StrategySpec := builtinDefs.map BuiltIn.spec

end TradeGate.Strategies
