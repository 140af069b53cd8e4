import TradeGate.Model.BarMetrics

/-! The verdict on a bar under a set of thresholds. -/
namespace TradeGate.Radar
open Numbers

inductive DailyRegimeKind | bull | bear | range | volatile
deriving DecidableEq

inductive VolMode | current | either
deriving DecidableEq

inductive TrendMode | both | h1Veto
deriving DecidableEq

inductive BreakoutLevel | self | prior
deriving DecidableEq

structure BarThresholds (F : Type) where
  atrFloorMult : ℚ
  chaseAtrMax : F
  retestVolMin : F
  volMode : VolMode
  trendMode : TrendMode
  h4VetoAtr : F
  breakoutLevel : BreakoutLevel
  breakoutWindow : F
  rangeVolMin : F
  fundingAbsMax : F
  requireTrendRegime : Bool
deriving DecidableEq

/-- `pass`, a verdict for each of the conditions. -/
structure Conditions where
  atrOk : Bool
  trendAgree : Bool
  withinChase : Bool
  breakout : Bool
  retestVol : Bool
  fundingOk : Bool
  regimeOk : Bool
deriving DecidableEq

/-- Every one of `CONDITION_KEYS`. -/
def Conditions.all (c : Conditions) : Bool :=
  c.atrOk && c.trendAgree && c.withinChase && c.breakout && c.retestVol && c.fundingOk && c.regimeOk

structure ConditionEval (F : Type) where
  dir : Direction
  dirTrend : Option Direction
  pass : Conditions
  joint : Bool
  distAtr : F
  level : F
  watchEligible : Bool
  retestConfirmed : Bool
deriving DecidableEq

section
variable {F : Type} [Numbers F] (m : BarMetrics F DailyRegimeKind) (th : BarThresholds F)

/-- 4h is against the direction, and far from its average. -/
def vetoed (d : Direction) : Bool :=
  m.dirH4.any (fun d4 => d4 ≠ d) && lt th.h4VetoAtr (m.h4DistAtr.getD (lit 0))

def dirTrend : Option Direction :=
  match th.trendMode with
  | .both => if m.dirH1=m.dirH4 then m.dirH1 else none
  | .h1Veto => m.dirH1.filter fun d => !vetoed m th d

/-- The direction of the trend, or of the nearer extreme. -/
def dirOf : Direction :=
  (dirTrend m th).getD
    (if le (abs (sub m.close m.hi20)) (abs (sub m.close m.lo20)) then .long else .short)

def levelOf (d : Direction) : F :=
  match th.breakoutLevel, d with
  | .self, .long => m.hi20
  | .self, .short => m.lo20
  | .prior, .long => m.hi20Prev
  | .prior, .short => m.lo20Prev

def distAtrOf (d : Direction) : F :=
  if lt (lit 0) m.atr then div (abs (sub m.close (levelOf m th d))) m.atr else infinity

def sinceOf : Direction → ℤ
  | .long => m.barsSinceUp
  | .short => m.barsSinceDown

/-- The break is one of the last bars. -/
def recent (d : Direction) : Bool := decide (0 ≤ sinceOf m d) && lt (lit (sinceOf m d)) th.breakoutWindow

def breakoutOf (d : Direction) : Bool :=
  match th.breakoutLevel, d with
  | .self, .long => lt m.hi20 m.close
  | .self, .short => lt m.close m.lo20
  | .prior, d => recent m th d

def breakVolOf : Direction → Option F
  | .long => m.breakVolUp
  | .short => m.breakVolDown

def volOk (d : Direction) : Bool :=
  le th.retestVolMin m.volRatio ||
    (th.volMode==.either && recent m th d && (breakVolOf m d).any fun v => le th.retestVolMin v)

def regimeOk (d : Direction) : Bool :=
  match m.regime, d with
  | none, _ => !th.requireTrendRegime
  | some .bear, .long | some .bull, .short => false
  | some .bear, .short | some .bull, .long => true
  | some .range, _ => !th.requireTrendRegime && le th.rangeVolMin m.volRatio
  | some .volatile, _ => !th.requireTrendRegime

def passOf (d : Direction) : Conditions where
  atrOk := le (mul m.atrFloor (lit th.atrFloorMult)) m.atrPct
  trendAgree := (dirTrend m th).isSome
  withinChase := le (distAtrOf m th d) th.chaseAtrMax
  breakout := breakoutOf m th d
  retestVol := volOk m th d
  fundingOk := m.fundingAbsPct.all fun v => le v th.fundingAbsMax
  regimeOk := regimeOk m th d

def evaluateBar : ConditionEval F :=
  let dir := dirOf m th
  let pass := passOf m th dir
  let retestConfirmed := pass.breakout && pass.retestVol
  { dir := dir
    dirTrend := dirTrend m th
    pass := pass
    joint := pass.all
    distAtr := distAtrOf m th dir
    level := levelOf m th dir
    watchEligible := (dirTrend m th).isSome && pass.withinChase && !retestConfirmed
    retestConfirmed := retestConfirmed }

end

/-- `CURRENT_THRESHOLDS`. -/
def currentThresholds : BarThresholds Js.Num where
  atrFloorMult := 1
  chaseAtrMax := .fin 1.5
  retestVolMin := .fin 1
  volMode := .current
  trendMode := .both
  h4VetoAtr := .fin 1
  breakoutLevel := .self
  breakoutWindow := .fin 1
  rangeVolMin := .fin 1.5
  fundingAbsMax := .fin 0.05
  requireTrendRegime := false

end TradeGate.Radar
