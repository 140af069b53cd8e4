import Mathlib.Data.Rat.Floor
import TradeGate.Model.BarMetrics
import TradeGate.Model.VolumeProfile
import TradeGate.Series.Causal

/-! Moving averages.  Every series is aligned to what it is computed from, and no number stands where
there is no value yet. -/
namespace TradeGate.Indicators
open Series Radar Numbers

/-- Square roots. -/
class Roots (F : Type) where
  sqrt : F → F

section
variable {F : Type} [Numbers F]

/-- `a === b`. -/
def same (a b : F) : Bool := le a b && le b a

/-- `-a`. -/
def neg (a : F) : F := sub (lit 0) a

/-- `filled(n)`. -/
def filled (n : ℕ) : List F := List.replicate n nan

/-- The sum and the count of a window. -/
structure Running (F : Type) where
  sum : F
  count : ℕ
deriving DecidableEq

def smaBody (period : ℕ) (values : List F) (i : ℕ) (s : Running F) : Running F × F :=
  let v := values.getD i nan
  -- a hole resets the window
  if !isFinite v then (⟨lit 0,0⟩,nan)
  else
    let sum := add s.sum v
    let count := s.count+1
    let drop := values.getD (i-period) nan
    let s : Running F := if period<count then ⟨sub sum (if isFinite drop then drop else lit 0),period⟩ else ⟨sum,count⟩
    (s,if s.count=period then div s.sum (lit period) else nan)

def sma (values : List F) (period : ℕ) : List F :=
  if period=0 then filled values.length else loop ⟨lit 0,0⟩ (smaBody period) values

/-- The average so far, once there is one, and the seed until then. -/
structure Smoothing (F : Type) where
  prev : Option F
  sum : F
  count : ℕ
deriving DecidableEq

def smoothBody (period : ℕ) (next : F → F → F) (values : List F) (i : ℕ) (s : Smoothing F) : Smoothing F × F :=
  let v := values.getD i nan
  if !isFinite v then (s,nan)
  else
    match s.prev with
    | none =>
      let sum := add s.sum v
      let count := s.count+1
      if count=period then (⟨some (div sum (lit period)),sum,count⟩,div sum (lit period)) else (⟨none,sum,count⟩,nan)
    | some prev => ({ s with prev := some (next prev v) },next prev v)

/-- The loop of `ema` and of `rma`: seeded by the mean of the first values, holes are passed over. -/
def smooth (period : ℕ) (next : F → F → F) (values : List F) : List F :=
  loop ⟨none,lit 0,0⟩ (smoothBody period next) values

def ema (values : List F) (period : ℕ) : List F :=
  if period=0 ∨ values.length<period then filled values.length
  else
    let k := div (lit 2) (lit (period+1))
    smooth period (fun prev v => add (mul v k) (mul prev (sub (lit 1) k))) values

/-- Wilder's smoothing. -/
def rma (values : List F) (period : ℕ) : List F :=
  if period=0 then filled values.length
  else smooth period (fun prev v => div (add (mul prev (lit (period-1))) v) (lit period)) values

/-- The value of a window that is full and has no holes. -/
def overWindow (period : ℕ) (g : List F → F) (values : List F) (i : ℕ) : F :=
  let w := window period values i
  if i+1<period then nan else if w.all isFinite then g w else nan

def wma (values : List F) (period : ℕ) : List F :=
  if period=0 then filled values.length
  else
    let denom := lit (period*(period+1)/2)
    along (overWindow period fun w =>
      div (w.zipIdx.foldl (fun acc p => add acc (mul p.1 (lit (p.2+1)))) (lit 0)) denom) values

/-- A value where both are finite. -/
def both (g : F → F → F) (a b : F) : F := if isFinite a && isFinite b then g a b else nan

def dema (values : List F) (period : ℕ) : List F :=
  let e1 := ema values period
  let e2 := ema e1 period
  List.zipWith (both fun a b => sub (mul (lit 2) a) b) e1 e2

def tema (values : List F) (period : ℕ) : List F :=
  let e1 := ema values period
  let e2 := ema e1 period
  let e3 := ema e2 period
  List.zipWith (fun (p : F × F) c =>
    if isFinite p.1 && isFinite p.2 && isFinite c then add (sub (mul (lit 3) p.1) (mul (lit 3) p.2)) c else nan)
    (e1.zip e2) e3

end

/-- Rolling standard deviation. -/
def stdev {F : Type} [Numbers F] [Roots F] (values : List F) (period : ℕ) : List F :=
  along (overWindow period fun w =>
    let mean := div (w.foldl add (lit 0)) (lit period)
    let acc := w.foldl (fun acc v => add acc (mul (sub v mean) (sub v mean))) (lit 0)
    Roots.sqrt (div acc (lit period))) values

end TradeGate.Indicators

/-! Oscillators, and the lines that add up volume. -/
namespace TradeGate.Indicators
open Series Radar Numbers

section
variable {F : Type} [Numbers F]

def highs (ks : List (Bar F)) : List F := ks.map fun k => k.high
def lows (ks : List (Bar F)) : List F := ks.map fun k => k.low
def closes (ks : List (Bar F)) : List F := ks.map fun k => k.close
def volumes (ks : List (Bar F)) : List F := ks.map fun k => k.volume

def typicalPrices (ks : List (Bar F)) : List F :=
  ks.map fun k => div (add (add k.high k.low) k.close) (lit 3)

/-- The change from the bar before. -/
def change (values : List F) (i : ℕ) : F := sub (values.getD i nan) (values.getD (i-1) nan)

def gains (cl : List F) : List F :=
  along (fun cl i => if i=0 then nan else if lt (lit 0) (change cl i) then change cl i else lit 0) cl

def losses (cl : List F) : List F :=
  along (fun cl i => if i=0 then nan else if lt (change cl i) (lit 0) then neg (change cl i) else lit 0) cl

/-- The share of the gains among gains and losses, in percent. -/
def strength (g l : F) : F :=
  if same l (lit 0) then if same g (lit 0) then lit 50 else lit 100
  else sub (lit 100) (div (lit 100) (add (lit 1) (div g l)))

def rsi (cl : List F) (period : ℕ) : List F :=
  List.zipWith (both strength) (rma (gains cl) period) (rma (losses cl) period)

structure MacdPoint (F : Type) where
  macd : F
  signal : F
  hist : F
deriving DecidableEq

def macd (cl : List F) (fast slow signal : ℕ) : List (MacdPoint F) :=
  let line := List.zipWith (both sub) (ema cl fast) (ema cl slow)
  List.zipWith (fun m s => ⟨m,s,both sub m s⟩) line (ema line signal)

/-- The highest of a window, from below. -/
def highest (w : List F) : F := w.foldl (fun hh v => if lt hh v then v else hh) negInfinity

def lowest (w : List F) : F := w.foldl (fun ll v => if lt v ll then v else ll) infinity

structure StochPoint (F : Type) where
  fastK : F
  k : F
  d : F
deriving DecidableEq

/-- The position of a value between two extremes, in percent. -/
def position (v ll hh : F) : F := if same hh ll then lit 50 else mul (div (sub v ll) (sub hh ll)) (lit 100)

/-- The raw %K over the last `k` bars. -/
def fastK (ks : List (Bar F)) (k : ℕ) : List F :=
  along (fun ks i =>
    let w := window k ks i
    if i+1<k then nan
    else position ((closes ks).getD i nan) (lowest (lows w)) (highest (highs w))) ks

def stochastic (ks : List (Bar F)) (k d smooth : ℕ) : List (StochPoint F) :=
  let fast := fastK ks k
  let slowK := sma fast smooth
  List.zipWith (fun (p : F × F) d => ⟨p.1,p.2,d⟩) (fast.zip slowK) (sma slowK d)

def stochRsi (cl : List F) (period : ℕ) : List F :=
  along (fun r i =>
    let v := r.getD i nan
    let w := (window period r i).filter isFinite
    if !isFinite v || decide (w.length<period) then nan else position v (lowest w) (highest w)) (rsi cl period)

def momentum (cl : List F) (period : ℕ) : List F :=
  along (fun cl i => if i<period then nan else both sub (cl.getD i nan) (cl.getD (i-period) nan)) cl

def roc (cl : List F) (period : ℕ) : List F :=
  along (fun cl i =>
    let base := if period ≤ i then cl.getD (i-period) nan else nan
    if isFinite base && !same base (lit 0) then mul (sub (div (cl.getD i nan) base) (lit 1)) (lit 100) else nan) cl

def trix (cl : List F) (period : ℕ) : List F :=
  along (fun e3 i =>
    let v := e3.getD i nan
    let prev := if 0 < i then e3.getD (i-1) nan else nan
    if isFinite v && isFinite prev && !same prev (lit 0) then mul (div (sub v prev) prev) (lit 100) else nan)
    (ema (ema (ema cl period) period) period)

/-- The bar at a position; there is one wherever it is read. -/
def barAt (ks : List (Bar F)) (i : ℕ) : Bar F :=
  ks.getD i { openPrice := nan, high := nan, low := nan, close := nan, openTime := 0, volume := nan }

def chaikinAd (ks : List (Bar F)) : List F :=
  loop (lit 0) (fun ks i acc =>
    let k := barAt ks i
    let acc := if lt k.low k.high && isFinite k.volume
      then add acc (mul (div (sub (sub k.close k.low) (sub k.high k.close)) (sub k.high k.low)) k.volume) else acc
    (acc,acc)) ks

structure AroonPoint (F : Type) where
  up : F
  down : F
  osc : F
deriving DecidableEq

/-- The first position of the extreme of the window. -/
def freshest (beats : F → F → Bool) (w : List F) : ℕ :=
  (List.range w.length).foldl (fun best j => if beats (w.getD j nan) (w.getD best nan) then j else best) 0

def aroonPoint (period : ℕ) (ks : List (Bar F)) (i : ℕ) : AroonPoint F :=
  if i<period then ⟨nan,nan,nan⟩
  else
    let w := window (period+1) ks i
    let hiIdx := i-period+freshest (fun a b => lt b a) (highs w)
    let loIdx := i-period+freshest lt (lows w)
    let up := mul (div (lit (period-(i-hiIdx))) (lit period)) (lit 100)
    let down := mul (div (lit (period-(i-loIdx))) (lit period)) (lit 100)
    ⟨up,down,sub up down⟩

def aroon (ks : List (Bar F)) (period : ℕ) : List (AroonPoint F) := along (aroonPoint period) ks

def cci (ks : List (Bar F)) (period : ℕ) : List F :=
  along (fun (tps : List (F × F)) i =>
    let p := tps.getD i (nan,nan)
    let m := p.2
    if i+1<period then nan
    else if !isFinite m then nan
    else
      let md := div (((window period tps i).map fun p => p.1).foldl (fun md t => add md (abs (sub t m))) (lit 0))
        (lit period)
      if same md (lit 0) then lit 0 else div (sub p.1 m) (mul (lit 0.015) md))
    ((typicalPrices ks).zip (sma (typicalPrices ks) period))

def williamsR (ks : List (Bar F)) (period : ℕ) : List F :=
  along (fun ks i =>
    let w := window period ks i
    let hh := highest (highs w)
    let ll := lowest (lows w)
    if i+1<period then nan
    else if same hh ll then lit (-50)
    else mul (div (sub hh ((closes ks).getD i nan)) (sub hh ll)) (lit (-100))) ks

/-- The flows of money up and down along a window whose first bar only starts it. -/
def flows (w : List (F × F)) : F × F :=
  (List.range' 1 (w.length-1)).foldl (fun acc j =>
    let p := w.getD j (nan,nan)
    let before := (w.getD (j-1) (nan,nan)).1
    let flow := mul p.1 p.2
    if lt before p.1 then (add acc.1 flow,acc.2) else if lt p.1 before then (acc.1,add acc.2 flow) else acc)
    (lit 0,lit 0)

def mfi (ks : List (Bar F)) (period : ℕ) : List F :=
  along (fun tv i =>
    let f := flows (window (period+1) tv i)
    if i<period then nan else strength f.1 f.2) ((typicalPrices ks).zip (volumes ks))

def obv (ks : List (Bar F)) : List F :=
  loop (lit 0) (fun ks i prev =>
    let d := sub (barAt ks i).close (barAt ks (i-1)).close
    let v := (barAt ks i).volume
    let out := if i=0 then lit 0
      else add prev (if lt (lit 0) d then v else if lt d (lit 0) then neg v else lit 0)
    (out,out)) ks

end
end TradeGate.Indicators

/-! Ranges and channels, the lines that follow a trend, and swings. -/
namespace TradeGate.Indicators
open Series Radar Numbers

section
variable {F : Type} [Numbers F]

def trueRange (ks : List (Bar F)) : List F :=
  along (fun ks i =>
    let h := (barAt ks i).high
    let l := (barAt ks i).low
    let pc := (barAt ks (i-1)).close
    if i=0 then sub h l else max (max (sub h l) (abs (sub h pc))) (abs (sub l pc))) ks

def atr (ks : List (Bar F)) (period : ℕ) : List F := rma (trueRange ks) period

structure BollingerPoint (F : Type) where
  mid : F
  upper : F
  lower : F
  widthPct : F
deriving DecidableEq

def bollinger {F : Type} [Numbers F] [Roots F] (cl : List F) (period : ℕ) (mult : F) : List (BollingerPoint F) :=
  List.zipWith (fun m s =>
    if !isFinite m || !isFinite s then ⟨nan,nan,nan,nan⟩
    else
      let upper := add m (mul mult s)
      let lower := sub m (mul mult s)
      ⟨m,upper,lower,if same m (lit 0) then nan else mul (div (sub upper lower) m) (lit 100)⟩)
    (sma cl period) (stdev cl period)

structure KeltnerPoint (F : Type) where
  mid : F
  upper : F
  lower : F
deriving DecidableEq

def keltner (ks : List (Bar F)) (period : ℕ) (mult : F) : List (KeltnerPoint F) :=
  List.zipWith (fun m v =>
    if !isFinite m || !isFinite v then ⟨nan,nan,nan⟩ else ⟨m,add m (mul mult v),sub m (mul mult v)⟩)
    (ema (closes ks) period) (atr ks period)

structure SqueezePoint where
  on : Bool
  barsOn : ℕ
deriving DecidableEq

def squeeze {F : Type} [Numbers F] [Roots F] (ks : List (Bar F)) (bbPeriod : ℕ) (bbMult : F) (kcPeriod : ℕ)
    (kcMult : F) : List SqueezePoint :=
  loop 0 (fun (bands : List Bool) i run =>
    let on := bands.getD i false
    let run := if on then run+1 else 0
    (run,⟨on,run⟩))
    (List.zipWith (fun (b : BollingerPoint F) (k : KeltnerPoint F) =>
      isFinite b.upper && isFinite k.upper && lt b.upper k.upper && lt k.lower b.lower)
      (bollinger (closes ks) bbPeriod bbMult) (keltner ks kcPeriod kcMult))

structure DonchianPoint (F : Type) where
  upper : F
  lower : F
  mid : F
deriving DecidableEq

def donchian (ks : List (Bar F)) (period : ℕ) : List (DonchianPoint F) :=
  along (fun ks i =>
    let hh := highest (highs (window period ks i))
    let ll := lowest (lows (window period ks i))
    if i+1<period then ⟨nan,nan,nan⟩ else ⟨hh,ll,div (add hh ll) (lit 2)⟩) ks

/-- The move of a bar beyond the one before, on the side on which it is larger. -/
def directional (up : Bool) (ks : List (Bar F)) : List F :=
  along (fun ks i =>
    let rise := sub (barAt ks i).high (barAt ks (i-1)).high
    let fall := sub (barAt ks (i-1)).low (barAt ks i).low
    let mine := if up then rise else fall
    let other := if up then fall else rise
    if i=0 then nan else if lt other mine && lt (lit 0) mine then mine else lit 0) ks

structure AdxPoint (F : Type) where
  adx : F
  plusDi : F
  minusDi : F
deriving DecidableEq

/-- The directional lines of a bar, and how far they are apart. -/
structure DxPoint (F : Type) where
  dx : F
  plusDi : F
  minusDi : F
deriving DecidableEq

def dxPoint (t plus minus : F) : DxPoint F :=
  if !isFinite t || same t (lit 0) then ⟨nan,nan,nan⟩
  else
    let p := mul (div plus t) (lit 100)
    let m := mul (div minus t) (lit 100)
    ⟨if same (add p m) (lit 0) then lit 0 else mul (div (abs (sub p m)) (add p m)) (lit 100),p,m⟩

def dxLines (ks : List (Bar F)) (period : ℕ) : List (DxPoint F) :=
  let smTr := rma ((trueRange ks).set 0 nan) period
  List.zipWith (fun (p : F × F) minus => dxPoint p.1 p.2 minus) (smTr.zip (rma (directional true ks) period))
    (rma (directional false ks) period)

def adx (ks : List (Bar F)) (period : ℕ) : List (AdxPoint F) :=
  let lines := dxLines ks period
  List.zipWith (fun a p => ⟨a,p.plusDi,p.minusDi⟩) (rma (lines.map fun p => p.dx) period) lines

/-- `1` and `-1` of the lines that follow a trend. -/
inductive Dir | up | down
deriving DecidableEq

structure TrendPoint (F : Type) where
  value : F
  dir : Dir
deriving DecidableEq

/-- The final bands of the bar before, the direction, and whether there were bands at all. -/
structure Bands (F : Type) where
  up : F
  dn : F
  dir : Dir
  started : Bool
deriving DecidableEq

def Bands.point (b : Bands F) : TrendPoint F := ⟨match b.dir with | .up => b.dn | .down => b.up,b.dir⟩

/-- The bands of a bar with an average range, from those before. -/
def nextBands (mult v : F) (k : Bar F) (before : F) (s : Bands F) : Bands F :=
  let hl2 := div (add k.high k.low) (lit 2)
  let bUp := add hl2 (mul mult v)
  let bDn := sub hl2 (mul mult v)
  if !s.started then ⟨bUp,bDn,if le hl2 k.close then .up else .down,true⟩
  else
    { up := if lt bUp s.up || lt s.up before then bUp else s.up
      dn := if lt s.dn bDn || lt before s.dn then bDn else s.dn
      dir := if lt s.up k.close then .up else if lt k.close s.dn then .down else s.dir
      started := true }

def supertrendBody (mult : F) (kas : List (Bar F × F)) (i : ℕ) (s : Bands F) : Bands F × TrendPoint F :=
  let v := (kas.map Prod.snd).getD i nan
  if !isFinite v then ({ s with up := nan, dn := nan },⟨nan,.up⟩)
  else
    let s := nextBands mult v (barAt (kas.map Prod.fst) i) (barAt (kas.map Prod.fst) (i-1)).close s
    (s,s.point)

def supertrend (ks : List (Bar F)) (period : ℕ) (mult : F) : List (TrendPoint F) :=
  loop ⟨nan,nan,.up,false⟩ (supertrendBody mult) (ks.zip (atr ks period))

/-- The stop, the extreme point of the trend, and the acceleration. -/
structure Sar (F : Type) where
  dir : Dir
  sar : F
  ep : F
  af : F
deriving DecidableEq

/-- The stop moves towards the extreme point, but not into the two bars before. -/
def Sar.moved (s : Sar F) (before beforeThat : Bar F) : F :=
  let sar := add s.sar (mul s.af (sub s.ep s.sar))
  match s.dir with
  | .up => min (min sar before.low) beforeThat.low
  | .down => max (max sar before.high) beforeThat.high

/-- Before the third bar there is one bar before only. -/
def Sar.movedAt (ks : List (Bar F)) (i : ℕ) (s : Sar F) : F :=
  s.moved (barAt ks (i-1)) (if 2 ≤ i then barAt ks (i-2) else barAt ks (i-1))

/-- A bar against the moved stop. -/
def Sar.next (step max_ : F) (k : Bar F) (sar : F) (s : Sar F) : Sar F :=
  match s.dir with
  | .up =>
    if lt k.low sar then ⟨.down,s.ep,k.low,step⟩
    else if lt s.ep k.high then ⟨.up,sar,k.high,min max_ (add s.af step)⟩
    else { s with sar := sar }
  | .down =>
    if lt sar k.high then ⟨.up,s.ep,k.high,step⟩
    else if lt k.low s.ep then ⟨.down,sar,k.low,min max_ (add s.af step)⟩
    else { s with sar := sar }

def psarBody (step max_ : F) (ks : List (Bar F)) (i : ℕ) (s : Sar F) : Sar F × TrendPoint F :=
  let s := if i=0 then s else s.next step max_ (barAt ks i) (s.movedAt ks i)
  (s,⟨s.sar,s.dir⟩)

/-- The direction of the first two closes. -/
def psarStart (step : F) (ks : List (Bar F)) : Sar F :=
  let first := barAt ks 0
  if le first.close (barAt ks 1).close then ⟨.up,first.low,first.high,step⟩ else ⟨.down,first.high,first.low,step⟩

def psar (ks : List (Bar F)) (step max_ : F) : List (TrendPoint F) :=
  if ks.length<2 then ks.map fun _ => ⟨nan,.up⟩ else loop (psarStart step ks) (psarBody step max_) ks

structure IchimokuPoint (F : Type) where
  tenkan : F
  kijun : F
  senkouA : F
  senkouB : F
  cloudTop : F
  cloudBottom : F
  chikou : F
deriving DecidableEq

def midOf (ks : List (Bar F)) (period : ℕ) : List F :=
  along (fun ks i =>
    let w := window period ks i
    if i+1<period then nan else div (add (highest (highs w)) (lowest (lows w))) (lit 2)) ks

/-- A point without the close that is shifted back to it. -/
def cloudPoint (displacement : ℕ) (lines : List ((F × F) × F × F)) (i : ℕ) : IchimokuPoint F :=
  let none := ((nan,nan),nan,nan)
  let now := lines.getD i none
  let src := if displacement ≤ i then (lines.getD (i-displacement) none).2 else (nan,nan)
  { tenkan := now.1.1
    kijun := now.1.2
    senkouA := now.2.1
    senkouB := now.2.2
    cloudTop := both max src.1 src.2
    cloudBottom := both min src.1 src.2
    chikou := nan }

def ichimoku (ks : List (Bar F)) (conversion base spanB displacement : ℕ) : List (IchimokuPoint F) :=
  let tenkan := midOf ks conversion
  let kijun := midOf ks base
  let senkouA := List.zipWith (both fun a b => div (add a b) (lit 2)) tenkan kijun
  let points := along (cloudPoint displacement) ((tenkan.zip kijun).zip (senkouA.zip (midOf ks spanB)))
  points.zipIdx.map fun p =>
    { p.1 with
      chikou := if p.2+displacement<ks.length then (closes ks).getD (p.2+displacement) nan else nan }

inductive VwapAnchor | session | day | all
deriving DecidableEq

/-- The part of the clock that the average starts anew with. -/
def VwapAnchor.bucket (t : ℚ) : VwapAnchor → ℤ
  | .all => 0
  | .day => ⌊t/86400000⌋
  | .session => ⌊t/28800000⌋

structure Vwap (F : Type) where
  cumPv : F
  cumV : F
  cur : Option ℤ
deriving DecidableEq

def vwapBody (anchor : VwapAnchor) (ks : List (Bar F)) (i : ℕ) (s : Vwap F) : Vwap F × F :=
  let b := anchor.bucket (barAt ks i).openTime
  let s : Vwap F := if s.cur=some b then s else ⟨lit 0,lit 0,some b⟩
  let v := (volumes ks).getD i nan
  let tp := (typicalPrices ks).getD i nan
  let s := if isFinite v && isFinite tp then { s with cumPv := add s.cumPv (mul tp v), cumV := add s.cumV v } else s
  (s,if lt (lit 0) s.cumV then div s.cumPv s.cumV else nan)

def vwap (ks : List (Bar F)) (anchor : VwapAnchor) : List F := loop ⟨lit 0,lit 0,none⟩ (vwapBody anchor) ks

def percentileRank (series : List F) (window : ℕ) : List F :=
  along (fun series i =>
    let cur := series.getD i nan
    let w := (Series.window window series i).filter isFinite
    if !isFinite cur || decide (w.length<5) then nan
    else mul (div (lit (w.countP fun v => le v cur)) (lit w.length)) (lit 100)) series

structure SwingPoints (F : Type) where
  highs : List (ℕ × F)
  lows : List (ℕ × F)
deriving DecidableEq

/-- Every other value around the position is beaten by the one there. -/
def isSwing (beats : F → F → Bool) (values : List F) (left right i : ℕ) : Bool :=
  (List.range' (i-left) (left+right+1)).all fun j =>
    decide (j=i) || !beats (values.getD j nan) (values.getD i nan)

/-- The positions that have their neighbours on both sides. -/
def swings (beats : F → F → Bool) (values : List F) (left right : ℕ) : List (ℕ × F) :=
  ((List.range' left (values.length-right-left)).filter (isSwing beats values left right)).map fun i =>
    (i,values.getD i nan)

def swingPoints (ks : List (Bar F)) (left right : ℕ) : SwingPoints F :=
  ⟨swings (fun a b => le b a) (highs ks) left right,swings le (lows ks) left right⟩

end
end TradeGate.Indicators
