import Mathlib.Data.Rat.Floor
import TradeGate.Model.Outcome

/-! Bars as numbers, and the volume that traded at each price. -/
namespace TradeGate.Indicators

/-- A bar whose strings are already read as numbers. -/
structure Bar (K : Type) extends Kline K where
  openTime : ℚ
  volume : K
deriving DecidableEq

/-- Prices are positive, the low and the high enclose the others, and the volume is not negative. -/
structure Bar.WellFormed (b : Bar ℚ) : Prop extends b.toKline.WellFormed where
  low_pos : 0<b.low
  volume_nonneg : 0 ≤ b.volume

structure Bin where
  price : ℚ
  volume : ℚ
deriving DecidableEq

structure VolumeProfile where
  poc : ℚ
  vah : ℚ
  val : ℚ
  bins : List Bin
deriving DecidableEq

/-- `Math.max(...xs)`, of one number at least. -/
def maxOf : List ℚ → ℚ
  | [] => 0
  | x::xs => xs.foldl max x

def minOf : List ℚ → ℚ
  | [] => 0
  | x::xs => xs.foldl min x

/-- The bin of a price, clamped to those there are. -/
def binOf (lo step : ℚ) (bins : ℕ) (price : ℚ) : ℕ := (max 0 (min (bins-1 : ℤ) ⌊(price-lo)/step⌋)).toNat

/-- The volume of a bar goes evenly to the bins of its range. -/
def spread (lo step : ℚ) (bins : ℕ) (acc : ℕ → ℚ) (k : Bar ℚ) : ℕ → ℚ :=
  if k.volume ≤ 0 then acc
  else
    let from_ := binOf lo step bins k.low
    let to_ := binOf lo step bins k.high
    let share := k.volume/((to_ : ℚ)-from_+1)
    fun b => if from_ ≤ b ∧ b ≤ to_ then acc b+share else acc b

/-- The bins from `loIdx` to `hiIdx`, and what they hold. -/
structure ValueArea where
  loIdx : ℕ
  hiIdx : ℕ
  covered : ℚ
deriving DecidableEq

section
variable (acc : ℕ → ℚ) (bins : ℕ) (target : ℚ)

/-- The condition of the loop. -/
def ValueArea.growing (a : ValueArea) : Bool :=
  decide (a.covered<target) && (decide (0<a.loIdx) || decide (a.hiIdx<bins-1))

/-- The body of the loop takes the fatter of the two neighbours. -/
def ValueArea.widen (a : ValueArea) : ValueArea :=
  let below := if 0<a.loIdx then acc (a.loIdx-1) else -1
  let above := if a.hiIdx<bins-1 then acc (a.hiIdx+1) else -1
  if below ≤ above then { a with hiIdx := a.hiIdx+1, covered := a.covered+max 0 above }
  else { a with loIdx := a.loIdx-1, covered := a.covered+max 0 below }

/-- At most so many rounds of the loop. -/
def ValueArea.grow : ℕ → ValueArea → ValueArea
  | 0, a => a
  | rounds+1, a => if a.growing bins target then grow rounds (a.widen acc bins) else a

end

/-- The grid of the profile: where it starts, how wide a bin is, and what each holds. -/
structure Grid where
  lo : ℚ
  step : ℚ
  acc : ℕ → ℚ

def Grid.priceOf (g : Grid) (b : ℕ) : ℚ := g.lo+g.step*(b+1/2)

/-- The first of the fullest bins. -/
def pocOf (acc : ℕ → ℚ) (bins : ℕ) : ℕ :=
  (List.range' 1 (bins-1)).foldl (fun poc b => if acc poc<acc b then b else poc) 0

/-- The window of `volumeProfile`. -/
def profileWindow (ks : List (Bar ℚ)) (lookback : ℕ) : List (Bar ℚ) := ks.drop (ks.length-max 2 lookback)

def gridOf (win : List (Bar ℚ)) (bins : ℕ) : Grid :=
  let hi := maxOf (win.map fun k => k.high)
  let lo := minOf (win.map fun k => k.low)
  let step := (hi-lo)/bins
  ⟨lo,step,win.foldl (spread lo step bins) fun _ => 0⟩

/-- What the bins hold together. -/
def total (acc : ℕ → ℚ) (bins : ℕ) : ℚ := ((List.range bins).map acc).foldl (· + ·) 0

/-- The value area after at most so many rounds. -/
def areaOf (g : Grid) (bins : ℕ) (valueAreaPct : ℚ) (rounds : ℕ) : ValueArea :=
  let poc := pocOf g.acc bins
  ValueArea.grow g.acc bins (total g.acc bins*valueAreaPct) rounds ⟨poc,poc,g.acc poc⟩

/-- `volumeProfile`, with as many rounds of the growth loop as there are bins. -/
def volumeProfile (ks : List (Bar ℚ)) (bins lookback : ℕ) (valueAreaPct : ℚ) : Option VolumeProfile :=
  let win := profileWindow ks lookback
  if win.length<2 ∨ bins<2 then none
  else if ¬minOf (win.map fun k => k.low) < maxOf (win.map fun k => k.high) then none
  else
    let g := gridOf win bins
    let area := areaOf g bins valueAreaPct bins
    some
      { poc := g.priceOf (pocOf g.acc bins)
        vah := g.lo+g.step*(area.hiIdx+1)
        val := g.lo+g.step*area.loIdx
        bins := (List.range bins).map fun b => ⟨g.priceOf b,g.acc b⟩ }

end TradeGate.Indicators
