import TradeGate.Js.Arith
import TradeGate.Judgment.MemoryNumbers
import TradeGate.Model.Answers
import TradeGate.Model.Settings

/-! The screener from its opportunity cards on: the order of the cards, the pass of a cheap model over
them with its guard, and the candidates and the watchlist that are proposed. -/
namespace TradeGate.Screener
open Js

inductive ScreenHorizon | short | swing | weekly
deriving DecidableEq

def ScreenHorizon.label : ScreenHorizon → String
  | .short => "短线(12h)"
  | .swing => "中线(3d)"
  | .weekly => "周线"

def ScreenHorizon.ttl_ms : ScreenHorizon → ℕ
  | .short => 12*3600000
  | .swing => 72*3600000
  | .weekly => 7*86400000

structure FitExpectancy where
  days : ℕ
  n : ℕ
  expectancy_r : Option ℚ
deriving DecidableEq

structure StrategyFit where
  strategy_id : String
  fit_score : ℚ
  passed : ℕ
  near : ℕ
  total : ℕ
  direction : Option Direction
  reasons : List String
  expectancy : Option FitExpectancy
deriving DecidableEq

structure Breakout where
  dist_long_atr : Option ℚ
  dist_short_atr : Option ℚ
  vol_ratio : Option ℚ
deriving DecidableEq

structure Funding where
  rate_pct : Option ℚ
  z_30d : Option ℚ
deriving DecidableEq

structure OpportunityCard where
  symbol : String
  horizon : ScreenHorizon
  trend : String
  atr_pct : Option ℚ
  atr_pct_rank_90 : Option ℚ
  bb_width_rank_90 : Option ℚ
  squeeze_on : Option Bool
  squeeze_bars : Option ℕ
  breakout : Breakout
  funding : Funding
  daily_regime : Option String
  quote_24h : Option ℚ
  strategies : List StrategyFit
deriving DecidableEq

/-- `buildCard` has the best strategy first. -/
def OpportunityCard.best (c : OpportunityCard) : Option StrategyFit := c.strategies.head?

/-! A card as a line of text. -/

def n2 (v : Option ℚ) : String := v.elim "n/a" fun q => toFixed q 2

def n0 (v : Option ℚ) : String := v.elim "n/a" fun q => toFixed q 0

def bestText (f : Option StrategyFit) : String :=
  f.elim "无" fun f =>
    f.strategy_id ++ "(契合 " ++ toFixed f.fit_score 2 ++ "," ++ toString f.passed ++ "/" ++ toString f.total ++
      " 条通过" ++ f.direction.elim "" (fun d => ",方向 " ++ if d=.long then "多" else "空") ++ ")"

def renderCardLine (c : OpportunityCard) (rank : ℕ) : String :=
  let f := c.strategies.head?
  let others := ((c.strategies.take 3).drop 1).map fun s => s.strategy_id ++ " " ++ toFixed s.fit_score 2
  " | ".intercalate ([
    "#" ++ toString rank ++ " " ++ c.symbol,
    "最佳策略 " ++ bestText f,
    "趋势 " ++ c.trend,
    "ATR% " ++ n2 c.atr_pct ++ "(分位 " ++ n0 c.atr_pct_rank_90 ++ ")",
    "带宽分位 " ++ n0 c.bb_width_rank_90 ++ "%",
    "squeeze " ++ (if c.squeeze_on=some true then "开 " ++ toString (c.squeeze_bars.getD 0) ++ " 根" else "关"),
    "距上沿 " ++ n2 c.breakout.dist_long_atr ++ " ATR / 距下沿 " ++ n2 c.breakout.dist_short_atr ++ " ATR",
    "量比 " ++ n2 c.breakout.vol_ratio,
    "资金费率 " ++ c.funding.rate_pct.elim "n/a" (fun r => toFixed r 4 ++ "%") ++ "(z " ++ n2 c.funding.z_30d ++ ")",
    "日线 " ++ c.daily_regime.getD "n/a"] ++
    ((f.bind StrategyFit.expectancy).filter fun e => 0<e.n).toList.map (fun e =>
      "近 " ++ toString e.days ++ " 天机械期望 " ++ n2 e.expectancy_r ++ "R(" ++ toString e.n ++ " 笔)") ++
    (if others=[] then [] else ["其他策略 " ++ "、".intercalate others]) ++
    (f.toList.filter fun f => f.reasons ≠ []).map fun f => "还差:" ++ ";".intercalate f.reasons)

/-! The guard over the lines of the model. -/

structure BrainLine where
  symbol : String
  strategy_id : String
  why : String
deriving DecidableEq

structure Dropped where
  line : Value
  reason : String
deriving DecidableEq

/-- `String(l[key] ?? '')`. -/
def propText (l : Value) (key : String) : Except String String :=
  let text (v : Value) := v.text?.elim (.error "Cannot convert object to primitive value") .ok
  match l with
  | .null => .error ("Cannot read properties of null (reading '" ++ key ++ "')")
  | .obj fields =>
    match field fields key with
    | none | some .null => .ok ""
    | some v => text v
  | _ => .ok ""

structure Guarded where
  seen : List String := []
  kept : List BrainLine := []
  dropped : List Dropped := []

def Guarded.drop (g : Guarded) (line : Value) (reason : String) : Guarded :=
  { g with dropped := g.dropped ++ [⟨line,reason⟩] }

/-- `symbol:strategy_id`. -/
def BrainLine.key (l : BrainLine) : String := l.symbol ++ ":" ++ l.strategy_id

def Guarded.keep (g : Guarded) (l : BrainLine) : Guarded :=
  { g with seen := g.seen ++ [l.key], kept := g.kept ++ [l] }

/-- A line as it would be kept. -/
def readLine (l : Value) : Except String BrainLine := do
  let symbol := upperCase (← propText l "symbol")
  let strategy_id ← propText l "strategy_id"
  let why := slice 80 (← propText l "why")
  return ⟨symbol,strategy_id,why⟩

def orEmpty (s : String) : String := if s="" then "(空)" else s

/-- The number of a line that the cards do not have. -/
def madeUp (cardsText why : String) : Option String := (numbersIn why).find? fun n => ¬includes cardsText n

def guardLine (cardsText : String) (known : String → Option (List String)) (g : Guarded) (l : Value) :
    Except String Guarded := do
  let line ← readLine l
  return match known line.symbol with
  | none => g.drop l ("卡片里没有 " ++ orEmpty line.symbol)
  | some strategies =>
    if line.strategy_id ∉ strategies then
      g.drop l (line.symbol ++ " 的卡片里没有策略 " ++ orEmpty line.strategy_id)
    else if line.key ∈ g.seen then g.drop l "重复"
    else match madeUp cardsText line.why with
    | some bad => g.drop l ("理由里的数字 " ++ bad ++ " 不在卡片里")
    | none => g.keep line

def guardBrainLines (lines : List Value) (cardsText : String) (known : String → Option (List String)) :
    Except String Guarded :=
  lines.foldlM (guardLine cardsText known) {}

/-! The pass of the model. -/

def BRAIN_TOP_CARDS : ℕ := 25

structure Completion where
  text : String
  model : String
  cost_cny : Option ℚ

/-- What a brain answers to a prompt, or what the call throws. -/
structure Brain where
  name : String
  complete : String → Except String Completion
  /-- What `JSON.parse` throws. -/
  syntaxError : List Char → String

structure BrainPassResult where
  used : Bool
  model : Option String
  cost_cny : Option ℚ
  ranked : List BrainLine
  dropped : List Dropped
  error : Option String

def cardsText (top : List OpportunityCard) : String :=
  "\n".intercalate (top.zipIdx.map fun p => renderCardLine p.1 (p.2+1))

/-- The last card of a symbol says which strategies it has. -/
def knownOf (top : List OpportunityCard) (symbol : String) : Option (List String) :=
  (top.reverse.find? fun c => c.symbol=symbol).map fun c => c.strategies.map StrategyFit.strategy_id

/-- `Array.isArray(parsed.ranked) ? parsed.ranked : []`. -/
def rankedOf : Value → List Value
  | .obj fields =>
    match field fields "ranked" with
    | some (.arr xs) => xs
    | _ => []
  | _ => []

/-- `at_` is the time of the first card as `toISOString` writes it. -/
def prompt (at_ : String) (first : OpportunityCard) (text : String) : String :=
  "\n".intercalate ["当前时间 " ++ at_ ++ ",周期 " ++ first.horizon.label ++ "。","机会卡(已按契合度排序):",text]

def brainPass (brain : Brain) (at_ : String) (cards : List OpportunityCard) : BrainPassResult :=
  let top := cards.take BRAIN_TOP_CARDS
  match top with
  | [] => ⟨false,none,none,[],[],some "没有卡片"⟩
  | first::_ =>
    let text := cardsText top
    let asked : Except String (Completion × Guarded) := do
      let r ← brain.complete (prompt at_ first text)
      let parsed ← Extract.extractJson brain.syntaxError r.text
      let g ← guardBrainLines ((rankedOf parsed).take 10) text (knownOf top)
      return (r,g)
    match asked with
    | .ok (r,g) => ⟨true,some r.model,r.cost_cny,g.kept,g.dropped,none⟩
    | .error e => ⟨true,some brain.name,none,[],[],some (slice 200 e)⟩

/-! A screening. -/

/-- The cards by fit, then by expectancy, then by volume. -/
def ahead (a b : OpportunityCard) : Prop :=
  let fit (c : OpportunityCard) : ℚ := c.best.elim 0 StrategyFit.fit_score
  let expectancy (c : OpportunityCard) : ℚ :=
    ((c.strategies.head?.bind StrategyFit.expectancy).bind FitExpectancy.expectancy_r).getD (-99)
  if fit b ≠ fit a then fit b ≤ fit a
  else if expectancy b ≠ expectancy a then expectancy b ≤ expectancy a
  else b.quote_24h.getD 0 ≤ a.quote_24h.getD 0

instance : DecidableRel ahead := fun _ _ => by unfold ahead; infer_instance

/-- The place that the model gives to a symbol; a later line of the symbol counts. -/
def placeOf (ranked : List BrainLine) (symbol : String) : ℕ :=
  ((ranked.zipIdx.reverse.find? fun p => p.1.symbol=symbol).map Prod.snd).getD 999

def reorder (ranked : List BrainLine) (cards : List OpportunityCard) : List OpportunityCard :=
  if ranked=[] then cards
  else cards.insertionSort fun a b => placeOf ranked a.symbol ≤ placeOf ranked b.symbol

def whyOf (ranked : List BrainLine) (key : String) : Option String :=
  (ranked.reverse.find? fun l => l.key=key).map BrainLine.why

structure WatchCandidate where
  symbol : String
  strategy_id : String
  fit_score : ℚ
  rank : ℕ
  reasons : List String
  card : OpportunityCard
  ttl_at : ℕ
  created_at : ℕ

/-- What the code says of a fit. -/
def plainReasons (best : StrategyFit) : List String :=
  ["契合 " ++ toFixed best.fit_score 2 ++ "(" ++ toString best.passed ++ "/" ++ toString best.total ++ " 条通过" ++
    (if best.near=0 then "" else "," ++ toString best.near ++ " 条差一点") ++ ")"] ++
  ((best.expectancy.filter fun e => 0<e.n).toList.map fun e =>
    "近 " ++ toString e.days ++ " 天机械期望 " ++ n2 e.expectancy_r ++ "R," ++ toString e.n ++ " 笔") ++
  (if best.reasons=[] then [] else ["还差:" ++ ";".intercalate best.reasons])

structure RunScreenDeps where
  horizon : ScreenHorizon
  screener_use_brain : Bool
  watchlist_max : ℕ
  now : ℕ
  /-- The time as `toISOString` writes it. -/
  nowText : String

def candidateOf (deps : RunScreenDeps) (ranked : List BrainLine) (c : OpportunityCard) (best : StrategyFit) (i : ℕ) :
    WatchCandidate where
  symbol := c.symbol
  strategy_id := best.strategy_id
  fit_score := best.fit_score
  rank := i+1
  reasons := plainReasons best ++
    (((whyOf ranked (c.symbol ++ ":" ++ best.strategy_id)).filter fun why => why ≠ "").toList.map fun why => "模型:" ++ why)
  card := c
  ttl_at := deps.now+deps.horizon.ttl_ms
  created_at := deps.now

structure WatchlistProposal where
  symbols : List String
  active_strategies : Keyed.Table (Prod.fst : String × List String → String)
  k : ℕ
  note : String

def proposalOf (deps : RunScreenDeps) (cards : List OpportunityCard) (candidates : List WatchCandidate) :
    WatchlistProposal :=
  let k := max 1 deps.watchlist_max
  let top := candidates.take k
  { symbols := top.map WatchCandidate.symbol
    active_strategies := Keyed.Table.ofRows (top.map fun c =>
      (c.symbol,((c.card.strategies.filter fun s => (1/2 : ℚ) ≤ s.fit_score).take 2).map StrategyFit.strategy_id))
    k := k
    note := deps.horizon.label ++ ":筛了 " ++ toString cards.length ++ " 个币,取契合度前 " ++ toString top.length ++
      " 个。应用只改 watchlist,不动风险/杠杆/执行。" }

structure RunScreenResult where
  cards : List OpportunityCard
  candidates : List WatchCandidate
  proposal : WatchlistProposal
  brain : Option BrainPassResult

def candidatesOf (deps : RunScreenDeps) (ranked : List BrainLine) (cards : List OpportunityCard) : List WatchCandidate :=
  (cards.filterMap fun c => c.best.map fun best => (c,best)).zipIdx.map fun p => candidateOf deps ranked p.1.1 p.1.2 p.2

/-- From the cards that were built. -/
def runScreen (deps : RunScreenDeps) (brain : Option Brain) (built : List OpportunityCard) : RunScreenResult :=
  let sorted := built.insertionSort ahead
  let result := (brain.filter fun _ => deps.screener_use_brain ∧ sorted ≠ []).map fun b => brainPass b deps.nowText sorted
  let ranked := result.elim [] BrainPassResult.ranked
  let cards := reorder ranked sorted
  let candidates := candidatesOf deps ranked cards
  ⟨cards,candidates,proposalOf deps cards candidates,result⟩

end TradeGate.Screener

/-! The proposal of a screening, applied to the watchlist: by the user, who may pick from it, or by the
radar itself. -/
namespace TradeGate.Screens
open Js Settings Screener

inductive ScreenStatus | running | done | failed
deriving DecidableEq

def ScreenStatus.text : ScreenStatus → String
  | running => "running"
  | done => "done"
  | failed => "failed"

structure ScreenRow where
  id : String
  horizon : ScreenHorizon
  started_at : ℕ
  status : ScreenStatus
  proposal : Option WatchlistProposal

/-- `Math.max(1, max)`. -/
def capOf (max_ : Value) : Value :=
  match max_.number? with
  | some (.fin q) => rational (max 1 q)
  | some (.inf negative) => if negative then rational 1 else .num (.inf false)
  | _ => .num .nan

def proposalPatch (p : WatchlistProposal) (max_ : Value) (pick : Option (List String)) (current : List String) :
    List String :=
  match pick with
  | some (s::pick) =>
    sliceTo (capOf max_) (((s::pick).map fun s => upperCase (trimmed s)).eraseDups.filter fun s =>
      s ∈ p.symbols ++ current)
  | _ => sliceTo (capOf max_) p.symbols

inductive Applier | user | auto
deriving DecidableEq

def texts (v : Value) : List String := (elements v).filterMap fun | .str s => some s | _ => none

structure Applied where
  before : List String
  after : List String
deriving DecidableEq

def apply (s : State) (screens : Keyed.Table ScreenRow.id) (screenId : String) (by_ : Applier)
    (pick : Option (List String)) : Except String Applied × State :=
  match screens.lookup screenId with
  | none => (.error ("没有筛选 " ++ screenId),s)
  | some screen =>
    match screen.proposal with
    | none => (.error "这次筛选没有提案",s)
    | some p =>
      if screen.status ≠ .done then (.error ("筛选状态是 " ++ screen.status.text ++ ",不能应用"),s)
      else if screen.started_at+screen.horizon.ttl_ms<s.runtime.now ∧ by_=.auto then
        (.error "提案已过期,自动应用拒绝",s)
      else
        let before := texts (s.workflow "watchlist")
        let list := proposalPatch p (s.workflow "watchlist_max") (if by_=.user then pick else none) before
        match s.setWorkflow [("watchlist",.arr (list.map .str))] with
        | .error e => (.error e,s)
        | .ok (errors,s') =>
          if errors ≠ [] then (.error ("应用失败:" ++ "; ".intercalate errors),s')
          else (.ok ⟨before,texts (s'.workflow "watchlist")⟩,s')

/-- A proposal is applied, at some time. -/
structure Application where
  now : ℕ
  screens : Keyed.Table ScreenRow.id
  screenId : String
  by_ : Applier
  pick : Option (List String)

def step (s : State) (e : Application) : State :=
  (apply { s with runtime := { s.runtime with now := e.now } } e.screens e.screenId e.by_ e.pick).2

end TradeGate.Screens
