import TradeGate.Js.Arith
import TradeGate.Model.System

/-! What the model says about a symbol: `validateJudgment` reads its output, and `evaluateGates` holds
the judgment against the account and the market before a scan makes a thread of it. -/
namespace TradeGate
open Js

inductive JudgmentAction | noTrade | watch | propose | hold | add | reduce | exit | invalidate
deriving DecidableEq

def JudgmentAction.text : JudgmentAction → String
  | noTrade => "NO_TRADE"
  | watch => "WATCH"
  | propose => "PROPOSE"
  | hold => "HOLD"
  | add => "ADD"
  | reduce => "REDUCE"
  | exit => "EXIT"
  | invalidate => "INVALIDATE"

def judgmentActions : List JudgmentAction :=
  [.noTrade,.watch,.propose,.hold,.add,.reduce,.exit,.invalidate]

/-- The entry that a judgment proposes. -/
structure JudgedProposal where
  direction : Direction
  entry : EntryType
  limitPrice : Option String
  entryZone : Option (String × String)
  stopPrice : String
  takeProfitPrice : Option String
  takeProfits : List String
  rationale : String
deriving DecidableEq

structure Judgment where
  action : JudgmentAction
  direction : Option Direction
  confidence : ℚ
  headline : String
  thesis : String
  reasons : List String
  evidenceRefs : List String
  invalidation : Option String
  invalidationPrice : Option String
  targetPrice : Option String
  watchConditions : List String
  proposal : Option JudgedProposal
  strategyId : Option String
deriving DecidableEq

/-! Reading one value: what it is, and what is wrong with it. -/

def strOrNull (v : Option Value) (name : String) : Option String × List String :=
  match v with
  | none | some .null => (none,[])
  | some (.str s) => (some s,[])
  | some _ => (none,[name ++ " must be string or null"])

/-- `/^\d+(\.\d+)?$/`. -/
def isDecimal (s : String) : Bool :=
  let cs := s.toList
  let rest := cs.dropWhile Char.isDigit
  rest.length<cs.length && match rest with
    | [] => true
    | c::ds => c = '.' && ds ≠ [] && ds.all Char.isDigit

def decimalOrNull (v : Option Value) (name : String) : Option String × List String :=
  let read := fun s => if isDecimal s then (some s,[]) else
    (none,[name ++ " must be a decimal string like \"77650.5\" or null"])
  match v with
  | none | some .null | some (.str "") => (none,[])
  | some (.str s) => read s
  | some (.num x) => read x.text
  | some _ => (none,[name ++ " must be a decimal string like \"77650.5\" or null"])

/-- The texts among the values. -/
def textsAmong (xs : List Value) : List String := xs.filterMap fun | .str s => some s | _ => none

def strArray (v : Option Value) (name : String) (max : ℕ) : List String × List String :=
  match v with
  | none | some .null => ([],[])
  | some (.arr xs) =>
    let out := ((textsAmong xs).map trimmed).filter fun s => s ≠ ""
    (out.take max,if out.length ≠ xs.length then [name ++ " must contain only non-empty strings"] else [])
  | some _ => ([],[name ++ " must be an array of strings"])

/-- A text without blanks at its ends, which must not be empty. -/
def requiredText (v : Option Value) (why : String) : String × List String :=
  let s := match v with
    | some (.str s) => trimmed s
    | _ => ""
  (s,if s="" then [why] else [])

/-! Citations. -/

/-- `E\d+` at the start of the text, and what follows. -/
def evidenceRef : List Char → Option (String × List Char)
  | 'E'::cs =>
    let ds := cs.takeWhile Char.isDigit
    if ds=[] then none else some (String.ofList ('E'::ds),cs.dropWhile Char.isDigit)
  | _ => none

/-- `/E\d+/g`. -/
def refsIn : List Char → List String
  | [] => []
  | c::cs => ((evidenceRef (c::cs)).map Prod.fst).toList ++ refsIn cs

/-- `(?:\]\[(E\d+))*\]`: the last reference, and how many characters it takes. -/
def citationTail : ℕ → List Char → Option (Option String × ℕ)
  | n+1, ']'::cs =>
    let more := match cs with
      | '['::ds => (evidenceRef ds).bind fun (r,rest) =>
        (citationTail n rest).map fun (last,k) => (Option.orElse last fun _ => some r,2+r.length+k)
      | _ => none
    more.orElse fun _ => some (none,1)
  | _, _ => none

/-- `\[(E\d+)(?:\]\[(E\d+))*\]`: what the two groups hold, and how many characters it takes. -/
def citation : List Char → Option (List String × ℕ)
  | '['::ds => (evidenceRef ds).bind fun (r,rest) =>
    (citationTail (rest.length+1) rest).map fun (last,k) => (r::last.toList,1+r.length+k)
  | _ => none

/-- The references of all citations, once `n` characters are skipped. -/
def cited : ℕ → List Char → List String
  | _, [] => []
  | n+1, _::cs => cited n cs
  | 0, c::cs => match citation (c::cs) with
    | some (rs,k) => rs ++ cited (k-1) cs
    | none => cited 0 cs

/-- Every reason cites a registered reference, and no other. -/
def reasonError (validRefs : List String) (i : ℕ) (reason : String) : Option String :=
  if ¬∃ r ∈ refsIn reason.toList, r ∈ validRefs then
    some ("reasons[" ++ toString i ++ "] must end with a citation like [E3] (registered refs only)")
  else if ∃ r ∈ cited 0 reason.toList, r ∉ validRefs then
    some ("reasons[" ++ toString i ++ "] cites an unregistered ref")
  else none

/-! The proposal. -/

/-- The decimals among the take profits. -/
def readTakeProfits (v : Option Value) : List String × List String :=
  match v with
  | some (.arr xs) =>
    let read := xs.zipIdx.map fun (x,i) =>
      decimalOrNull (some x) ("proposal.take_profits[" ++ toString i ++ "]")
    (read.filterMap Prod.fst,read.flatMap Prod.snd)
  | _ => ([],[])

def readEntryZone (v : Option Value) : Option (String × String) × List String :=
  match v with
  | none | some .null => (none,[])
  | some (.arr [x,y]) =>
    let lo := decimalOrNull (some x) "proposal.entry_zone[0]"
    let hi := decimalOrNull (some y) "proposal.entry_zone[1]"
    (lo.1.bind fun l => hi.1.map fun h => if (Js.Num.ofText l).le (Js.Num.ofText h) then (l,h) else (h,l),
      lo.2 ++ hi.2)
  | some _ => (none,["proposal.entry_zone must be [lo, hi] or null"])

def directionOf : Option Value → Option Direction
  | some (.str "long") => some .long
  | some (.str "short") => some .short
  | _ => none

def entryOf : Option Value → Option EntryType
  | some (.str "market") => some .market
  | some (.str "limit") => some .limit
  | _ => none

/-- The proposal of the output.  Of `take_profit_price` and `take_profits`, the one that is missing is
filled from the other. -/
def readProposal (p : List (String × Value)) : Option JudgedProposal × List String :=
  let pd := directionOf (field p "direction")
  let entry := entryOf (field p "entry")
  let stop := decimalOrNull (field p "stop_price") "proposal.stop_price"
  let limit := decimalOrNull (field p "limit_price") "proposal.limit_price"
  let single := decimalOrNull (field p "take_profit_price") "proposal.take_profit_price"
  let targets := readTakeProfits (field p "take_profits")
  let zone := readEntryZone (field p "entry_zone")
  let takeProfits := if targets.1=[] then single.1.toList else targets.1
  let rationale := match field p "rationale" with
    | some (.str s) => s
    | _ => ""
  (pd.bind fun pd => entry.map fun entry =>
    { direction := pd
      entry := entry
      limitPrice := limit.1
      entryZone := zone.1
      stopPrice := stop.1.getD "0"
      takeProfitPrice := single.1.orElse fun _ => takeProfits.head?
      takeProfits := takeProfits.take 3
      rationale := rationale },
    stop.2 ++
    (if pd=none then ["proposal.direction must be \"long\" or \"short\""] else []) ++
    (if entry=none then ["proposal.entry must be \"market\" or \"limit\""] else []) ++
    (if stop.1=none then ["proposal.stop_price is required"] else []) ++
    limit.2 ++
    (if entry=some .limit ∧ limit.1=none then
      ["proposal.limit_price required when entry is \"limit\""] else []) ++
    single.2 ++ targets.2 ++ zone.2)

def readStrategy (v : Option Value) (propose : Prop) [Decidable propose] (allowed : List String) :
    Option String × List String :=
  let id := match v with
    | some (.str s) => if trimmed s="" then none else some (trimmed s)
    | _ => none
  let odd := id=none ∧ v ≠ none ∧ v ≠ some .null ∧ v ≠ some (.str "")
  (id,
    (if odd then ["strategy_id must be a string or null"] else []) ++
    (match id with
     | some s => if allowed ≠ [] ∧ s ∉ allowed then ["strategy_id " ++ s ++
        " is not one of the active strategies (" ++ ", ".intercalate allowed ++ ")"] else []
     | none => []) ++
    (if propose ∧ allowed ≠ [] ∧ id=none then
      ["action PROPOSE requires strategy_id, one of: " ++ ", ".intercalate allowed] else []))

/-- `Number(raw['confidence'])`; the conversion of an object may throw. -/
def readConfidence (v : Option Value) : Except String Js.Num :=
  match v.elim (some .nan) Value.number? with
  | some x => .ok x
  | none => .error "Cannot convert object to primitive value"

/-- What is read, unless something is wrong with the output. -/
def accepted (errors : List String) (j : Option Judgment) : Option Judgment × List String :=
  if errors=[] then (j,[]) else (none,errors)

/-- `validateJudgment`: the judgment, or what is wrong with the output. -/
def validateJudgment (raw : Value) (validRefs allowed : List String) :
    Except String (Option Judgment × List String) :=
  match raw with
  | .obj o => do
    let action := judgmentActions.find? fun a => field o "action"=some (.str a.text)
    let direction := directionOf (field o "direction")
    let confidence ← readConfidence (field o "confidence")
    let headline := requiredText (field o "headline") "headline must be a non-empty string (≤ 40 chars)"
    let thesis := requiredText (field o "thesis") "thesis must be a non-empty string"
    let reasons := strArray (field o "reasons") "reasons" 6
    let refs := strArray (field o "evidence_refs") "evidence_refs" 20
    let badRefs := refs.1.filter fun r => r ∉ validRefs
    let invalidation := strOrNull (field o "invalidation") "invalidation"
    let invalidationPrice := decimalOrNull (field o "invalidation_price") "invalidation_price"
    let targetPrice := decimalOrNull (field o "target_price") "target_price"
    let watch := strArray (field o "watch_conditions") "watch_conditions" 6
    let proposal : Option JudgedProposal × List String := match field o "proposal" with
      | none | some .null => (none,[])
      | some (.obj p) => readProposal p
      | some _ => (none,["proposal must be an object or null"])
    let strategy := readStrategy (field o "strategy_id") (action=some .propose) allowed
    let oddDirection := ∃ p ∈ proposal.1, ∃ d ∈ direction, p.direction ≠ d
    let errors :=
      (if action=none then ["action must be one of " ++
        "|".intercalate (judgmentActions.map JudgmentAction.text)] else []) ++
      (if direction=none ∧ field o "direction" ≠ none ∧ field o "direction" ≠ some .null then
        ["direction must be \"long\", \"short\" or null"] else []) ++
      (match confidence with
       | .fin _ => []
       | _ => ["confidence must be a number between 0 and 1"]) ++
      headline.2 ++ thesis.2 ++ reasons.2 ++
      (if reasons.1=[] then ["reasons must have at least 1 item"] else []) ++
      refs.2 ++
      (if badRefs ≠ [] then ["evidence_refs contains unknown refs: " ++ ", ".intercalate badRefs ++
        " (allowed: " ++ ", ".intercalate validRefs ++ ")"] else []) ++
      (if refs.1=[] then ["evidence_refs must cite at least one E<n> ref"] else []) ++
      (reasons.1.zipIdx.filterMap fun (r,i) => reasonError validRefs i r) ++
      invalidation.2 ++ invalidationPrice.2 ++ targetPrice.2 ++ watch.2 ++ proposal.2 ++ strategy.2 ++
      (if action=some .propose ∧ proposal.1.isNone then
        ["action PROPOSE requires a proposal object"] else []) ++
      (if action=some .propose ∧ oddDirection then
        ["proposal.direction must equal direction"] else [])
    let judgment : Option Judgment := match action,confidence with
      | some a,.fin q => some
          { action := a
            direction := direction.orElse fun _ =>
              if a=.propose then proposal.1.map (·.direction) else none
            confidence := min 1 (max 0 q)
            headline := slice 60 headline.1
            thesis := slice 400 thesis.1
            reasons := reasons.1
            evidenceRefs := refs.1
            invalidation := invalidation.1
            invalidationPrice := invalidationPrice.1
            targetPrice := targetPrice.1
            watchConditions := watch.1
            proposal := if a=.propose then proposal.1 else none
            strategyId := strategy.1 }
      | _,_ => none
    return accepted errors judgment
  | _ => return (none,["output must be a single JSON object"])

/-! Gates. -/

structure GateResult where
  name : String
  passed : Bool
  reason : String

structure MarketSnapshot where
  mark : String
  asOf : ℕ

/-- What the gates look at; `now` is given where the age of the market counts. -/
structure GateContext where
  halted : Bool
  paused : Bool
  account : AccountView
  market : MarketSnapshot
  opensToday : ℕ
  staleRefs : List String
  now : Option ℕ

/-- The part of the configuration that a proposal is held against. -/
structure ProposalLimits where
  maxOpensPerDay : ℕ
  minStopPct : ℚ
  maxStopPct : ℚ

/-- A snapshot older than three minutes cannot back a new position. -/
def marketStaleMs : ℕ := 3*60000

namespace JudgedProposal

/-- The limit price of a limit entry. -/
def limit (p : JudgedProposal) : Option String :=
  if p.entry=.limit then p.limitPrice.filter fun x => x ≠ "" else none

/-- The reference entry price: a marketable limit fills near the mark, so the worse of the two. -/
def entryRef (p : JudgedProposal) (mark : Js.Num) : Js.Num :=
  match p.limit with
  | none => mark
  | some l => match p.direction with
    | .long => (Js.Num.ofText l).min mark
    | .short => (Js.Num.ofText l).max mark

end JudgedProposal

/-- A price on the side of the entry where the position loses. -/
def Direction.lossSide (d : Direction) (price entry : Js.Num) : Prop :=
  match d with
  | .long => price.lt entry
  | .short => entry.lt price

/-- A price on the side of the entry where the position gains. -/
def Direction.profitSide (d : Direction) (price entry : Js.Num) : Prop :=
  match d with
  | .long => entry.lt price
  | .short => price.lt entry

instance (d : Direction) (price entry : Js.Num) : Decidable (d.lossSide price entry) :=
  match d with
  | .long => inferInstanceAs (Decidable (price.lt entry))
  | .short => inferInstanceAs (Decidable (entry.lt price))

instance (d : Direction) (price entry : Js.Num) : Decidable (d.profitSide price entry) :=
  match d with
  | .long => inferInstanceAs (Decidable (entry.lt price))
  | .short => inferInstanceAs (Decidable (price.lt entry))

/-- The gates of the proposal itself: its stop and its target against the reference price. -/
def proposalGates (p : JudgedProposal) (mark : Js.Num) (limits : ProposalLimits) : List GateResult :=
  let stop := Js.Num.ofText p.stopPrice
  let ref := p.entryRef mark
  let dist := ((ref.sub stop).abs.div ref).scale 100
  [ { name := "止损在正确一侧"
      passed := p.direction.lossSide stop ref
      reason := if p.direction.lossSide stop ref then
          (match p.direction with | .long => "做多止损低于" | .short => "做空止损高于") ++ "入场价"
        else "止损 " ++ p.stopPrice ++ " 在入场价 " ++ ref.toFixed 1 ++ " 的错误一侧" },
    { name := "止损距离"
      passed := (Js.Num.fin limits.minStopPct).le dist ∧ dist.le (.fin limits.maxStopPct)
      reason := dist.toFixed 2 ++ "%(允许 " ++ numberText limits.minStopPct ++ "%–" ++
        numberText limits.maxStopPct ++ "%)" } ] ++
  ((p.takeProfitPrice.filter fun x => x ≠ "").map fun target =>
    { name := "止盈在正确一侧"
      passed := p.direction.profitSide (.ofText target) ref
      reason := if p.direction.profitSide (.ofText target) ref then "通过"
        else "止盈 " ++ target ++ " 方向不对" : GateResult }).toList

def evaluateGates (j : Judgment) (ctx : GateContext) (limits : ProposalLimits) : List GateResult :=
  let opening := j.action=.propose ∨ j.action=.add
  let age : ℤ := ctx.now.elim 0 fun now => now-ctx.market.asOf
  let snapshotStale := marketStaleMs<age
  let citesStale := ∃ r ∈ j.evidenceRefs, r ∈ ctx.staleRefs
  [ { name := "紧急停止"
      passed := ¬(ctx.halted ∧ opening)
      reason := if ctx.halted then "系统紧急停止中,不允许开仓" else "未触发" },
    { name := "暂停"
      passed := ¬(ctx.paused ∧ opening)
      reason := if ctx.paused then "已暂停,不开新仓" else "运行中" },
    { name := "证据新鲜度"
      passed := ¬(opening ∧ (citesStale ∨ snapshotStale))
      reason := if ¬opening then "不适用"
        else if snapshotStale then
          "行情快照已过期 " ++ toString ⌊(age : ℚ)/1000+1/2⌋ ++ " 秒,开仓不能用旧价"
        else if citesStale then "开仓判断不能引用过期证据" else "证据与行情都新鲜" } ] ++
  (if j.action=.propose then
    [ { name := "无持仓才能开仓"
        passed := ctx.account.positions=[]
        reason := if ctx.account.positions=[] then "当前无持仓" else "已有持仓" },
      { name := "每日开仓上限"
        passed := ctx.opensToday<limits.maxOpensPerDay
        reason := "今日已开 " ++ toString ctx.opensToday ++ "/" ++ toString limits.maxOpensPerDay } ] ++
    (match j.proposal with
     | some p => proposalGates p (.ofText ctx.market.mark) limits
     | none => []) ++
    [ { name := "信心下限"
        passed := 2/5 ≤ j.confidence
        reason := "信心 " ++ Js.toFixed j.confidence 2 ++ "(需 ≥ 0.40)" } ]
  else []) ++
  (if j.action=.add then
    [ { name := "演示版不加仓", passed := false, reason := "演示版只记录 ADD 建议,不执行" } ]
  else [])

/-- All gates are passed. -/
def Judgment.passes (j : Judgment) (ctx : GateContext) (limits : ProposalLimits) : Prop :=
  ∀ g ∈ evaluateGates j ctx limits, g.passed=true

instance (j : Judgment) (ctx : GateContext) (limits : ProposalLimits) :
    Decidable (j.passes ctx limits) := inferInstanceAs (Decidable (∀ g ∈ _, _))

/-- What an opening takes over of the proposal. -/
def JudgedProposal.order (p : JudgedProposal) : Proposal :=
  ⟨p.direction,p.entry,p.limitPrice,some p.stopPrice⟩

/-- The end of a scan whose judgment proposes an entry. -/
def judgedScan (j : Judgment) (p : JudgedProposal) (ctx : GateContext) (limits : ProposalLimits)
    (symbol : String) (at_ : ℕ) : Operation :=
  .scan symbol at_ p.order p.takeProfits ctx.market.mark (j.passes ctx limits)

end TradeGate
