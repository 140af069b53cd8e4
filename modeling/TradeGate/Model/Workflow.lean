import TradeGate.Js.Value
import TradeGate.Model.Types

/-! The workflow as an object with keys, and `applyWorkflowPatch`: a patch is read key by key in a fixed
order; each key reports its errors, and a value that is accepted is put under that key only.  The few
steps that look at other keys are written out in their place. -/
namespace TradeGate.Settings
open Js

/-- The value of each key, null where there is none. -/
abbrev Workflow := String → Value

abbrev Patch := List (String × Value)

/-- What a patch says about one key: the errors, and the value where one is given.  The conversion of
an object may throw. -/
abbrev Reading := Except String (List String × Option (Workflow → Value))

/-- One key of the workflow, and how a patch of it is read. -/
structure Field where
  key : String
  read : Value → Reading

def refused (why : String) : Reading := .ok ([why],none)

def given (x : Value) : Reading := .ok ([],some fun _ => x)

def orTypeError {α : Type} (x : Option α) : Except String α :=
  x.elim (.error "Cannot convert object to primitive value") .ok

/-- `String(v)`. -/
def textOf (v : Value) : Except String String := orTypeError v.text?

/-- `Number(v)`. -/
def numberOf (v : Value) : Except String Js.Num := orTypeError v.number?

def rational (q : ℚ) : Value := .num (.fin q)

/-- `Math.round(q)`. -/
def round (q : ℚ) : ℚ := ⌊q+1/2⌋

/-- The elements of an array. -/
def elements : Value → List Value
  | .arr xs => xs
  | _ => []

/-- `xs.slice(0, n)`. -/
def sliceTo {α : Type} (n : Value) (xs : List α) : List α :=
  match n.number? with
  | some (.fin q) => xs.take (if q<0 then xs.length-⌊-q⌋.toNat else ⌊q⌋.toNat)
  | some (.inf negative) => if negative then [] else xs
  | _ => []

/-! Kinds of keys. -/

/-- A number, brought into its bounds. -/
def clamped (key : String) (lo hi : ℚ) (put : ℚ → Value) : Field :=
  ⟨key,fun v => do
    match ← numberOf v with
    | .fin q => given (put (min hi (max lo q)))
    -- an infinite number is no number either
    | _ => refused (key ++ " 必须是数字")⟩

/-- A whole number within bounds. -/
def wholeIn (key : String) (lo hi : ℕ) (v : Value) : Except String (Except String ℚ) := do
  let why := key ++ " 需在 " ++ toString lo ++ "–" ++ toString hi
  match ← numberOf v with
  | .fin q => return if q.den=1 ∧ lo ≤ q ∧ q ≤ hi then .ok q else .error why
  | _ => return .error why

def whole (key : String) (lo hi : ℕ) : Field :=
  ⟨key,fun v => do
    match ← wholeIn key lo hi v with
    | .ok q => given (rational q)
    | .error e => refused e⟩

/-- A time between an hour and thirty days. -/
def interval (key : String) : Field :=
  ⟨key,fun v => do
    let why := key ++ " 需在 1 小时到 30 天之间(毫秒)"
    match ← numberOf v with
    | .fin q =>
      (if 3600000 ≤ q ∧ q ≤ 30*24*3600000 then given (rational (round q)) else refused why : Reading)
    | _ => refused why⟩

def switch (key : String) : Field :=
  ⟨key,fun
    | .bool b => given (.bool b)
    | _ => refused (key ++ " 必须是布尔")⟩

/-- One of a few words. -/
def oneOf (key sep : String) (words : List String) : Field :=
  ⟨key,fun
    | .str s => if s ∈ words then given (.str s) else refused (key ++ " 只能是 " ++ sep.intercalate words)
    | _ => refused (key ++ " 只能是 " ++ sep.intercalate words)⟩

/-- A letter or digit, and at most 79 letters, digits, points, colons, slashes and dashes. -/
def isModelId (s : String) : Bool :=
  match s.toList with
  | [] => false
  | c::cs => c.isAlphanum && cs.length ≤ 79 && cs.all fun c => c.isAlphanum || c ∈ ['.','_',':','/','-']

/-- A model id, or none. -/
def modelId (key example_ : String) : Field :=
  ⟨key,fun
    | .null => given .null
    | .str s =>
      if s="" then given .null
      else if isModelId (trimmed s) then given (.str (trimmed s))
      else refused (key ++ " 只能是模型 id(字母数字 . _ : / -,≤ 80 字符),如 " ++ example_)
    | _ => refused (key ++ " 只能是模型 id(字母数字 . _ : / -,≤ 80 字符),如 " ++ example_)⟩

/-- A list of symbols of the screener. -/
def symbols (key : String) : Field :=
  ⟨key,fun
    | .arr xs =>
      if xs.all fun | .str _ => true | _ => false then
        let list := xs.filterMap fun | .str s => some (upperCase (trimmed s)) | _ => none
        given (.arr (((list.filter fun s => s ≠ "").eraseDups.take 300).map .str))
      else refused (key ++ " 必须是字符串数组")
    | _ => refused (key ++ " 必须是字符串数组")⟩

/-! The keys. -/

/-- `/^[A-Z0-9]{2,20}USDT$/`. -/
def isPerpetual (s : String) : Bool :=
  let cs := s.toList
  let base := cs.take (cs.length-4)
  cs.drop (cs.length-4)="USDT".toList && 2 ≤ base.length && base.length ≤ 20 &&
    base.all fun c => c.isUpper || c.isDigit

/-- The symbols of a proposed list. -/
def perpetuals (raw : List Value) : Except String (List String) := do
  let list ← raw.mapM textOf
  return ((list.map fun s => upperCase (trimmed s)).filter fun s => isPerpetual s).eraseDups

def watchlist : Field :=
  ⟨"watchlist",fun
    | .arr raw => do
      let list ← perpetuals raw
      if list=[] then refused "watchlist 至少一个 USDT 永续,如 BTCUSDT"
      else return ([],some fun w => .arr ((sliceTo (w "watchlist_max") list).map .str))
    | _ => refused "watchlist 必须是数组"⟩

def timeframes : List String := ["1m","3m","5m","15m","30m","1h","4h"]

def timeframe : Field :=
  ⟨"timeframe",fun v => do
    let tf ← textOf v
    if tf ∈ timeframes then given (.str tf)
    else refused ("timeframe 只能是 " ++ "/".intercalate timeframes)⟩

def infoEveryMs : Field := clamped "info_every_ms" 120000 21600000 fun q => rational (round q)

def riskPct : Field := clamped "risk_pct" (1/10) 2 fun q => .str (numberText (round (q*100)/100))

def leverage : Field := clamped "leverage" 1 10 fun q => rational (round q)

def marginMode : Field := oneOf "margin_mode" "/" ["cross","isolated"]

def maxOpenThreads : Field := clamped "max_open_threads" 1 6 fun q => rational (round q)

def maxOpensPerDay : Field := clamped "max_opens_per_day" 1 12 fun q => rational (round q)

def dailyLossStopPct : Field :=
  clamped "daily_loss_stop_pct" (1/2) 20 fun q => .str (numberText (round (q*10)/10))

def autoApprove : Field := switch "auto_approve"

def brains : List String := ["pi","claude","codex","stub"]

def brain (key : String) : Field := oneOf key "/" brains

def brainModel (key : String) : Field := modelId key "zai/glm-5.3 或 sonnet"

def playbookMaxChars : ℕ := 4000

def playbookText : Field :=
  ⟨"playbook_text",fun
    | .str t => given (.str (slice playbookMaxChars t))
    | _ => refused "playbook_text 必须是字符串"⟩

def invalidationConfirmBars : Field := whole "invalidation_confirm_bars" 1 5

def invalidationBufferAtr : Field :=
  clamped "invalidation_buffer_atr" 0 1 fun q => rational (round (q*100)/100)

def screenerMaxSymbols : Field := whole "screener_max_symbols" 1 300

def screenerUniverse : Field :=
  oneOf "screener_universe" " / " ["watchlist+whitelist","top_volume","explicit"]

def screenerApply : Field := oneOf "screener_apply" " / " ["propose","auto"]

/-- The keys before `watchlist_max`, in their order. -/
def firstFields : List Field :=
  [watchlist,timeframe,infoEveryMs,riskPct,leverage,marginMode,maxOpenThreads,maxOpensPerDay,
    dailyLossStopPct,autoApprove,brain "brain",brain "cheap_brain",brainModel "brain_model",
    brainModel "cheap_brain_model",playbookText,invalidationConfirmBars,invalidationBufferAtr,
    switch "screener_enabled",switch "screener_use_brain",switch "screener_expectancy",
    interval "screener_short_every_ms",interval "screener_swing_every_ms",screenerMaxSymbols,
    screenerUniverse,screenerApply,symbols "screener_symbols",symbols "screener_whitelist"]

/-- The symbols that are watched only: those of them that are on the watchlist. -/
def watchOnly : Field :=
  ⟨"watch_only",fun
    | .arr raw => do
      let list ← raw.mapM textOf
      return ([],some fun w => .arr (((list.map fun s => upperCase (trimmed s)).filter fun s =>
        Value.str s ∈ elements (w "watchlist")).eraseDups.map .str))
    | _ => refused "watch_only 必须是数组"⟩

def scanMode : Field := oneOf "scan_mode" "/" ["triggered","every_close"]

def heartbeatEveryMs : Field :=
  clamped "heartbeat_every_ms" 300000 14400000 fun q => rational (round q)

def fastMovePct : Field := clamped "fast_move_pct" (1/5) 5 fun q => .str (numberText (round (q*100)/100))

def execution : Field := oneOf "execution" "/" ["paper","demo","cli","agent_mcp"]

def execAgentCli : Field := oneOf "exec_agent_cli" "/" ["claude","codex"]

def execAgentModel : Field := modelId "exec_agent_model" "sonnet 或 gpt-5.4"

/-- `/^[a-z][a-z0-9_]{1,39}$/`. -/
def isStrategyId (s : String) : Bool :=
  match s.toList with
  | [] => false
  | c::cs => c.isLower && 1 ≤ cs.length && cs.length ≤ 39 && cs.all fun c => c.isLower || c.isDigit || c = '_'

def activeStrategies : Field :=
  ⟨"active_strategies",fun
    | .arr raw => do
      let list := ((← raw.mapM textOf).map trimmed).eraseDups
      let bad := list.filter fun x => !isStrategyId x
      if bad=[] then given (.arr ((list.take 4).map .str))
      else refused ("active_strategies 里不是合法策略 id:" ++ ", ".intercalate bad)
    | _ => refused "active_strategies 必须是数组"⟩

def dailyJudgmentCap : Field := clamped "daily_judgment_cap" 0 5000 fun q => rational (round q)

def cliNames : List String := ["claude","codex","pi"]

/-- Why a launch command is not one. -/
def cliCommandError : Value → Option String
  | .str v =>
    if trimmed v="" then some "不能为空(默认就写 CLI 名字,如 claude)"
    else if 500<lengthOf (trimmed v) then some "太长(最多 500 字符)"
    else if v.toList.any fun c => c = '\r' || c = '\n' then some "只能是一行,不能有换行"
    else none
  | _ => some "必须是字符串"

/-- The error of one launch command, if it has one. -/
def cliError (k : String) (v : Value) : Option String :=
  if k ∈ cliNames then (cliCommandError v).map fun e => "cli_commands." ++ k ++ " " ++ e
  else some ("cli_commands." ++ k ++ " 不认识,只能是 " ++ "/".intercalate cliNames)

/-- `o[k] = v`. -/
def putKey (o : List (String × Value)) (k : String) (v : Value) : List (String × Value) :=
  if k ∈ o.map Prod.fst then o.map fun f => if f.1=k then (k,v) else f else o ++ [(k,v)]

def membersOf : Value → List (String × Value)
  | .obj fields => fields
  | _ => []

def cliCommands : Field :=
  ⟨"cli_commands",fun
    | .obj raw =>
      let good := raw.filterMap fun f => match cliError f.1 f.2,f.2 with
        | none,.str s => some (f.1,Value.str (trimmed s))
        | _,_ => none
      .ok (raw.filterMap fun f => cliError f.1 f.2,
        some fun w => .obj (good.foldl (fun o f => putKey o f.1 f.2) (membersOf (w "cli_commands"))))
    | _ => refused "cli_commands 必须是对象,如 \x7b\"claude\":\"claudeproxy\"\x7d"⟩

/-- The keys after `watch_only`, in their order. -/
def lastFields : List Field :=
  [switch "paused",switch "narrate",switch "chat_requires_approval",scanMode,heartbeatEveryMs,
    fastMovePct,switch "review_every_close",execution,execAgentCli,execAgentModel,activeStrategies,
    dailyJudgmentCap,cliCommands]

/-! The patch. -/

structure Patching where
  next : Workflow
  errors : List String

def applyField (patch : Patch) (p : Patching) (f : Field) : Except String Patching :=
  match field patch f.key with
  | none => .ok p
  | some v => do
    let (errors,value) ← f.read v
    return ⟨value.elim p.next fun x => Function.update p.next f.key (x p.next),p.errors++errors⟩

/-- `watchlist_max`, which cuts a longer watchlist. -/
def applyWatchlistMax (patch : Patch) (p : Patching) : Except String Patching :=
  match field patch "watchlist_max" with
  | none => .ok p
  | some v => do
    match ← wholeIn "watchlist_max" 1 300 v with
    | .error e => return ⟨p.next,p.errors++[e]⟩
    | .ok n =>
      let next := Function.update p.next "watchlist_max" (rational n)
      let list := elements (next "watchlist")
      return ⟨if n<list.length then
          Function.update next "watchlist" (.arr (sliceTo (rational n) list)) else next,p.errors⟩

/-- What is watched only stays on the watchlist. -/
def keepWatched (w : Workflow) : Workflow :=
  Function.update w "watch_only"
    (.arr ((elements (w "watch_only")).filter fun s => s ∈ elements (w "watchlist")))

def applyWorkflowPatch (current : Workflow) (patch : Patch) (now : ℕ) : Except String Patching := do
  let p ← firstFields.foldlM (applyField patch) ⟨current,[]⟩
  let p ← applyWatchlistMax patch p
  let p ← applyField patch p watchOnly
  let p ← lastFields.foldlM (applyField patch) ⟨keepWatched p.next,p.errors⟩
  return ⟨Function.update p.next "updated_at" (rational now),p.errors⟩

/-- The keys of a workflow. -/
def workflowKeys : List String :=
  firstFields.map Field.key ++ ["watchlist_max","watch_only"] ++ lastFields.map Field.key ++
    ["updated_at"]

end TradeGate.Settings
