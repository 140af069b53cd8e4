import Mathlib.Data.Int.Order.Lemmas
import Mathlib.Data.List.Sort
import TradeGate.Keyed.Ordered

/-! Spans of time on the clock, and what of a range they leave uncovered. -/
namespace TradeGate.Klines

/-- A closed interval; it is empty when it ends before it starts. -/
structure Span where
  from_ : ℤ
  to_ : ℤ
deriving DecidableEq, Repr

/-- The body of the loop of `mergeSpans`: the last span grows, or the span is appended. -/
def absorb (out : List Span) (s : Span) : List Span :=
  match out.getLast? with
  | some last =>
    if s.from_ ≤ last.to_+1 then out.dropLast++[⟨last.from_,max last.to_ s.to_⟩] else out++[s]
  | none => out++[s]

def mergeSpans (spans : List Span) : List Span :=
  ((spans.filter fun s => s.from_ ≤ s.to_).insertionSort fun a b => a.from_ ≤ b.from_).foldl absorb []

/-- The loop of `missingSpans`: what it has put out, and where its cursor stands. -/
def scanSpans (to_ : ℤ) : List Span → List Span → ℤ → List Span × ℤ
  | [], out, cursor => (out,cursor)
  | s::spans, out, cursor =>
    if s.to_<cursor then scanSpans to_ spans out cursor
    else if to_<s.from_ then (out,cursor)
    else
      let out := if cursor<s.from_ then out++[⟨cursor,min to_ (s.from_-1)⟩] else out
      let cursor := max cursor (s.to_+1)
      if to_<cursor then (out,cursor) else scanSpans to_ spans out cursor

/-- What comes after the last covered span. -/
def closeScan (to_ : ℤ) (r : List Span × ℤ) : List Span := if r.2 ≤ to_ then r.1++[⟨r.2,to_⟩] else r.1

def missingSpans (covered : List Span) (from_ to_ step : ℤ) : List Span :=
  (closeScan to_ (scanSpans to_ (mergeSpans covered) [] from_)).filter fun s => step ≤ s.to_-s.from_

end TradeGate.Klines

/-! The history of bars: paged requests to the exchange, and the cache of a symbol's bars together
with the spans of time that were already asked about. -/
namespace TradeGate.Klines

structure Kline where
  openTime : ℤ
  openPrice : String := ""
  high : String := ""
  low : String := ""
  close : String := ""
  volume : String := ""
  closeTime : ℤ
deriving DecidableEq, Repr

/-- The spans of bars that follow one another without a hole, from the one that began at `start`. -/
def runsFrom (step start : ℤ) (prev : Kline) : List Kline → List Span
  | [] => [⟨start,prev.closeTime⟩]
  | k::ks =>
    if k.openTime-prev.openTime ≠ step then ⟨start,prev.closeTime⟩::runsFrom step k.openTime k ks
    else runsFrom step start k ks

/-- What the bars alone cover: for files without spans. -/
def spansFromBars (bars : List Kline) (step : ℤ) : List Span :=
  mergeSpans (match bars with
    | [] => []
    | k::ks => runsFrom step k.openTime k ks)

/-- A map from the time a bar opens, in the order the keys came. -/
abbrev BarMap := Keyed.Table Kline.openTime

/-- A later bar takes the place of an earlier one that opens at the same time. -/
def mergeBars (a b : List Kline) : List Kline := (Keyed.Table.ofRows (a++b) : BarMap).inOrder

def sliceBars (bars : List Kline) (from_ to_ : ℤ) : List Kline :=
  bars.filter fun k => from_ ≤ k.closeTime ∧ k.openTime ≤ to_

/-- What a request asks for; without an end the latest bars are meant. -/
structure Query where
  limit : ℕ
  endTime : Option ℤ
deriving DecidableEq, Repr

/-- The exchange answers the page of a span, or the request fails. -/
abbrev Server := Span → ℕ → Query → Option (List Kline)

/-- An end of zero is left out of the request. -/
def klinesQuery (limit : ℕ) (endTime : ℤ) : Query := ⟨limit,if endTime=0 then none else some endTime⟩

structure Page where
  bars : List Kline
  reachedStart : Bool
deriving DecidableEq, Repr

/-- The loop of `fetchKlineSpan` with the pages that it may still ask for; the first page has no
earliest bar before it. -/
def walk (get : ℕ → Query → Option (List Kline)) (from_ : ℤ) :
    ℕ → ℕ → BarMap → ℤ → Option ℤ → Option Page
  | 0, _, out, _, _ => some ⟨out.inOrder,false⟩
  | more+1, page, out, end_, prevEarliest =>
    match get page (klinesQuery 1500 end_) with
    | none => none
    | some [] => some ⟨out.inOrder,true⟩
    | some (row::rows) =>
      let out := (row::rows).foldl .upsert out
      let earliest := row.openTime
      if earliest ≤ from_ ∨ ∃ p ∈ prevEarliest, p ≤ earliest then some ⟨out.inOrder,true⟩
      else walk get from_ more (page+1) out (earliest-1) (some earliest)

def fetchKlineSpan (get : ℕ → Query → Option (List Kline)) (from_ to_ : ℤ) : Option Page :=
  walk get from_ 200 0 .empty to_ none

/-- The file of a symbol and a time frame; old files have no spans. -/
structure CacheFile where
  bars : List Kline := []
  ranges : Option (List Span) := none
deriving DecidableEq, Repr

/-- `readCache`, and what of it stands for the spans. -/
def CacheFile.covered (file : CacheFile) (step : ℤ) : List Span :=
  (file.ranges.map mergeSpans).getD (spansFromBars file.bars step)

/-- What a call is given, the clock when it has read the file, and what it meets. -/
structure Call where
  from_ : ℤ
  to_ : ℤ
  now : ℤ
  get : Server
  writable : Bool

/-- How far back a page of bars covers its gap: to its start, or to the first bar that was reached. -/
def Page.left (page : Page) (gap : Span) : ℤ :=
  if page.reachedStart then gap.from_ else (page.bars.head?.map Kline.openTime).getD gap.to_

/-- The loop over the gaps: the bars so far, and the spans that were fetched. -/
def fill (get : Server) (now : ℤ) : List Span → List Kline → List Span → Option (List Kline × List Span)
  | [], bars, fetched => some (bars,fetched)
  | gap::gaps, bars, fetched =>
    match fetchKlineSpan (get gap) gap.from_ gap.to_ with
    | none => none
    | some page =>
      let left := page.left gap
      let right := min gap.to_ (now-1)
      fill get now gaps (mergeBars bars page.bars) (if left ≤ right then fetched++[⟨left,right⟩] else fetched)

/-- What a call answers, and the file as it leaves it. -/
structure Loaded where
  klines : List Kline
  file : Option CacheFile
deriving DecidableEq, Repr

/-- A call that has read the file; the file it writes, if it comes to write one. -/
def loadKlines (step : ℤ) (cache : CacheFile) (call : Call) : Option Loaded :=
  let covered := cache.covered step
  match missingSpans covered call.from_ call.to_ step with
  | [] => some ⟨sliceBars cache.bars call.from_ call.to_,none⟩
  | gap::gaps =>
    match fill call.get call.now (gap::gaps) cache.bars [] with
    | none => none
    | some (bars,fetched) =>
      let file := ⟨bars.filter fun k => k.closeTime<call.now,some (mergeSpans (covered++fetched))⟩
      some ⟨sliceBars bars call.from_ call.to_,if call.writable then some file else none⟩

/-- The file, and the calls that have read it and wait for the exchange. -/
structure Desk where
  file : CacheFile
  waiting : List (CacheFile × Call) := []

inductive Event
  /-- A call reads the file. -/
  | begin (call : Call)
  /-- A waiting call has its answers, or has failed. -/
  | finish (i : ℕ)

/-- Calls of one symbol and time frame run side by side: each writes what it makes of the file that
it has read, whatever was written since. -/
def deskStep (step : ℤ) (desk : Desk) : Event → Desk
  | .begin call => { desk with waiting := desk.waiting++[(desk.file,call)] }
  | .finish i =>
    match desk.waiting[i]? with
    | none => desk
    | some (cache,call) =>
      { file := ((loadKlines step cache call).bind Loaded.file).getD desk.file
        waiting := desk.waiting.eraseIdx i }

end TradeGate.Klines
