import TradeGate.Agent.Account
import TradeGate.Agent.Extract
import TradeGate.Agent.Transcript
import TradeGate.Approval.Reject
import TradeGate.Approval.Tokens
import TradeGate.Bars.Blind
import TradeGate.Bars.Bounded
import TradeGate.Bars.Cache
import TradeGate.Bars.Exact
import TradeGate.Bars.Live
import TradeGate.Bars.Monotone
import TradeGate.Bars.Profile
import TradeGate.Bars.Psar
import TradeGate.Bars.Ranges
import TradeGate.Bars.Reversion
import TradeGate.Bars.Settled
import TradeGate.Bars.Smooth
import TradeGate.Bars.Spans
import TradeGate.Bars.Supertrend
import TradeGate.Bucket.Budget
import TradeGate.Canonical.Agree
import TradeGate.Canonical.Arrange
import TradeGate.Canonical.Order
import TradeGate.Canonical.Same
import TradeGate.Canonical.Text
import TradeGate.Canonical.Unique
import TradeGate.Chat.Turns
import TradeGate.Client.Stream
import TradeGate.Client.Timeout
import TradeGate.Contracts.Scalars
import TradeGate.Contracts.Transitions
import TradeGate.Coop.Contract
import TradeGate.Coop.Going
import TradeGate.Coop.Guarantee
import TradeGate.Coop.Once
import TradeGate.Custody.Deeds
import TradeGate.Custody.Moves
import TradeGate.Custody.Opening
import TradeGate.Custody.Passes
import TradeGate.Custody.Patrol
import TradeGate.Custody.Plans
import TradeGate.Custody.Requests
import TradeGate.Daemon.Allocation
import TradeGate.Daemon.Bans
import TradeGate.Daemon.Budget
import TradeGate.Daemon.Calls
import TradeGate.Daemon.Decimals
import TradeGate.Daemon.Increments
import TradeGate.Daemon.Metering
import TradeGate.Daemon.Orders
import TradeGate.Daemon.Receipts
import TradeGate.Daemon.Rows
import TradeGate.Daemon.Submission
import TradeGate.Daemon.Waits
import TradeGate.Entry.Atomic
import TradeGate.Entry.Attribution
import TradeGate.Entry.Drawn
import TradeGate.Entry.Flights
import TradeGate.Entry.Freeze
import TradeGate.Entry.InFlight
import TradeGate.Entry.Once
import TradeGate.Execd.Deeds
import TradeGate.Execd.Edges
import TradeGate.Execd.Idempotency
import TradeGate.Execd.PlanHash
import TradeGate.Execd.Policy
import TradeGate.Execd.Rows
import TradeGate.Execd.Store
import TradeGate.Execd.Subscribe
import TradeGate.Execd.Wire
import TradeGate.Feed.Consecutive
import TradeGate.Frames.Chunks
import TradeGate.Frames.Delivery
import TradeGate.Heartbeat.Covered
import TradeGate.Heartbeat.Skipped
import TradeGate.Js.Arith
import TradeGate.Js.Parse
import TradeGate.Js.ReadBack
import TradeGate.Js.Utf8
import TradeGate.Js.Value
import TradeGate.Judgment.Citations
import TradeGate.Judgment.MemoryNumbers
import TradeGate.Judgment.Review
import TradeGate.Judgment.Sizing
import TradeGate.Judgment.Stop
import TradeGate.Judgment.Target
import TradeGate.Judgment.Tick
import TradeGate.Lifecycle.Records
import TradeGate.Lifecycle.Sole
import TradeGate.Lifecycle.Terminal
import TradeGate.Machine.Run
import TradeGate.Model.AccountStream
import TradeGate.Model.Canonical
import TradeGate.Model.ClientOrderId
import TradeGate.Model.Contracts
import TradeGate.Model.ExecClient
import TradeGate.Model.Execd
import TradeGate.Model.Frames
import TradeGate.Model.Heartbeat
import TradeGate.Model.Indicators
import TradeGate.Model.Judgment
import TradeGate.Model.Library
import TradeGate.Model.Orders
import TradeGate.Model.Outcome
import TradeGate.Model.Paper
import TradeGate.Model.Queue
import TradeGate.Model.RateLimit
import TradeGate.Model.RestClient
import TradeGate.Model.Settings
import TradeGate.Model.Workflow
import TradeGate.Number.Decimal
import TradeGate.Number.Lots
import TradeGate.Number.Print
import TradeGate.Origin.Ids
import TradeGate.Origin.Inverse
import TradeGate.Outcome.Coherence
import TradeGate.Outcome.EarlyTarget
import TradeGate.Outcome.Mirror
import TradeGate.Outcome.Paths
import TradeGate.Outcome.Pessimism
import TradeGate.Outcome.Reflection
import TradeGate.Paper.Conservation
import TradeGate.Paper.Lookup
import TradeGate.Paper.Protection
import TradeGate.Paper.Restart
import TradeGate.Queue.Wakeups
import TradeGate.Radar.Apply
import TradeGate.Radar.Opinion
import TradeGate.Series.Causal
import TradeGate.Settings.Bounds
import TradeGate.Settings.Chat
import TradeGate.Settings.Guards
import TradeGate.Settings.Patch
import TradeGate.Settings.Proposals
import TradeGate.Strategies.Ladder
import TradeGate.Strategies.Retirement
import TradeGate.Threads.Basic
import TradeGate.Touch.First
import TradeGate.Daemon.Dialect
import TradeGate.Daemon.Legs
import TradeGate.Daemon.Tunnel
import TradeGate.Coop.Joint
import TradeGate.Custody.Verify
import TradeGate.Model.Verify
import TradeGate.Lifecycle.Copies
