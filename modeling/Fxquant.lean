import Fxquant.Library.Runs
import Fxquant.Library.Wakeups
import Fxquant.Common.Market
import Fxquant.Common.Order
import Fxquant.Common.RawOrder
import Fxquant.Common.OrderCalls
import Fxquant.Common.OrderMirror
import Fxquant.Engine.Book
import Fxquant.Ladder.Compute
import Fxquant.Ladder.Strategy
import Fxquant.Engine.BookInvariant
import Fxquant.Ladder.Steps
import Fxquant.Ladder.Reachable
import Fxquant.Ladder.Trading
import Fxquant.Ladder.TradingSpan
import Fxquant.Ladder.NoOrderLost
import Fxquant.Engine.Worth
import Fxquant.Ladder.Cycle
import Fxquant.Ladder.SelfFinancing
import Fxquant.Ladder.Journal
import Fxquant.Ladder.Info
import Fxquant.Ladder.Figures
import Fxquant.Ladder.Exposure
import Fxquant.Ladder.SoftTakeProfit
import Fxquant.Ladder.Gates
import Fxquant.Ladder.NearestLevel
import Fxquant.Ladder.Spread
import Fxquant.Ladder.Levels
import Fxquant.Ladder.Range
import Fxquant.Ladder.Sections
import Fxquant.Ladder.NoSections
import Fxquant.Engine.DefaultStrategy
import Fxquant.Engine.Submission
import Fxquant.Feeder.Feeders
import Fxquant.Feeder.Replay
import Fxquant.Engine.Stats
import Fxquant.Library.Pipeline
import Fxquant.Optimizer
import Fxquant.Engine.Shutdown
import Fxquant.Engine.QueueThread
import Fxquant.Engine.DataEvents
import Fxquant.Ladder.LevelKeys
import Fxquant.Feeder.Candles
import Fxquant.Feeder.TimeFrames
import Fxquant.Feeder.Period
import Fxquant.Feeder.Sleep
import Fxquant.Feeder.Control
import Fxquant.Gui.Context
import Fxquant.Gui.SendBars
import Fxquant.Gui.PendingBars
import Fxquant.Gui.HeldTick
import Fxquant.Engine.BarCollector
import Fxquant.Engine.BarReads
import Fxquant.First.Strategy
import Fxquant.First.Orders
import Fxquant.First.Lines
import Fxquant.First.Backtest
import Fxquant.First.Session
import Fxquant.StrategyGenerator
import Fxquant.First.Generator
import Fxquant.Ladder.Generator
import Fxquant.Ladder.LotsReducer
import Fxquant.Gui.BarHistory
import Fxquant.Gui.OrderHistory
import Fxquant.Gui.LatestInfo
import Fxquant.Gui.Cleanup
import Fxquant.Gui.Publish
import Fxquant.Gui.Framing
import Fxquant.Gui.BrokenWrite
import Fxquant.Gui.Contents
import Fxquant.Gui.SendThread
import Fxquant.Gui.Delivery
import Fxquant.Gui.Drain
import Fxquant.Gui.Broadcast
import Fxquant.Gui.Receiving
import Fxquant.Gui.RecvThread
import Fxquant.Library.Markup
import Fxquant.Library.Scanning
import Fxquant.Library.Streaks
import Fxquant.Library.Digits
import Fxquant.Library.Grid
import Fxquant.Library.StableSort
import Fxquant.Common.Pugixml
import Fxquant.Common.OrderMessage
import Fxquant.Common.OrderRoundTrip
import Fxquant.Common.PriceMessage
import Fxquant.Common.OptionsMessage
import Fxquant.Common.FlatMessage
import Fxquant.Common.InfoMessage
import Fxquant.Common.Event
import Fxquant.Common.SocketWrite
