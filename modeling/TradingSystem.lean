import TradingSystem.Lib.Circular
import TradingSystem.Lib.Run
import TradingSystem.Lib.Components
import TradingSystem.Lib.StableSort
import TradingSystem.Lib.SortedMap
import TradingSystem.Lib.Numbering
import TradingSystem.Lib.Codec
import TradingSystem.Lib.Framing
import TradingSystem.Lib.Packing
import TradingSystem.Lib.Connection
import TradingSystem.Utils.Types
import TradingSystem.Utils.MemPool
import TradingSystem.Utils.PoolUse
import TradingSystem.Utils.Logger
import TradingSystem.Utils.LinkedCells
import TradingSystem.Utils.SpscQueue
import TradingSystem.Utils.SpscThreads
import TradingSystem.Utils.SpscDrain
import TradingSystem.Utils.SpscUnchecked
import TradingSystem.Exchange.Messages
import TradingSystem.Exchange.MessageCodec
import TradingSystem.Networking.McastSocket
import TradingSystem.Exchange.OrderBook
import TradingSystem.Exchange.Book
import TradingSystem.Exchange.BookInvariant
import TradingSystem.Exchange.BookRep
import TradingSystem.Exchange.RepRemove
import TradingSystem.Exchange.RepMatch
import TradingSystem.Exchange.RepInsert
import TradingSystem.Exchange.Refinement
import TradingSystem.Exchange.Crossing
import TradingSystem.Exchange.Trades
import TradingSystem.Exchange.Fidelity
import TradingSystem.Exchange.Legality
import TradingSystem.Exchange.LifeCycle
import TradingSystem.Exchange.Reference
import TradingSystem.Exchange.PriceTime
import TradingSystem.Exchange.Cancellable
import TradingSystem.Exchange.IdRange
import TradingSystem.Exchange.MatchingEngine
import TradingSystem.Exchange.Structure
import TradingSystem.Exchange.OwnOrder
import TradingSystem.Exchange.AddThenCancel
import TradingSystem.Exchange.BookRenaming
import TradingSystem.Exchange.Feed
import TradingSystem.Exchange.EngineFeed
import TradingSystem.Exchange.TickerBooks
import TradingSystem.Exchange.Answers
import TradingSystem.Exchange.SnapshotSynthetizer
import TradingSystem.Exchange.Recording
import TradingSystem.Exchange.MarketDataPublisher
import TradingSystem.Exchange.IncrementalStream
import TradingSystem.Exchange.SnapshotStream
import TradingSystem.Exchange.FifoSequencer
import TradingSystem.Exchange.OrderServer
import TradingSystem.Networking.TCPSocket
import TradingSystem.Networking.TCPServer
import TradingSystem.Client.MarketDataConsumer
import TradingSystem.Client.MarketDataReceiver
import TradingSystem.Client.Sequence
import TradingSystem.Client.Recovery
import TradingSystem.Client.PrefixState
import TradingSystem.Client.PositionKeeper
import TradingSystem.Client.Positions
import TradingSystem.Client.ProfitAndLoss
import TradingSystem.Client.MarketOrderBook
import TradingSystem.Client.BookSimulation
import TradingSystem.Client.BookRefinement
import TradingSystem.Client.LiveOrders
import TradingSystem.Client.BestBidOffer
import TradingSystem.Client.Replay
import TradingSystem.Client.Clear
import TradingSystem.Client.OrderManager
import TradingSystem.Client.Strategies
import TradingSystem.Client.TradeEngine
import TradingSystem.Client.RandomTrader
import TradingSystem.Client.TradingLoop
import TradingSystem.Client.OrderGateway
import TradingSystem.System.Session
import TradingSystem.System.Agreement
import TradingSystem.System.RequestPath
import TradingSystem.System.ResponsePath
import TradingSystem.System.PollRound
import TradingSystem.System.WireSafety
import TradingSystem.System.MarketView
import TradingSystem.System.Capacity
import TradingSystem.System.Clearing
import TradingSystem.System.ClientBooks
import TradingSystem.System.Market
import TradingSystem.System.MarketData
import TradingSystem.System.Line
import TradingSystem.System.WiredMarket
