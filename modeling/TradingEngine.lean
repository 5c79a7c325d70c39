import TradingEngine.Router.HaltFile
import TradingEngine.Router.WorstCase
import TradingEngine.Router.VenueDay
import TradingEngine.Router.HaltCycle
import TradingEngine.Queue.Family
import TradingEngine.Amm.PayloadCodec
import TradingEngine.Venue.HlPrice
import TradingEngine.Venue.TidRing
import TradingEngine.Venue.OpenOrdersRun
import TradingEngine.Venue.DeadManVenue
import TradingEngine.Venue.DeadManPace
import TradingEngine.Net.WsFramerCuts
import TradingEngine.Pine.Canon
import TradingEngine.PineBroker.Conserved
import TradingEngine.Paper.HeldApart
import TradingEngine.Amm.LongDivisionFacts
import TradingEngine.Paper.StrictRuns
import TradingEngine.Evm.SignedBytes
import TradingEngine.Backtest.Conserved
import TradingEngine.Backtest.ParityRuns
import TradingEngine.Hyparb.Decision
import TradingEngine.Settle.MedianOfMeans
import TradingEngine.Router.HaltMerge
import TradingEngine.BookBuilder.Ladder
import TradingEngine.Spsc.Ring
import TradingEngine.Regime.Efficiency
import TradingEngine.Venue.WireNum
import TradingEngine.Venue.DayFills
import TradingEngine.Twap.Late
import TradingEngine.Time.BarClock
import TradingEngine.Pine.Extreme
import TradingEngine.Pine.Request
