import EthPipeline.Base.Exec
import EthPipeline.Base.Keyed
import EthPipeline.Base.Binary64
import EthPipeline.Base.Decimal
import EthPipeline.Base.Run
import EthPipeline.Base.Query
import EthPipeline.Base.Selection
import EthPipeline.Base.Feed
import EthPipeline.Base.Timeline
import EthPipeline.Base.TaskGraph
import EthPipeline.Base.Join
import EthPipeline.Base.Grouping
import EthPipeline.Base.Window
import EthPipeline.Base.Ties
import EthPipeline.Base.Paging
import EthPipeline.Base.Distinct
import EthPipeline.Base.Csv
import EthPipeline.Base.Ranking
import EthPipeline.Base.Locks
import EthPipeline.Base.ReadThrough
import EthPipeline.Data.Json
import EthPipeline.Data.IsoText
import EthPipeline.Consumer.Models
import EthPipeline.Consumer.Db
import EthPipeline.Consumer.World
import EthPipeline.Consumer.Main
import EthPipeline.Consumer.Machine
import EthPipeline.Consumer.Flush
import EthPipeline.Consumer.FlushAtomic
import EthPipeline.Consumer.Healthy
import EthPipeline.Consumer.Contents
import EthPipeline.Consumer.Columns
import EthPipeline.Consumer.Refinement
import EthPipeline.Consumer.AtLeastOnce
import EthPipeline.Consumer.TableView
import EthPipeline.Consumer.Replay
import EthPipeline.Consumer.TopicOrder
import EthPipeline.Backend.WhaleAlerts
import EthPipeline.Backend.ConnectionManager
import EthPipeline.Backend.Broadcast
import EthPipeline.Backend.Slots
import EthPipeline.Backend.AlertConsumer
import EthPipeline.Backend.Repositories
import EthPipeline.Backend.Services
import EthPipeline.Backend.WalletHistory
import EthPipeline.Backend.Payloads
import EthPipeline.Backend.Server
import EthPipeline.Backend.Exclusion
import EthPipeline.Backend.CacheAside
import EthPipeline.Backend.RedisFaults
import EthPipeline.Backend.TokenTrends
import EthPipeline.Backend.TokenList
import EthPipeline.Backend.LoadCsv
import EthPipeline.Frontend.WhaleHook
import EthPipeline.Frontend.AlertOrder
import EthPipeline.Frontend.Reconnect
import EthPipeline.Frontend.TokenExplorer
import EthPipeline.Frontend.TokenDirectory
import EthPipeline.Storage.BlockRange
import EthPipeline.Storage.Worker
import EthPipeline.Storage.Extract
import EthPipeline.Storage.Cleanup
import EthPipeline.Storage.TempFiles
import EthPipeline.Storage.RetryReceipts
import EthPipeline.Silver.Tables
import EthPipeline.Silver.TxnEnriched
import EthPipeline.Silver.TokenFlow
import EthPipeline.Silver.WhaleTxns
import EthPipeline.Silver.WhaleSelection
import EthPipeline.Storage.BronzeGate
import EthPipeline.Silver.WhaleTotals
import EthPipeline.Silver.WhaleOrder
import EthPipeline.Silver.Entity
import EthPipeline.Silver.QualityCheck
import EthPipeline.Gold.TopWhalesDaily
import EthPipeline.Gold.TotalsAgree
import EthPipeline.Gold.WhaleLedger
import EthPipeline.Gold.MarketFlowHourly
import EthPipeline.Gold.MarketPressure
import EthPipeline.Gold.TokenFlows
import EthPipeline.Gold.TokenPopularityDaily
import EthPipeline.Gold.TokenPopularityHourly
import EthPipeline.Gold.TokenHours
import EthPipeline.Gold.Load
import EthPipeline.Airflow.Assets
import EthPipeline.Airflow.SilverRun
import EthPipeline.Frontend.TokenScale
import EthPipeline.Address.TokenCollector
import EthPipeline.Address.LabelCollector
import EthPipeline.Address.OneLabel
import EthPipeline.Base.Upsert
import EthPipeline.Base.Processes
import EthPipeline.Base.Traverse
import EthPipeline.Base.TopRows
import EthPipeline.Backend.Catalogue
import EthPipeline.Backend.SearchIndex
import EthPipeline.Backend.TrendingQuery
import EthPipeline.Frontend.Polling
import EthPipeline.Frontend.WalletExplorer
import EthPipeline.Base.Resume
import EthPipeline.Consumer.Announced
import EthPipeline.Frontend.WhalePath
import EthPipeline.Data.DateText
import EthPipeline.Airflow.BronzeRun
import EthPipeline.Airflow.BronzeFolders
import EthPipeline.Backend.Lifespan
import EthPipeline.Backend.GasQuery
import EthPipeline.Base.Rounding
import EthPipeline.Storage.ChainFiles
import EthPipeline.Silver.ChainDay
import EthPipeline.Airflow.SilverOfChain
import EthPipeline.Gold.ChainLedger
import EthPipeline.Gold.ChainMarket
import EthPipeline.Gold.ChainTokens
import EthPipeline.Airflow.GoldOfChain
