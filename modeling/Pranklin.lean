import Pranklin.Words
import Pranklin.VersionLog
import Pranklin.KeyedList
import Pranklin.Effect
import Pranklin.Storage
import Pranklin.Types
import Pranklin.State
import Pranklin.Orderbook
import Pranklin.Position
import Pranklin.Risk
import Pranklin.Engine
import Pranklin.Liquidation
import Pranklin.Desk
import Pranklin.Steps
import Pranklin.Matching
import Pranklin.Conduct
import Pranklin.Calls
import Pranklin.Consistency
import Pranklin.Priority
import Pranklin.Lifecycle
import Pranklin.Atomicity
import Pranklin.OpenInterest
import Pranklin.Twins
import Pranklin.Frame
import Pranklin.Recovery
import Pranklin.Commit
import Pranklin.Overlay
import Pranklin.Pruning
import Pranklin.StateRoot
import Pranklin.Executor
import Pranklin.Replicas
import Pranklin.History
import Pranklin.Crash
import Pranklin.Restore
import Pranklin.Supply
import Pranklin.Crossing
import Pranklin.Prices
import Pranklin.Transactions
import Pranklin.Nonces
import Pranklin.Follower
import Pranklin.Restart
import Pranklin.Isolation
import Pranklin.PoolNonces
import Pranklin.FundRuns
import Pranklin.AgentReplay
import Pranklin.TxSigning
import Pranklin.EventStores
import Pranklin.Enumeration
import Pranklin.ReduceOnly
import Pranklin.Margins
import Pranklin.Liquidating
import Pranklin.Relief
import Pranklin.Withdrawals
import Pranklin.PostOnly
import Pranklin.Closing
import Pranklin.TakerMargin
import Pranklin.Clearing
import Pranklin.BatchOrder
import Pranklin.Interrupted
import Pranklin.OneSided
import Pranklin.Deleverage
import Pranklin.WalletHash
import Pranklin.Proposal
import Pranklin.EventOrder
import Pranklin.FailedCommit
import Pranklin.Premium
import Pranklin.Accrual
import Pranklin.Shrinking
import Pranklin.SignedTrades
import Pranklin.Snapshots
import Pranklin.SnapshotExport
import Pranklin.OrderLookup
import Pranklin.ReplicaSync
import Pranklin.Accesses
import Pranklin.Declaring
import Pranklin.Ticks
import Pranklin.Tiling
import Pranklin.SyncRanges
import Pranklin.EntryPrice
import Pranklin.StorageKey
import Pranklin.Sourcing
import Pranklin.Journal
import Pranklin.Queries
import Pranklin.Service
import Pranklin.Gate
import Pranklin.Rounds
import Pranklin.Waiting
import Pranklin.Locking
import Pranklin.Handlers
import Pranklin.Lifetime
import Pranklin.Nominations
