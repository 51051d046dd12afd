import AlephCore.Aggregates.Concurrent
import AlephCore.Aggregates.Convergence
import AlephCore.Aggregates.LazyRefresh
import AlephCore.Db.MessageCounts
import AlephCore.Handlers.Books
import AlephCore.Handlers.FailClosed
import AlephCore.Handlers.ForgetList
import AlephCore.Handlers.ForgetSpec
import AlephCore.Handlers.PostForest
import AlephCore.Handlers.PostPermissions
import AlephCore.Handlers.Rejection
import AlephCore.Handlers.Stages
import AlephCore.Handlers.VmSpec
import AlephCore.Jobs.AccountCosts
import AlephCore.Jobs.Backfill
import AlephCore.Jobs.BackfillPosts
import AlephCore.Jobs.BackfillSpec
import AlephCore.Jobs.BatchRun
import AlephCore.Jobs.Censorship
import AlephCore.Jobs.ChainSync
import AlephCore.Jobs.CrashSafety
import AlephCore.Jobs.Delivery
import AlephCore.Jobs.DuplicateFilter
import AlephCore.Jobs.GarbageCollector
import AlephCore.Jobs.GcSafety
import AlephCore.Jobs.HoldSolvency
import AlephCore.Jobs.Integrity
import AlephCore.Jobs.LatestAmends
import AlephCore.Jobs.MessageProcessor
import AlephCore.Jobs.NoLoss
import AlephCore.Jobs.Tracking
import AlephCore.Jobs.OneStatus
import AlephCore.Jobs.P2pConsumer
import AlephCore.Jobs.PinTracking
import AlephCore.Jobs.Redelivery
import AlephCore.Jobs.Repinning
import AlephCore.Jobs.GracePeriod
import AlephCore.Jobs.VmFiles
import AlephCore.Jobs.VmOwners
import AlephCore.Jobs.VmOwnership
import AlephCore.Jobs.VmVersions
import AlephCore.Lib.CountView
import AlephCore.Lib.Disk
import AlephCore.Lib.Guarantee
import AlephCore.Lib.LruCache
import AlephCore.Lib.SqlText
import AlephCore.Lib.UnixPath
import AlephCore.Services.Cost
import AlephCore.Services.FetchedContent
import AlephCore.Services.SignatureSoundness
import AlephCore.Services.Storage
import AlephCore.Services.StorageSafety
import AlephCore.Web.HistoryQuery
import AlephCore.Web.PostListing
import AlephCore.Web.StorageRefs
import AlephCore.Web.TagReaders
import AlephCore.Web.MessageStatus
import AlephCore.Web.WebSocket
import AlephCore.Jobs.CountRebuild
import AlephCore.Jobs.DerivedRows
import AlephCore.Jobs.StoreChains
import AlephCore.Web.LiveFilter
import AlephCore.Services.Peers
import AlephCore.Jobs.StrandedContent
import AlephCore.Jobs.BatchAuthorization
import AlephCore.Handlers.ParentSize
import AlephCore.Lib.RingWalk
import AlephCore.Services.ResponsibleSet
import AlephCore.Handlers.CreditBalance
import AlephCore.Lib.FixedDecimal
import AlephCore.Services.DeclaredCosts
import AlephCore.Jobs.TextSlices
import AlephCore.Services.GpuTiers
import AlephCore.Handlers.DelegationRule
import AlephCore.Handlers.AddressCase
import AlephCore.Chains.SyncFormat
import AlephCore.Chains.TxPacker
import AlephCore.Chains.RpcFetch
import AlephCore.Chains.Ethereum
import AlephCore.Services.RingChanges
import AlephCore.Lib.TableSum
import AlephCore.Services.WarmCache
import AlephCore.Services.CacheAgreement
import AlephCore.Chains.RpcSync
import AlephCore.Chains.MultiChain
import AlephCore.Chains.TxConfirmation
import AlephCore.Lib.Keyset
import AlephCore.Web.Messages
import AlephCore.Web.MessageCursor
import AlephCore.Jobs.SyncLoops
import AlephCore.Jobs.SyncConfirmations
import AlephCore.Aggregates.MergeLaws
import AlephCore.Lib.BusyFlag
import AlephCore.Jobs.BackfillGuard
import AlephCore.Jobs.BackfillComplete
import AlephCore.Jobs.BalanceTracker
import AlephCore.Lib.Bytes
import AlephCore.Network.Framing
import AlephCore.Network.Connections
import AlephCore.Network.ConnectionSafety
import AlephCore.Db.QueryBuilder
import AlephCore.Db.QueryText
import AlephCore.Lib.OffsetPages
import AlephCore.Web.Listings
import AlephCore.Web.ListingPages
import AlephCore.Lib.Watch
import AlephCore.Jobs.CursorSafety
import AlephCore.Jobs.Retries
import AlephCore.Lib.Broadcast
import AlephCore.Web.LiveStream
import AlephCore.Web.LiveDelivery
import AlephCore.Chains.RpcProvider
import AlephCore.Handlers.OnBehalf
import AlephCore.Jobs.Impersonation
import AlephCore.Services.PeerMonitor
import AlephCore.Lib.Torn
import AlephCore.Services.CachedReads
import AlephCore.Services.TornReads
import AlephCore.Services.CalmReads
import AlephCore.Web.MessageHashes
import AlephCore.Jobs.MessageLog
import AlephCore.Jobs.Resurrection
import AlephCore.Jobs.SecurityFold
