import InkCache.Lib.Run
import InkCache.Lib.OrderedMap
import InkCache.Js
import InkCache.Cache
import InkCache.StoreHistory
import InkCache.Proofs.Cache
import InkCache.Proofs.StoreHistory
import InkCache.Proofs.Eviction
import InkCache.Election
import InkCache.Cluster
import InkCache.Lib.Ballot
import InkCache.Proofs.Election
import InkCache.Proofs.Cluster
import InkCache.Proofs.ElectionSafety
import InkCache.Proofs.Promotion
import InkCache.Lib.StableSort
import InkCache.HashRing
import InkCache.Proofs.HashRing
import InkCache.Replication
import InkCache.App
import InkCache.Lib.Delivery
import InkCache.ReplicaPair
import InkCache.Proofs.Replication
import InkCache.Resync
import InkCache.Proofs.Resync
import InkCache.Persistence
import InkCache.Proofs.Persistence
import InkCache.Proofs.Snapshot
import InkCache.Lib.FileSystem
import InkCache.AutoPersist
import InkCache.Proofs.AutoPersist
import InkCache.Gateway
import InkCache.Proofs.Gateway
import InkCache.GatewaySync
import InkCache.Proofs.GatewaySync
import InkCache.Proofs.Deregistration
import InkCache.TwinStores
import InkCache.Proofs.LiveView
import InkCache.Proofs.Cleanup
import InkCache.Lib.Within
import InkCache.Proofs.Inclusion
import InkCache.Mirror
import InkCache.Proofs.Mirror
import InkCache.Fencing
import InkCache.Proofs.Fencing
import InkCache.Deployment
import InkCache.Proofs.Deployment
import InkCache.Restart
import InkCache.Proofs.Restart
import InkCache.Lib.LowerBound
import InkCache.Proofs.RingLookup
import InkCache.Proofs.Observers
import InkCache.Proofs.Restore
import InkCache.Proofs.Policies
import InkCache.Metrics
import InkCache.Proofs.Metrics
import InkCache.Text
import InkCache.GatewayRoutes
import InkCache.Proofs.GatewayRoutes
import InkCache.PrimaryMonitor
import InkCache.Proofs.PrimaryMonitor
import InkCache.ShardedStore
import InkCache.Proofs.ShardedStore
import InkCache.Lib.Delimited
import InkCache.JsonText
import InkCache.Proofs.JsonText
import InkCache.RequestBody
import InkCache.Proofs.Text
import InkCache.Proofs.RequestBody
import InkCache.OpDelivery
import InkCache.Proofs.OpDelivery
import InkCache.Lib.RingBuffer
import InkCache.Proofs.Latency
import InkCache.Lib.FixedWindow
import InkCache.RateLimit
import InkCache.Proofs.RateLimit
import InkCache.Lib.Bigram
import InkCache.AccessPredictor
import InkCache.Proofs.AccessPredictor
import InkCache.Lib.Superseding
import InkCache.Proofs.Announcements
import InkCache.Lib.RoundEven
import InkCache.Terms
import InkCache.Proofs.Terms
import InkCache.MonitorChecks
import InkCache.Proofs.MonitorChecks
import InkCache.Uri
import InkCache.Proofs.Uri
import InkCache.Auth
import InkCache.Proofs.Auth
import InkCache.NodeUrl
import InkCache.Proofs.NodeUrl
import InkCache.Lib.Pattern
import InkCache.KVConsole
import InkCache.Proofs.KVConsole
import InkCache.Lib.Grid
import InkCache.AsciiPlot
import InkCache.Proofs.AsciiPlot
import InkCache.Dashboard
import InkCache.Proofs.Dashboard
import InkCache.Lib.Double
import InkCache.StringNumber
import InkCache.Env
import InkCache.Proofs.Env
import InkCache.Lib.Spread
import InkCache.Convergence
import InkCache.Proofs.Convergence
import InkCache.Proofs.ElectionProgress
import InkCache.Takeover
import InkCache.Proofs.Takeover
import InkCache.NodeServer
import InkCache.Proofs.NodeServer
import InkCache.Proofs.Acknowledged
import InkCache.Proofs.Throttled
import InkCache.Proofs.MetricsHistory
import InkCache.Proofs.WorkingSet
import InkCache.Router
import InkCache.Console
import InkCache.Proofs.Console
