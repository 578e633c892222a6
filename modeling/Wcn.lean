import Wcn.Lib.Records
import Wcn.Lib.Runs
import Wcn.Lib.Majority
import Wcn.Lib.Ranking
import Wcn.Lib.Paging
import Wcn.Lib.BitSets
import Wcn.Lib.Loops
import Wcn.Lib.ByteStrings
import Wcn.Lib.OrderedMaps
import Wcn.Lib.IndexMap
import Wcn.Lib.Outcomes
import Wcn.Lib.Postcard
import Wcn.Lib.Codecs
import Wcn.Lib.Exposition
import Wcn.Lib.RoundRobin
import Wcn.Lib.ResultStreams
import Wcn.Lib.EventLog
import Wcn.Lib.Simulations
import Wcn.Lib.Calls
import Wcn.StorageApi
import Wcn.Sharding
import Wcn.Storage.Context
import Wcn.Storage.Grouping
import Wcn.Storage.Writes
import Wcn.Storage.Migration
import Wcn.Storage.Compaction
import Wcn.Storage.Keys
import Wcn.Storage.Engine
import Wcn.Storage.Iterators
import Wcn.Storage.Namespaces
import Wcn.Storage.Export
import Wcn.Storage.Transfer
import Wcn.Storage.Maps
import Wcn.Storage.Refinement
import Wcn.Storage.Values
import Wcn.Client.Encryption
import Wcn.Client.Retries
import Wcn.Rpc.WriteData
import Wcn.Rpc.Throttling
import Wcn.Rpc.Connections
import Wcn.Rpc.ConnectionFilter
import Wcn.Contract.Bitmask
import Wcn.Contract.Cluster
import Wcn.Contract.Transitions
import Wcn.Contract.Invariants
import Wcn.Contract.Keyspaces
import Wcn.Contract.Operators
import Wcn.Contract.Migrations
import Wcn.Contract.Authority
import Wcn.Contract.Enumeration
import Wcn.Cluster.SmartContract
import Wcn.Cluster.NodeOperators
import Wcn.Cluster.View
import Wcn.Cluster.Snapshot
import Wcn.Cluster.Events
import Wcn.Cluster.Tracking
import Wcn.Cluster.Follow
import Wcn.Cluster.Replay
import Wcn.Cluster.Sync
import Wcn.Cluster.MigrationIds
import Wcn.Cluster.Stored
import Wcn.Cluster.CatchUp
import Wcn.Cluster.LoadBalancing
import Wcn.Cluster.Plans
import Wcn.Cluster.Operations
import Wcn.Cluster.Settings
import Wcn.Cluster.OnChainSettings
import Wcn.Cluster.OperatorData
import Wcn.Cluster.Versions
import Wcn.Cluster.Routing
import Wcn.Replication.Coordinator
import Wcn.Replication.Tally
import Wcn.Replication.Reconcile
import Wcn.Replication.Reply
import Wcn.Replication.ReadRepair
import Wcn.Replication.Repairs
import Wcn.Replication.Visibility
import Wcn.Replication.Replica
import Wcn.Replication.Dispatch
import Wcn.Replication.Scan
import Wcn.Migration.Handover
import Wcn.Migration.Exchange
import Wcn.Migration.Survival
import Wcn.Network.Isolation
import Wcn.StorageApi.Rpc
import Wcn.Network.Services
import Wcn.Client.Selection
import Wcn.Migration.Manager
import Wcn.Migration.Shutdown
import Wcn.Migration.Completion
import Wcn.Metrics.Aggregator
