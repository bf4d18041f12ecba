import CustomDmq.Lib.Runs
import CustomDmq.Lib.SharedLogs
import CustomDmq.Coordinator
import CustomDmq.GroupOwnership
import CustomDmq.GroupGenerations
import CustomDmq.Disk
import CustomDmq.PartitionLog
import CustomDmq.ConsumerPositions
import CustomDmq.LogStore
import CustomDmq.Metadata
import CustomDmq.Cluster
import CustomDmq.Topics
import CustomDmq.Broker
import CustomDmq.WritePaths
import CustomDmq.ReplicaAgreement
import CustomDmq.ProduceHandlers
import CustomDmq.Replication
import CustomDmq.ReplicationSteps
import CustomDmq.LeaderRecords
import CustomDmq.SingleLeader
import CustomDmq.Quiescence
import CustomDmq.Failover
import CustomDmq.Fencing
import CustomDmq.Leadership
import CustomDmq.ControllerCalls
import CustomDmq.DataDirectory
import CustomDmq.Durability
import CustomDmq.ExactlyOnce
import CustomDmq.LogRecovery
import CustomDmq.LogRoundTrip
import CustomDmq.FailedWrites
import CustomDmq.FsyncCounter
import CustomDmq.FsyncCadence
import CustomDmq.ServedRecords
import CustomDmq.CrashAtomicity
import CustomDmq.FollowerDurability
import CustomDmq.ProducerFailover
import CustomDmq.IdempotentCrash
import CustomDmq.Messages
import CustomDmq.Framing
import CustomDmq.ParserPanics
import CustomDmq.FetchBatches
import CustomDmq.FetchFrames
import CustomDmq.BatchCodecs
import CustomDmq.ClusterInfo
import CustomDmq.ClusterCodecs
import CustomDmq.ClusterClients
import CustomDmq.ClusterSync
import CustomDmq.Dispatcher
import CustomDmq.GroupHeartbeats
import CustomDmq.HandshakeGate
import CustomDmq.PersistentConnections
import CustomDmq.AclRules
import CustomDmq.AccessControl
import CustomDmq.Retention
import CustomDmq.CommittedOffsets
import CustomDmq.TopicDescriptions
import CustomDmq.IdempotencyFiles
import CustomDmq.AuditClient
import CustomDmq.StressFrames
import CustomDmq.FifoQueues
import CustomDmq.PushQueues
import CustomDmq.PushDelivery
import CustomDmq.PushFanOut
import CustomDmq.GroupFiles
import CustomDmq.GroupRestarts
import CustomDmq.AckLedger
import CustomDmq.Lib.Linearizations
import CustomDmq.Server
import CustomDmq.BrokerChanges
import CustomDmq.Linearizability
import CustomDmq.ServerHistories
import CustomDmq.ServerProgress
import CustomDmq.WireServer
import CustomDmq.ClientHandshake
import CustomDmq.FailureDetector
import CustomDmq.SavedBrokers
import CustomDmq.ServerRestarts
import CustomDmq.ServerRetries
