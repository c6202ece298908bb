import Pantheon.Lib.OrdMap
import Pantheon.Lib.Versions
import Pantheon.Lib.Bytes
import Pantheon.Lib.Runs
import Pantheon.Lib.Program
import Pantheon.Lib.CheckThenAct
import Pantheon.Keystone.InternalKey
import Pantheon.Keystone.MemTable
import Pantheon.Keystone.SSTable
import Pantheon.Lib.Utf8
import Pantheon.Keystone.Wal
import Pantheon.Keystone.WalReplay
import Pantheon.Keystone.ObjectStore
import Pantheon.Keystone.Lsm
import Pantheon.Keystone.Host
import Pantheon.Keystone.Compaction
import Pantheon.Keystone.Wiring
import Pantheon.Keystone.Sources
import Pantheon.Keystone.LiveReads
import Pantheon.Keystone.ReadCorrectness
import Pantheon.Keystone.UnregisteredRead
import Pantheon.Keystone.Recovery
import Pantheon.Keystone.Durability
import Pantheon.Keystone.FailedFlush
import Pantheon.Keystone.CommitSequence
import Pantheon.Keystone.SourceOrder
import Pantheon.Keystone.Replica
import Pantheon.Keystone.SkippedTables
import Pantheon.Keystone.Lease
import Pantheon.Keystone.Fleet
import Pantheon.Keystone.Fencing
import Pantheon.Keystone.SharedTables
import Pantheon.Keystone.BTree
import Pantheon.Keystone.BTreeMap
import Pantheon.Keystone.Scan
import Pantheon.Keystone.Txn
import Pantheon.Keystone.TornReads
import Pantheon.Sql.Ast
import Pantheon.Sql.Value
import Pantheon.Sql.Eval
import Pantheon.Lib.HashTable
import Pantheon.Sql.Join
import Pantheon.Sql.HashJoin
import Pantheon.Sql.Aggregate
import Pantheon.Sql.Window
import Pantheon.Sql.Planner
import Pantheon.Sql.Select
import Pantheon.Wire.Session
import Pantheon.Wire.Pipeline
import Pantheon.Wire.Hpack
import Pantheon.Lib.Frames
import Pantheon.Lib.Bincode
import Pantheon.Keystone.Flux
import Pantheon.Keystone.FluxLog
import Pantheon.Keystone.FluxReopen
import Pantheon.Keystone.Compress
import Pantheon.Keystone.TimeIndex
import Pantheon.Keystone.TimeBuckets
import Pantheon.Keystone.TimeRange
import Pantheon.Keystone.TimeReplay
import Pantheon.Keystone.Jsonb
import Pantheon.Keystone.Canopy
import Pantheon.Spine.AuditLog
import Pantheon.Spine.Appenders
import Pantheon.Spine.TamperEvidence
import Pantheon.Wire.RoleMembers
import Pantheon.Wire.Privileges
import Pantheon.Telos.Disjunctions
import Pantheon.Telos.Emission
import Pantheon.Telos.RenderReadBack
import Pantheon.Sql.RowCodec
import Pantheon.Keystone.LastCommit
import Pantheon.Sql.Dml
import Pantheon.Sql.CopyInsert
import Pantheon.Sql.ExpressionGrammar
import Pantheon.Identity.Recovery
import Pantheon.Identity.DidCommSender
import Pantheon.Identity.SingleUse
import Pantheon.Identity.RefreshRotation
import Pantheon.Keystone.MergeReads
import Pantheon.Keystone.LeaseRenewal
import Pantheon.Keystone.SSTableFormat
import Pantheon.Keystone.FailedWrites
import Pantheon.Keystone.StoredRows
import Pantheon.Sql.RowBuilding
import Pantheon.Sql.StoredTables
import Pantheon.Sql.NotNull
import Pantheon.Sql.RowKeys
import Pantheon.Sql.InsertedRows
import Pantheon.Sql.StatementAtomicity
import Pantheon.Lib.Float64
import Pantheon.Telos.Json
import Pantheon.Sql.WindowFrames
import Pantheon.Sql.Paging
import Pantheon.Sql.RecursiveCte
import Pantheon.Sql.LexedLiterals
import Pantheon.Wire.Portals
import Pantheon.Sql.CopyStream
import Pantheon.Sql.Like
import Pantheon.Sql.IntegerArithmetic
import Pantheon.Sql.StoredValues
import Pantheon.Identity.RepeatedShares
import Pantheon.Telos.Quantifiers
import Pantheon.Telos.Counterexamples
import Pantheon.Telos.JsonTexts
import Pantheon.Telos.FrontEnd
import Pantheon.Identity.StatusList
import Pantheon.Identity.PresentationExchange
import Pantheon.Appfront.CleanupRuns
import Pantheon.Appfront.Reconcile
import Pantheon.Appfront.Store
import Pantheon.Keystone.GraphSearch
import Pantheon.Keystone.GraphComponents
import Pantheon.Keystone.GraphTriangles
import Pantheon.Wire.Codec
import Pantheon.Keystone.Guard
import Pantheon.Wire.ClientRequests
import Pantheon.Wire.ServerReplies
import Pantheon.Wire.Proto
import Pantheon.Wire.GrpcFlow
