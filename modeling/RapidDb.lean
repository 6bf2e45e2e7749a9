import RapidDb.Binlog.LogBytes
import RapidDb.Binlog.LogDecode
import RapidDb.Binlog.LogStream
import RapidDb.Binlog.LogTask
import RapidDb.Cache.BufferPool
import RapidDb.Cache.CacheOwner
import RapidDb.Cache.CachePool
import RapidDb.Cache.SizeClass
import RapidDb.Cache.StrBuff
import RapidDb.Core.BranchDivision
import RapidDb.Core.BranchImage
import RapidDb.Core.BranchPage
import RapidDb.Core.BranchSplit
import RapidDb.Core.CoreEnum
import RapidDb.Core.GarbageOwner
import RapidDb.Core.GarbageRuns
import RapidDb.Core.GarbageSave
import RapidDb.Core.HeadPage
import RapidDb.Core.IndexRange
import RapidDb.Core.IndexTree
import RapidDb.Core.KeyOrder
import RapidDb.Core.KeyRuns
import RapidDb.Core.LeafPage
import RapidDb.Core.LeafRecord
import RapidDb.Core.NextPage
import RapidDb.Core.PageSplit
import RapidDb.Core.PageWrite
import RapidDb.Core.PageWriteRuns
import RapidDb.Core.RecordCodec
import RapidDb.Core.RecordFormat
import RapidDb.Core.RecordLayout
import RapidDb.Core.RecordLocks
import RapidDb.Core.RightSibling
import RapidDb.Core.SearchPage
import RapidDb.Core.Separators
import RapidDb.Core.SequenceAppend
import RapidDb.Core.SplitBranch
import RapidDb.Core.SplitLeaf
import RapidDb.Core.StampKeys
import RapidDb.Core.TreeInvariant
import RapidDb.Core.TreeRuns
import RapidDb.Core.TreeSplit
import RapidDb.Core.TreeWalk
import RapidDb.Core.UniqueKey
import RapidDb.Core.UpdateResult
import RapidDb.Core.VersionChain
import RapidDb.Core.VersionLayout
import RapidDb.Core.Visibility
import RapidDb.DataType.DataValue
import RapidDb.DataType.FloatKey
import RapidDb.DataType.KeyColumn
import RapidDb.DataType.TaggedValue
import RapidDb.DataType.TextCopy
import RapidDb.DataType.ValueBuffers
import RapidDb.DataType.ValueColumn
import RapidDb.DataType.ValueConflict
import RapidDb.DataType.ValueOrder
import RapidDb.DataType.VarCharBuilders
import RapidDb.Expr.ArithCalc
import RapidDb.Expr.DataSafety
import RapidDb.Expr.Evaluation
import RapidDb.Expr.EvaluationSafety
import RapidDb.Expr.ExprCalc
import RapidDb.Expr.ExprLogic
import RapidDb.Expr.ExprStatement
import RapidDb.Expr.ExprWhere
import RapidDb.Expr.WhereSplit
import RapidDb.Library.Aligned
import RapidDb.Library.Batches
import RapidDb.Library.BinaryNumber
import RapidDb.Library.BinarySearch
import RapidDb.Library.Buffer
import RapidDb.Library.Bytes
import RapidDb.Library.CString
import RapidDb.Library.Codec
import RapidDb.Library.Comparison
import RapidDb.Library.HeldReferences
import RapidDb.Library.Holders
import RapidDb.Library.LongestMatch
import RapidDb.Library.Neighbours
import RapidDb.Library.Numbering
import RapidDb.Library.OrderedCode
import RapidDb.Library.OrderedSet
import RapidDb.Library.OwnedBlocks
import RapidDb.Library.RefCounts
import RapidDb.Library.Segments
import RapidDb.Library.SeparatorTree
import RapidDb.Library.Spans
import RapidDb.Library.TokenStream
import RapidDb.Library.Transition
import RapidDb.Manager.RemovedTable
import RapidDb.Manager.TableManager
import RapidDb.Pool.CachePagePool
import RapidDb.Pool.PageCount
import RapidDb.Pool.PageEviction
import RapidDb.Pool.PoolManage
import RapidDb.Serv.CacheBinding
import RapidDb.Serv.CacheRuns
import RapidDb.Serv.CleanerLoops
import RapidDb.Serv.DroppedObjects
import RapidDb.Serv.ExprCache
import RapidDb.Serv.ObjectsKept
import RapidDb.Serv.ReclaimRuns
import RapidDb.Serv.Session
import RapidDb.Serv.SessionAdjust
import RapidDb.Serv.SessionAnswers
import RapidDb.Serv.SessionExec
import RapidDb.Serv.SessionStatus
import RapidDb.Serv.TransactionId
import RapidDb.SqlParser.FlexLexer
import RapidDb.SqlParser.Literals
import RapidDb.Statement.ConditionConvert
import RapidDb.Statement.DropDatabase
import RapidDb.Statement.DropRuns
import RapidDb.Statement.InsertRuns
import RapidDb.Statement.InsertStatement
import RapidDb.Statement.LockedRows
import RapidDb.Statement.LockingSelect
import RapidDb.Statement.QueryRange
import RapidDb.Statement.RangeIntersection
import RapidDb.Statement.RangeOutline
import RapidDb.Statement.RangeUnion
import RapidDb.Statement.SelectList
import RapidDb.Statement.SelectLocks
import RapidDb.Table.IndexAction
import RapidDb.Table.IndexedColumns
import RapidDb.Table.PageLoading
import RapidDb.Table.TableData
import RapidDb.Table.TableStorage
import RapidDb.Table.TableTaskMgr
import RapidDb.Utils.BytesFuncs
import RapidDb.Utils.LineQueue
import RapidDb.Utils.RapidQueue
import RapidDb.Utils.SharedSpinMutex
import RapidDb.Utils.TaskPlaces
import RapidDb.Utils.ThreadPool
