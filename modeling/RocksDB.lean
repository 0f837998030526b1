import RocksDB.Lib.ByteCoding
import RocksDB.Util.Coding
import RocksDB.Util.Crc32c
import RocksDB.Util.Heap
import RocksDB.Table.Format
import RocksDB.Lib.ArrayHeap
import RocksDB.Db.DbFormat
import RocksDB.Db.WriteBatch
import RocksDB.Db.WriteBatchRoundTrip
import RocksDB.Db.VersionEdit
import RocksDB.Db.VersionEditCodec
import RocksDB.Db.VersionBuilder
import RocksDB.Db.VersionBuilderSaveTo
import RocksDB.Lib.Crc32c
import RocksDB.Db.Log
import RocksDB.Db.LogRecycled
import RocksDB.Db.FileIndexer
import RocksDB.Db.FilePicker
import RocksDB.Lib.SortedMultimap
import RocksDB.Db.RangeDelAggregator
import RocksDB.Db.MergeOperator
import RocksDB.Db.InternalIterator
import RocksDB.Db.MergeHelper
import RocksDB.Db.CompactionIterator
import RocksDB.Lib.Fuel
import RocksDB.Db.DBIter
import RocksDB.Lib.BitArray
import RocksDB.Util.Bloom
import RocksDB.Table.BlockBasedFilterBlock
import RocksDB.Utilities.WriteBatchWithIndex
import RocksDB.Util.MurmurHash
import RocksDB.Utilities.Transactions.TransactionLockMgr
import RocksDB.Db.WriteBatchSavePoint
import RocksDB.Db.WriteBatchAppend
import RocksDB.Db.WriteBatchContentFlags
import RocksDB.Lib.Heap
import RocksDB.Lib.CursorList
import RocksDB.Lib.BinaryFloat
import RocksDB.Cache.LRUCache
import RocksDB.Cache.LRUList
import RocksDB.Cache.LRUCacheInvariant
import RocksDB.Lib.SortedList
import RocksDB.Lib.SkipList
import RocksDB.Memtable.InlineSkipList
import RocksDB.Db.MemTable
import RocksDB.Db.MemTableGet
import RocksDB.Table.Block
import RocksDB.Util.Comparator
import RocksDB.Lib.CmpOrder
import RocksDB.Db.InternalKeyComparator
import RocksDB.Db.LogWriterLayout
import RocksDB.Db.LogReadBack
import RocksDB.Lib.MinQueue
import RocksDB.Utilities.Transactions.PreparedHeap
import RocksDB.Lib.Extent
import RocksDB.Util.Arena
import RocksDB.Lib.Chains
import RocksDB.Cache.LRUHandleTable
import RocksDB.Cache.LRUCacheRun
import RocksDB.Lib.WordSum
import RocksDB.Cache.LRUCacheCapacity
import RocksDB.Cache.LRUCachePool
import RocksDB.Table.BlockBuilder
import RocksDB.Table.BlockIter
import RocksDB.Table.BlockIterCursor
import RocksDB.Lib.BinarySearch
import RocksDB.Db.VersionSetOverlap
import RocksDB.Lib.IntervalClosure
import RocksDB.Db.CompactionPicker
import RocksDB.Db.VersionSetLevel0
