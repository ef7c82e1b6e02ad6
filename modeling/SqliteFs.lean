import SqliteFs.RealFile
import SqliteFs.Lib.Run
import SqliteFs.Chunks
import SqliteFs.Session
import SqliteFs.Projection
import SqliteFs.Regions
import SqliteFs.OneDatabase
import SqliteFs.Accounting
import SqliteFs.TwoFiles
import SqliteFs.Persistence
import SqliteFs.Recovery
import SqliteFs.Lib.FirstMatch
import SqliteFs.Names
import SqliteFs.Device
import SqliteFs.Registered
import SqliteFs.TwoRecords
import SqliteFs.Containment
import SqliteFs.LiveBytes
import SqliteFs.WideOffsets
import SqliteFs.GrowthLimit
import SqliteFs.Opening
import SqliteFs.ShortReads
import SqliteFs.TwoOpens
import SqliteFs.Lib.LinkedList
import SqliteFs.OpenList
import SqliteFs.OpenHandles
import SqliteFs.Seeking
import SqliteFs.RawWrites
import SqliteFs.Clock
import SqliteFs.PrintBuffer
import SqliteFs.Lib.Splitting
import SqliteFs.StrSplit
import SqliteFs.SplitLaws
import SqliteFs.Lib.Heap
import SqliteFs.Lib.Segment
import SqliteFs.NList
import SqliteFs.DList
import SqliteFs.DListLaws
import SqliteFs.SList
import SqliteFs.SListLaws
import SqliteFs.Lib.StableSort
import SqliteFs.ListSort
import SqliteFs.SortedInsertion
import SqliteFs.Lib.ListFamily
import SqliteFs.ListRuns
import SqliteFs.ListAgreement
import SqliteFs.TimeVal
import SqliteFs.Lib.Pieces
import SqliteFs.ChunkSplits
import SqliteFs.Lib.FaultyProgram
import SqliteFs.Lib.Versions
import SqliteFs.Lib.Transactions
import SqliteFs.Storage
import SqliteFs.PagerState
import SqliteFs.Pager
import SqliteFs.JournalFormat
import SqliteFs.Undoable
import SqliteFs.JournalReading
import SqliteFs.Playback
import SqliteFs.Rollback
import SqliteFs.Durable
import SqliteFs.PagerStates
import SqliteFs.ReadTransactions
import SqliteFs.JournalWriting
import SqliteFs.JournalSyncing
import SqliteFs.WriteTransactions
import SqliteFs.Spilling
import SqliteFs.Commits
import SqliteFs.TransactionEnds
import SqliteFs.PagerSpec
import SqliteFs.PagerRuns
import SqliteFs.PagerSafety
import SqliteFs.Lib.SteadyProgram
import SqliteFs.PagerProgress
import SqliteFs.Lib.Buckets
import SqliteFs.DirtyList
import SqliteFs.MemJournal
import SqliteFs.MemJournalRuns
