import Scroller.Lib.Machine
import Scroller.Store
import Scroller.Cluster
import Scroller.Proof.IhashIteration
import Scroller.Proof.IcacheRun
import Scroller.Proof.MeshChain
import Scroller.Proof.PagecacheRun
import Scroller.Proof.TouchGuarantee
import Scroller.Proof.TranFlags
import Scroller.Proof.Sending
import Scroller.Proof.BcTokens
import Scroller.Proof.BcResets
import Scroller.Proof.EmptiedTable
import Scroller.Proof.LineParsing
import Scroller.Proof.Truncation
import Scroller.Proof.WhereValue
import Scroller.Proof.Negation
import Scroller.Proof.RowCommands
import Scroller.Proof.PacketBoundaries
import Scroller.Proof.SelectResponse
import Scroller.Proof.QuotedStrings
import Scroller.Proof.ScanCommands
import Scroller.Proof.StoreRuns
import Scroller.GridPage
import Scroller.HqueryCmd
import Scroller.Lib.SlotArray
import Scroller.Proof.ColumnLayout
import Scroller.Proof.GridCells
import Scroller.Proof.OneResponse
import Scroller.Proof.SequenceLaws
import Scroller.Proof.Ilist2Deque
import Scroller.Proof.FdcacheDescriptors
import Scroller.Proof.PagecacheFailures
import Scroller.Proof.InsertOutcome
import Scroller.Proof.InsertedRows
import Scroller.Proof.ColumnNames
import Scroller.Proof.DatumOrder
import Scroller.Proof.LikeIndices
import Scroller.Proof.ExactArithmetic
import Scroller.Proof.DecimalText
import Scroller.Proof.LoopMatching
import Scroller.Proof.BumpRealloc
import Scroller.Proof.WhereMemory
import Scroller.Proof.HeapArrays
import Scroller.Proof.LeftoverRows
import Scroller.Proof.ServerSizes
import Scroller.Proof.RequestText
import Scroller.Proof.OperatorBlanks
import Scroller.Proof.ScriptLines
import Scroller.Proof.InOrder
import Scroller.Proof.IhashRepresentation
import Scroller.Proof.ContextSizes
import Scroller.Proof.TrimInside
import Scroller.Proof.UnescapeReads
import Scroller.Proof.ContextLinks
import Scroller.Proof.CommittedDeletes
import Scroller.Proof.VisibilityRule
import Scroller.Proof.CatalogIsolation
import Scroller.Proof.DurableFlags
import Scroller.Proof.CommittedInserts
import Scroller.Proof.VolumeIds
import Scroller.Proof.StoredCells
import Scroller.Proof.ScriptAnswers
import Scroller.Proof.StuckClient
import Scroller.Proof.SessionQueries
import Scroller.Proof.ClauseRows
import Scroller.Proof.SpelledQueries
