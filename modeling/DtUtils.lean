import DtUtils.CircularProcess
import DtUtils.Sha2
import DtUtils.DirectRuns
import DtUtils.Durability
import DtUtils.DirtyFlag
import DtUtils.Unflatten
import DtUtils.FdtRoundTrip
import DtUtils.FormatDtb
import DtUtils.DtbImport
import DtUtils.FailedLoad
import DtUtils.Detection
import DtUtils.Hmac
import DtUtils.Setters
import DtUtils.ShortCut
import DtUtils.OwnNames
import DtUtils.BucketsInit
import DtUtils.DirectStride
import DtUtils.FdtSizes
import DtUtils.FdtCells
import DtUtils.PropertyRead
import DtUtils.StringLists
import DtUtils.PartitionCells
import DtUtils.BlockDevice
import DtUtils.NodeTree
import DtUtils.TreeIteration
import DtUtils.NodePaths
import DtUtils.PropertyWrites
import DtUtils.Phandles
import DtUtils.PhandleArgs
import DtUtils.Transfers
import DtUtils.ForeignContent
import DtUtils.Untouched
import DtUtils.ShellDump
import DtUtils.BufAllFf
import DtUtils.Base64
import DtUtils.PrintProperty
import DtUtils.ValueRanges
import DtUtils.DtbRoundTrip
import DtUtils.CircularCrash
import DtUtils.Lib.BlockHash
import DtUtils.ShaUpdate
import DtUtils.ShaDigest
import DtUtils.Sha2Digest
import DtUtils.Sha1
import DtUtils.PrintNodes
import DtUtils.Program
import DtUtils.ProgramStore
import DtUtils.ProgramRuns
import DtUtils.ProgramValues
import DtUtils.Lib.Locks
import DtUtils.ProgramLocks
import DtUtils.Fixup
import DtUtils.FixupRuns
import DtUtils.CdevFind
import DtUtils.Aliases
import DtUtils.ProcTree
import DtUtils.Dtblint
import DtUtils.DigestFile
import DtUtils.ReserveMap
import DtUtils.Availability
import DtUtils.PropertyLoops
import DtUtils.MatchingNodes
