import Rrdtool.Lib.Pointwise
import Rrdtool.Update.Pass
import Rrdtool.Create
import Rrdtool.Lib.Groups
import Rrdtool.Lib.Run
import Rrdtool.Update.Consolidation
import Rrdtool.Update.Invariant
import Rrdtool.Update.Atomic
import Rrdtool.Lib.StepRate
import Rrdtool.Update.Conservation
import Rrdtool.Fetch
import Rrdtool.Update.Rows
import Rrdtool.Fetch.Window
import Rrdtool.Daemon.State
import Rrdtool.Daemon.Step
import Rrdtool.Daemon.File
import Rrdtool.Daemon.Stamp
import Rrdtool.Daemon.Ledger
import Rrdtool.Daemon.Order
import Rrdtool.Daemon.Flush
import Rrdtool.Daemon.Rotate
import Rrdtool.Protocol.Field
import Rrdtool.Protocol.Request
import Rrdtool.Daemon.Replay
import Rrdtool.Daemon.Merge
import Rrdtool.Daemon.Queue
import Rrdtool.Daemon.QueueInvariant
import Rrdtool.Lib.Lines
import Rrdtool.Protocol.Response
import Rrdtool.Lib.FirstBest
import Rrdtool.Fetch.Choice
import Rrdtool.Protocol.Fetch
import Rrdtool.Protocol.FetchLines
import Rrdtool.Protocol.RemoteFetch
import Rrdtool.Update.Template
import Rrdtool.Update.MappedBuffer
import Rrdtool.Graph.DataCalc
import Rrdtool.Graph.DataFetch
import Rrdtool.Rpn.RoundTrip
import Rrdtool.Rpn.Stack
import Rrdtool.Update.Aberrant
import Rrdtool.Update.Forecast
import Rrdtool.Update.ForecastOrder
import Rrdtool.Update.MultiplicativeOrder
import Rrdtool.Create.Parse
import Rrdtool.Create.WellFormed
import Rrdtool.Tune
import Rrdtool.Tune.WellTuned
import Rrdtool.Lib.Blocks
import Rrdtool.Lib.Compact
import Rrdtool.Modify.History
import Rrdtool.Open
import Rrdtool.Update.Counter
import Rrdtool.Update.Gap
import Rrdtool.Update.RowTimes
import Rrdtool.Update.Deliveries
import Rrdtool.Lib.Fifo
import Rrdtool.Lib.Cyclic
import Rrdtool.Smoother
import Rrdtool.Smoother.MovingAverage
import Rrdtool.Smoother.Renormalise
import Rrdtool.Smoother.Cache
import Rrdtool.Update.SeasonPhase
import Rrdtool.Lib.Window
import Rrdtool.Lib.Binary64
import Rrdtool.Update.FailureWindow
import Rrdtool.Update.Scratch
import Rrdtool.Update.FailuresOrder
import Rrdtool.Lib.Tiling
import Rrdtool.Prefill
import Rrdtool.Prefill.Coverage
import Rrdtool.Prefill.PdpPrep
import Rrdtool.Prefill.QuickSort
import Rrdtool.Prefill.Candidates
import Rrdtool.Prefill.Rows
import Rrdtool.Prefill.Reproduce
import Rrdtool.Prefill.Average
import Rrdtool.Prefill.Xff
import Rrdtool.Prefill.CdpPrep
import Rrdtool.Prefill.Temporary
import Rrdtool.Modify.Version
import Rrdtool.Rpn.Roll
import Rrdtool.Modify.Populate
import Rrdtool.Modify.Primary
import Rrdtool.Lib.Stores
import Rrdtool.Tune.Mapped
import Rrdtool.Modify.Write
import Rrdtool.Lib.Unroll
import Rrdtool.Resize
import Rrdtool.Resize.Moving
import Rrdtool.Resize.Rows
import Rrdtool.Resize.Preserved
import Rrdtool.Lib.Civil
import Rrdtool.Rpn.Tzoffset
import Rrdtool.Lib.Path
import Rrdtool.Daemon.Access
import Rrdtool.Lib.Ranked
import Rrdtool.Rpn.Percent
import Rrdtool.Rpn.Median
import Rrdtool.Lib.Reports
import Rrdtool.Rpn.Compute
import Rrdtool.Rpn.Bounds
import Rrdtool.Daemon.ReplayLine
import Rrdtool.Lib.Slots
import Rrdtool.Protocol.Bytes
import Rrdtool.Daemon.Command
import Rrdtool.Daemon.Vectors
import Rrdtool.Daemon.Records
import Rrdtool.Daemon.InTime
import Rrdtool.Protocol.Recvline
import Rrdtool.Protocol.NextCmd
import Rrdtool.Lib.Printf
import Rrdtool.Protocol.Formatted
import Rrdtool.Rpn.Reads
import Rrdtool.Graph.DataReads
import Rrdtool.Lib.InPlace
import Rrdtool.Graph.Reduce
import Rrdtool.Graph.Vdef
import Rrdtool.Graph.Missing
import Rrdtool.Graph.Xport
import Rrdtool.Lib.Segments
import Rrdtool.Graph.DataProc
import Rrdtool.Graph.Axis
import Rrdtool.Create.Duration
import Rrdtool.Lib.LeastSquares
import Rrdtool.Graph.Column
import Rrdtool.Graph.BestFit
import Rrdtool.Graph.Agreement
import Rrdtool.Graph.Percentile
import Rrdtool.Graph.GridTime
import Rrdtool.Numeral
import Rrdtool.Parsetime.Offsets
import Rrdtool.Graph.Arguments
import Rrdtool.Graph.LegPlace
import Rrdtool.Graph.LegWrap
import Rrdtool.Graph.ParseDef
import Rrdtool.Graph.DefAttempt
import Rrdtool.Graph.DefNames
import Rrdtool.Rpn.Sort
import Rrdtool.Prefill.QuickSortBytes
import Rrdtool.Prefill.Ranking
import Rrdtool.Prefill.RowTime
import Rrdtool.Lib.Procedure
import Rrdtool.Restore.Parse
import Rrdtool.Rpn.Expression
