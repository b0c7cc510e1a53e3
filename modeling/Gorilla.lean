import Gorilla.Client.ArbitraryGet
import Gorilla.Client.Unsupplied
import Gorilla.Client.Duplicates
import Gorilla.Server.Coverage
import Gorilla.Server.Partition
import Gorilla.Server.RawData
import Gorilla.BlockManager.Put
import Gorilla.Server.PutPhases
import Gorilla.Server.Replies
import Gorilla.MetricManager.LastValues
import Gorilla.Server.Statuses
import Gorilla.Server.LockExit
import Gorilla.Server.Prompt
import Gorilla.Server.Requests
import Gorilla.Lib.Runs
import Gorilla.BlockManager.Calls
import Gorilla.BlockManager.Provenance
import Gorilla.BlockManager.Existence
import Gorilla.Server.Timers
import Gorilla.Server.LifeCycle
import Gorilla.Server.Events
import Gorilla.Utils.SubMatrix
import Gorilla.Utils.Copies
import Gorilla.BlockManager.Handles
import Gorilla.BlockManager.Subregions
import Gorilla.BlockManager.Reads
import Gorilla.BlockManager.Backends
import Gorilla.BlockManager.Erase
import Gorilla.Client.ClientForStaging
import Gorilla.Server.EndPoints
import Gorilla.Lib.Separated
import Gorilla.Server.Selection
import Gorilla.Client.Triangles
import Gorilla.Server.OneReply
import Gorilla.Lib.Totals
import Gorilla.Server.PutHandlers
import Gorilla.Server.Ledger
import Gorilla.Client.Publication
import Gorilla.Server.StagedBytes
import Gorilla.CommonData.Wire
import Gorilla.Client.PutCarGrid
import Gorilla.Client.Discovery
import Gorilla.Lib.Moves
import Gorilla.Server.RemoteErase
import Gorilla.Server.DeleteStep
import Gorilla.Server.Window
import Gorilla.Server.Eviction
import Gorilla.Lib.Marked
import Gorilla.Utils.StringTool
import Gorilla.Server.Gather
import Gorilla.Server.EventDelivery
import Gorilla.Lib.Ring
import Gorilla.MetricManager.Recent
import Gorilla.Lib.Tiling
import Gorilla.Utils.Split
import Gorilla.Server.ExactCoverage
import Gorilla.Client.Admission
import Gorilla.Server.Routing
import Gorilla.Server.FailedTriggers
import Gorilla.BlockManager.ArrayPuts
import Gorilla.Server.Overlaps
import Gorilla.Utils.LastWriter
import Gorilla.Utils.PhysicalIndex
import Gorilla.Lib.Loop
import Gorilla.Utils.Rejection
import Gorilla.BlockManager.LargePuts
import Gorilla.CommonData.Arrays
import Gorilla.Utils.ExecutionStreams
import Gorilla.Lib.Collective
import Gorilla.Server.Started
import Gorilla.Client.StartedRoutes
import Gorilla.Client.Joining
import Gorilla.Client.MeshAggregation
import Gorilla.Client.MeshTransport
import Gorilla.Server.AsyncEnds
import Gorilla.Server.InsituTriggers
