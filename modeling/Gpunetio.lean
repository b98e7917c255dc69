import Gpunetio.Lib.Transition
import Gpunetio.Lib.LapRing
import Gpunetio.Lib.Serial
import Gpunetio.Lib.Ledger
import Gpunetio.Lat.Progress
import Gpunetio.Nic.Signal
import Gpunetio.Pair.Data
import Gpunetio.Service.Stop
import Gpunetio.Prm.Query
import Gpunetio.Prm.Create
import Gpunetio.Lib.Loop
import Gpunetio.Lib.Trace
import Gpunetio.Lib.Custody
import Gpunetio.Lib.Teardown
import Gpunetio.Lib.Staged
import Gpunetio.Lib.Smear
import Gpunetio.Lib.Tiling
import Gpunetio.Lib.Region
import Gpunetio.Lib.ByteMem
import Gpunetio.Lib.While
import Gpunetio.Word
import Gpunetio.Cq.Poll
import Gpunetio.Cq.Init
import Gpunetio.Cq.Session
import Gpunetio.Cq.Collapsed
import Gpunetio.Cq.Update
import Gpunetio.Reset
import Gpunetio.Wqe
import Gpunetio.Counter
import Gpunetio.Door.Submit
import Gpunetio.Door.Multi
import Gpunetio.Door.NoDbr
import Gpunetio.Door.Deadlock
import Gpunetio.Door.Dispatch
import Gpunetio.OneSided
import Gpunetio.Batch
import Gpunetio.Ceil
import Gpunetio.Chunking
import Gpunetio.Scope
import Gpunetio.Reserve
import Gpunetio.Wire.Model
import Gpunetio.Wire.Decode
import Gpunetio.Wire.Memcpy
import Gpunetio.Wire.Inline
import Gpunetio.Wire.AtomicExt
import Gpunetio.Proxy.Model
import Gpunetio.Proxy.Refine
import Gpunetio.Proxy.Assisted
import Gpunetio.Proxy.Reset
import Gpunetio.Host.Uar
import Gpunetio.Host.Memory
import Gpunetio.Host.Export
import Gpunetio.Host.Accounts
import Gpunetio.Host.Settle
import Gpunetio.Host.MultiExport
import Gpunetio.Host.Create
import Gpunetio.Host.Rounding
import Gpunetio.Host.Placement
import Gpunetio.Host.Layout
import Gpunetio.Host.Tagged
import Gpunetio.Host.Lifecycle
import Gpunetio.Host.Parts
import Gpunetio.Host.Agreement
import Gpunetio.Host.Balance
import Gpunetio.Host.Order
import Gpunetio.Host.Sizing
import Gpunetio.Host.Objects
import Gpunetio.Host.Owners
import Gpunetio.Qp.Model
import Gpunetio.Qp.Ring
import Gpunetio.Qp.Safety
import Gpunetio.Qp.Progress
import Gpunetio.Pair.Model
import Gpunetio.Pair.Link
import Gpunetio.Pair.Progress
import Gpunetio.Verbs.Attr
import Gpunetio.Verbs.Modify
import Gpunetio.Verbs.Query
import Gpunetio.Verbs.Ranges
import Gpunetio.Verbs.Masked
import Gpunetio.Lib.Interleave
