import Epos.Lib.Run
import Epos.Cpu
import Epos.Bitmap
import Epos.Task.Defs
import Epos.Task.Leaks
import Epos.Task.RoundRobin
import Epos.Task.Create
import Epos.Task.Dispatch
import Epos.Frame.Defs
import Epos.Frame.Disjoint
import Epos.Lib.Arm
import Epos.Entry.Defs
import Epos.Entry.Restore
import Epos.Entry.Switch
import Epos.Lib.LinkedList
import Epos.Lib.Spans
import Epos.Page.Vmspace
import Epos.Page.Zones
import Epos.Page.Lists
import Epos.Page.Calls
import Epos.Page.Invariant
import Epos.Page.Map
import Epos.Page.Fault
import Epos.Page.Lowest
import Epos.Page.Serve
import Epos.Machdep.Paging
import Epos.Machdep.Tables
import Epos.Machdep.Map
import Epos.Machdep.Translation
import Epos.Bitmap.Refinement
import Epos.Frame.Inside
import Epos.Frame.Partition
import Epos.Frame.FirstFit
import Epos.Frame.Excess
import Epos.Frame.Reserve
import Epos.Page.Exact
import Epos.Lib.ArmBlock
import Epos.Entry.Exceptions
import Epos.Entry.Tail
import Epos.Entry.Reentry
import Epos.Task.Start
import Epos.Task.Atomic
import Epos.Thread.Defs
import Epos.Thread.Lists
import Epos.Thread.Calls
import Epos.Thread.Reap
import Epos.Thread.Schedule
import Epos.Thread.WaitQueue
import Epos.Thread.WakeUp
import Epos.Kmalloc.Null
import Epos.Page.Entries
import Epos.Kmalloc.Aligned
import Epos.Lib.Counter
import Epos.Timer.Defs
import Epos.Timer.Sleep
import Epos.Timer.Ticks
import Epos.Thread.Ids
import Epos.Strings.Compare
import Epos.Strings.Search
import Epos.Strings.Scan
import Epos.Strings.Copy
import Epos.Timer.Calibrate
import Epos.Lib.ByteCopy
import Epos.Memory.Copy
import Epos.Memory.Fill
import Epos.Lib.BitWord
import Epos.Lib.DoubleList
import Epos.Lib.WordAt
import Epos.Lib.Tiles
import Epos.Lib.Buffers
import Epos.Heap.Defs
import Epos.Heap.Mapping
import Epos.Heap.Slots
import Epos.Heap.Lists
import Epos.Heap.Tags
import Epos.Heap.Invariant
import Epos.Heap.Stock
import Epos.Heap.Open
import Epos.Heap.Free
import Epos.Heap.Split
import Epos.Heap.Malloc
import Epos.Heap.Users
import Epos.Heap.Realloc
import Epos.Heap.Init
import Epos.Heap.Calls
import Epos.Heap.Runs
import Epos.Kmalloc.Pool
import Epos.Lib.Sink
import Epos.Printf.Defs
import Epos.Printf.Text
import Epos.Printf.Digits
import Epos.Printf.Bounds
import Epos.Printf.Parse
import Epos.Printf.Render
import Epos.Printf.Fields
import Epos.Printf.Uart
