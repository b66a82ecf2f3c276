import Matanos.Lib.Run
import Matanos.Lib.Thread
import Matanos.Lib.Word
import Matanos.Lib.Bytes
import Matanos.Lib.Tiling
import Matanos.Lib.Least
import Matanos.Lib.Slots
import Matanos.Lib.Stacked
import Matanos.Lib.Numeral
import Matanos.Lib.Pic
import Matanos.Lib.Ia32
import Matanos.Lib.Ports
import Matanos.Sched.RoundRobin
import Matanos.Sched.Task
import Matanos.Sched.Queues
import Matanos.Sched.Refine
import Matanos.Sched.Runs
import Matanos.Sched.Wake
import Matanos.Sched.Deadline
import Matanos.Sched.Window
import Matanos.Sched.Preempt
import Matanos.Sched.Flag
import Matanos.Sched.Stack
import Matanos.Sched.Context
import Matanos.Sched.Waiting
import Matanos.Paging.Bitmap
import Matanos.Paging.FrameSet
import Matanos.Paging.Frames
import Matanos.Paging.Exhausted
import Matanos.Paging.Tables
import Matanos.Paging.Boot
import Matanos.Heap.Grow
import Matanos.Heap.OrderedArray
import Matanos.Heap.Index
import Matanos.Heap.Kheap
import Matanos.Heap.Layout
import Matanos.Heap.Place
import Matanos.Heap.Order
import Matanos.Heap.Search
import Matanos.Heap.Unaligned
import Matanos.Heap.Aligned
import Matanos.Heap.Growth
import Matanos.Heap.Bounds
import Matanos.Heap.Free
import Matanos.Heap.Interior
import Matanos.Heap.Undo
import Matanos.Heap.Trim
import Matanos.Heap.Survive
import Matanos.Heap.Clients
import Matanos.Heap.BestFit
import Matanos.Heap.Once
import Matanos.Heap.Placement
import Matanos.Paging.Backing
import Matanos.Paging.Clone
import Matanos.Paging.CloneHeap
import Matanos.Paging.Flags
import Matanos.Paging.Isolation
import Matanos.Paging.Chain
import Matanos.Paging.Directory
import Matanos.Paging.NewTable
import Matanos.Paging.Consecutive
import Matanos.Cpu.Syscall
import Matanos.Cpu.Descriptors
import Matanos.Cpu.Irq
import Matanos.Cpu.Stub
import Matanos.Cpu.Process
import Matanos.Drivers.Screen
import Matanos.Drivers.Terminal
import Matanos.Drivers.Keyboard
import Matanos.Drivers.LineEditor
import Matanos.Drivers.Console
import Matanos.Drivers.Ps2
import Matanos.Drivers.Printf
import Matanos.Drivers.Verbatim
import Matanos.Drivers.StringField
import Matanos.Drivers.Number
import Matanos.Drivers.Format
import Matanos.Util.Decimal
import Matanos.Util.Hex
import Matanos.Shell.Parse
import Matanos.Shell.Dispatch
import Matanos.Shell.Stale
import Matanos.Shell.Symbols
import Matanos.Shell.Param
