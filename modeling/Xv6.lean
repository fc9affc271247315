import Xv6.Bench.PageLedger
import Xv6.Bench.UniqueResource
import Xv6.Bio.LogBuffers
import Xv6.Console.Discipline
import Xv6.Files.References
import Xv6.Frames.PageMap
import Xv6.Fs.Faults
import Xv6.Fs.LinkCounts
import Xv6.Fs.LogSpace
import Xv6.Log.Reservation
import Xv6.Memory.HeapBelow
import Xv6.Memory.Munmap
import Xv6.Memory.Placement
import Xv6.Pipe.Fifo
import Xv6.ProcTable.Killed
import Xv6.ProcTable.WaitExit
import Xv6.RbTree.Operations
import Xv6.Sched.BudgetPolicy
import Xv6.Sched.Fcfs
import Xv6.Sched.LostWakeup
import Xv6.Sched.NormalRotation
import Xv6.Sched.Protection
import Xv6.Sched.SpanWindows
import Xv6.Sched.WaitTicks
import Xv6.User.Grep
import Xv6.User.Print
import Xv6.Virtio.Protocol
