import Rtos.Lib.Run
import Rtos.Lib.Cyclic
import Rtos.Lib.WaitGraph
import Rtos.Lib.Slots
import Rtos.Lib.Clock
import Rtos.Lib.Handshake
import Rtos.Lib.Ideal
import Rtos.Lib.TokenLedger
import Rtos.Lib.WordMemory
import Rtos.Lib.Thumb
import Rtos.Lib.Branching
import Rtos.Lib.BitField
import Rtos.Kernel.Types
import Rtos.Kernel.Schedule
import Rtos.Kernel.Tick
import Rtos.Kernel.Sync
import Rtos.Kernel.Queue
import Rtos.System.Boot
import Rtos.System.Step
import Rtos.System.Bringup
import Rtos.System.Cases
import Rtos.System.Invariant
import Rtos.System.Reachable
import Rtos.Sync.Membership
import Rtos.Scheduling.Resume
import Rtos.Scheduling.Preemption
import Rtos.Scheduling.RoundRobin
import Rtos.Scheduling.Policy
import Rtos.Scheduling.BoundedWaiting
import Rtos.Scheduling.FirstSwitch
import Rtos.System.Log
import Rtos.Time.Deadlines
import Rtos.Time.Elapsed
import Rtos.Time.DelayRange
import Rtos.Time.Atomicity
import Rtos.Sync.Conservation
import Rtos.Sync.Countdown
import Rtos.Sync.Mutex
import Rtos.Sync.Deadlock
import Rtos.Sync.Handover
import Rtos.Scheduling.Latency
import Rtos.Scheduling.Accounting
import Rtos.Scheduling.Progress
import Rtos.Scheduling.Overhead
import Rtos.Scheduling.Inversion
import Rtos.System.Refinement
import Rtos.Time.Punctual
import Rtos.Time.OnTime
import Rtos.Machine.Layout
import Rtos.Machine.PendSv
import Rtos.Machine.Create
import Rtos.Machine.Linked
import Rtos.Machine.TaskStats
import Rtos.Machine.Snapshot
import Rtos.Machine.StackRoom
import Rtos.Machine.Run
import Rtos.Machine.AnySchedule
import Rtos.Machine.Preserve
import Rtos.Machine.FirstRun
import Rtos.Machine.Startup
import Rtos.Board.Setup
import Rtos.Demo.Program
import Rtos.Demo.Lull
import Rtos.Demo.LockStep
import Rtos.Demo.Rates
import Rtos.Demo.Output
