import Zeos.Foundation.Exec
import Zeos.Foundation.ByteCopy
import Zeos.Foundation.LinkedRing
import Zeos.Foundation.TransitionSystem
import Zeos.Foundation.Refines
import Zeos.Foundation.WaitingLine
import Zeos.List
import Zeos.ListRefinement
import Zeos.Types
import Zeos.Mm
import Zeos.Sched
import Zeos.Sys
import Zeos.System
import Zeos.Refinement
import Zeos.Boot
import Zeos.Placement
import Zeos.Discipline
import Zeos.Circbuff
import Zeos.Outcomes
import Zeos.Interrupts
import Zeos.Steps
import Zeos.Processes
import Zeos.Semaphores
import Zeos.Scheduling
import Zeos.RoundRobin
import Zeos.Ownership
import Zeos.Suspension
import Zeos.Keyboard
import Zeos.Readers
import Zeos.Requests
import Zeos.Delivery
import Zeos.Indication
import Zeos.Tables
import Zeos.UserAccess
import Zeos.Foundation.TranslationCache
import Zeos.Frames
import Zeos.Mmu
import Zeos.Coherence
import Zeos.Translation
import Zeos.Foundation.ResourcePool
import Zeos.FramePool
import Zeos.Heap
import Zeos.HeapGrowth
import Zeos.HeapShrinking
import Zeos.Secrecy
import Zeos.Accounts
import Zeos.Transitions
import Zeos.CpuTime
import Zeos.BlockedTime
import Zeos.Foundation.StackSketch
import Zeos.Wrappers
import Zeos.Foundation.Machine
import Zeos.Foundation.WordStack
import Zeos.Foundation.SystemMachine
import Zeos.TaskSwitch
import Zeos.Directories
import Zeos.ForkPages
import Zeos.MemoryCalls
import Zeos.ForkBounds
import Zeos.ForkFailure
import Zeos.MemoryRuns
import Zeos.ForkExit
import Zeos.Protection
import Zeos.HeapRuns
import Zeos.Duplication
import Zeos.AccessCheck
import Zeos.Foundation.BoundedQueue
import Zeos.RingQueue
import Zeos.BlockCopy
import Zeos.Foundation.CellRow
import Zeos.Foundation.Numeral
import Zeos.Libc
import Zeos.ConsoleWrite
import Zeos.SemaphoreUnits
import Zeos.ChunkedRead
import Zeos.BootImage
import Zeos.SystemCallEntry
import Zeos.SystemCallDispatch
import Zeos.ContextSwitch
import Zeos.FirstReturn
import Zeos.Switching
import Zeos.Foundation.Holdings
import Zeos.Families
import Zeos.Isolation
import Zeos.Foundation.Potential
import Zeos.ResponseTime
import Zeos.ProcessNumbers
import Zeos.Contexts
import Zeos.Foundation.WriteLog
import Zeos.Screen
import Zeos.Foundation.LongDivision
import Zeos.Ticks
import Zeos.Foundation.StepLoop
import Zeos.Loader
import Zeos.Foundation.InterruptMachine
import Zeos.InterruptHandlers
import Zeos.Progress
import Zeos.Foundation.PageWalk
import Zeos.PageWords
import Zeos.PageRuns
