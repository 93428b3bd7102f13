import ComplexSim.Timer.Lockstep
import ComplexSim.Timer.Nsync
import ComplexSim.Timer.Wakeup
import ComplexSim.Workerpool.Accepted
import ComplexSim.Workerpool.Deadlock
import ComplexSim.Workerpool.Refinement
import ComplexSim.Workerpool.Batch
import ComplexSim.Workerpool.Results
import ComplexSim.Events.Tree
import ComplexSim.Events.Handlers
import ComplexSim.Engine.Basic
import ComplexSim.Engine.System
import ComplexSim.Engine.Clockwork
import ComplexSim.Engine.Steps
import ComplexSim.Engine.Timing
import ComplexSim.Engine.EventPool
import ComplexSim.Engine.ActivityPool
import ComplexSim.Engine.Ledger
import ComplexSim.Engine.Startup
import ComplexSim.Events.Timeline
import ComplexSim.Lib.Linked
import ComplexSim.Events.Memory
import ComplexSim.Queue.Memory
import ComplexSim.Queue.Fifo
import ComplexSim.Engine.Activities
import ComplexSim.Workerpool.Record
import ComplexSim.Workerpool.Waiters
import ComplexSim.Workerpool.Reclaim
import ComplexSim.Engine.Alternation
import ComplexSim.Engine.Delivery
import ComplexSim.Engine.Phases
import ComplexSim.Engine.Completion
import ComplexSim.Engine.Program
import ComplexSim.Engine.Books
import ComplexSim.Engine.Rounds
import ComplexSim.Engine.Outcome
import ComplexSim.Engine.Stages
import ComplexSim.Engine.Reproducible
import ComplexSim.Events.WaitCompletion
import ComplexSim.Workerpool.Ids
import ComplexSim.Queue.Closing
import ComplexSim.Lib.Heap
import ComplexSim.Events.Release
import ComplexSim.Workerpool.Interrupts
import ComplexSim.Workerpool.Capacity
import ComplexSim.Workerpool.Progress
import ComplexSim.Workerpool.Lookups
import ComplexSim.Workerpool.Corner
import ComplexSim.Engine.Loops
import ComplexSim.Engine.Headway
import ComplexSim.Engine.ControllerTask
import ComplexSim.Engine.Feeding
import ComplexSim.Engine.Starvation
import ComplexSim.Engine.Divisors
import ComplexSim.Workerpool.Lifecycle
import ComplexSim.Workerpool.Tidy
import ComplexSim.Lib.Traces
import ComplexSim.Workerpool.Restart
import ComplexSim.Workerpool.Outcomes
import ComplexSim.Workerpool.Again
import ComplexSim.Engine.Blocks
import ComplexSim.Events.Walks
import ComplexSim.Events.Count
import ComplexSim.Queue.Enqueue
import ComplexSim.Queue.Window
import ComplexSim.Queue.Destroy
import ComplexSim.Events.Allocation
import ComplexSim.Engine.Stopping
import ComplexSim.Engine.Reconfigure
import ComplexSim.Lib.Threads
import ComplexSim.Engine.Raising
import ComplexSim.Workerpool.FailedStart
import ComplexSim.Lib.Locking
import ComplexSim.Locks.Basic
import ComplexSim.Locks.Workerpool
import ComplexSim.Locks.Events
import ComplexSim.Locks.Operations
import ComplexSim.Workerpool.Name
import ComplexSim.Lib.RedBlack
import ComplexSim.Lib.RedBlackPath
import ComplexSim.Lib.RedBlackSearch
import ComplexSim.Rb.Node
import ComplexSim.Rb.Shape
import ComplexSim.Rb.Find
import ComplexSim.Rb.Probe
import ComplexSim.Rb.Delete
import ComplexSim.Rb.Destroy
import ComplexSim.Rb.Traverse
import ComplexSim.Rb.Runs
import ComplexSim.Events.Content
import ComplexSim.Events.Store
import ComplexSim.Events.HandlerStore
import ComplexSim.Workerpool.ResultStore
import ComplexSim.Engine.LoopTasks
import ComplexSim.Engine.Sending
import ComplexSim.Engine.Advance
import ComplexSim.Lib.Termination
import ComplexSim.Workerpool.Rank
import ComplexSim.Engine.Rank
import ComplexSim.Engine.Crashes
import ComplexSim.Engine.Termination
