import PingPongOS.Runs
import PingPongOS.HeapRelease
import PingPongOS.HeapLinks
import PingPongOS.ExactHeapCalls
import PingPongOS.ConcurrentAllocation
import PingPongOS.Scheduler
import PingPongOS.BoundedWaiting
import PingPongOS.MessageQueue
import PingPongOS.Dispatcher
import PingPongOS.PreemptiveSteps
import PingPongOS.WakeSweep
import PingPongOS.Kernel
import PingPongOS.TaskSeats
import PingPongOS.Wakeups
import PingPongOS.KernelInvariant
import PingPongOS.KernelSteps
import PingPongOS.TaskConsistency
import PingPongOS.SemaphoreHistory
import PingPongOS.RejectedRequest
import PingPongOS.DiskHistory
import PingPongOS.DiskService
import PingPongOS.SuspendStatements
import PingPongOS.QueueNodes
import PingPongOS.Bystanders
import PingPongOS.WakeupCauses
import PingPongOS.SystemChanges
import PingPongOS.SleepDeadlines
import PingPongOS.DispatcherStop
import PingPongOS.Preemption
import PingPongOS.SemaphoreStatements
import PingPongOS.SemaphorePreemption
import PingPongOS.ExitCodes
import PingPongOS.CpuTime
import PingPongOS.DirectSwitch
import PingPongOS.QuantumBound
import PingPongOS.FinishedTasks
import PingPongOS.TaskStatements
import PingPongOS.JoinPreemption
import PingPongOS.DiskInterrupt
import PingPongOS.RingBounds
import PingPongOS.QueueCreation
import PingPongOS.QueueCalls
import PingPongOS.SemaphoreDestruction
import PingPongOS.QueueTeardown
import PingPongOS.Answers
import PingPongOS.RingRefinement
import PingPongOS.ActivationCounts
import PingPongOS.Loops
import PingPongOS.Printk
import PingPongOS.PrintkFormats
import PingPongOS.InterruptedInsertion
import PingPongOS.TaskCreation
import PingPongOS.ObjectBlocks
import PingPongOS.ObjectRemains
import PingPongOS.MqueueRemains
import PingPongOS.ByteMemory
import PingPongOS.Instructions
import PingPongOS.ContextCode
import PingPongOS.Paths
import PingPongOS.ContextSwitches
import PingPongOS.NestedAllocation
import PingPongOS.HeapBytes
import PingPongOS.HeapByteCalls
import PingPongOS.HeapIsolation
import PingPongOS.DiskTimer
