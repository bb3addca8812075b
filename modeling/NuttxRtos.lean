import NuttxRtos.Gran.Runs
import NuttxRtos.Mqueue.Runs
import NuttxRtos.Pthread.MutexRuns
import NuttxRtos.Sched.Preemption
import NuttxRtos.Semaphore.InheritanceRuns
import NuttxRtos.Sporadic.Accounting
import NuttxRtos.Wdog.Runs
import NuttxRtos.Rwbuffer.Faulty
import NuttxRtos.Hamming.Blocks
import NuttxRtos.Calendar.RoundTrip
import NuttxRtos.Sixlowpan.Hc1Lossless
import NuttxRtos.Mtdconfig.Runs
import NuttxRtos.Tcp.Ports
import NuttxRtos.Tcp.Window
import NuttxRtos.Tcp.Shift
import NuttxRtos.Fat.Seek
import NuttxRtos.Fat.Boot
import NuttxRtos.Wqueue.Inherit
import NuttxRtos.Wqueue.Work
import NuttxRtos.Pipes.Common
import NuttxRtos.Fat.Freecount
import NuttxRtos.Fat.Faults
import NuttxRtos.Pthread.Barrier
import NuttxRtos.Signal.Group
import NuttxRtos.Heap.Lock
import NuttxRtos.Serial.Input
import NuttxRtos.Serial.Locks
import NuttxRtos.Heap.Requests
import NuttxRtos.Rwbuffer.Semaphores
import NuttxRtos.Clock.Ticks
import NuttxRtos.Mqueue.Timedsend
import NuttxRtos.Sched.Affinity
import NuttxRtos.Wdog.Tickless
import NuttxRtos.Tcp.Timer
import NuttxRtos.Tcp.Unacked
