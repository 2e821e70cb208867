import Cmgroups.Lib.Transition
import Cmgroups.Lib.Pool
import Cmgroups.Lib.Word32
import Cmgroups.Kernel.State
import Cmgroups.Kernel.Code
import Cmgroups.Kernel.Sched
import Cmgroups.Kernel.Object
import Cmgroups.Kernel.Bind
import Cmgroups.Kernel.Tasklet
import Cmgroups.Kernel.Wait
import Cmgroups.Kernel.Getevents
import Cmgroups.Kernel.Epoll
import Cmgroups.Kernel.System
import Cmgroups.Kernel.Softirq
import Cmgroups.Verif.Steps
import Cmgroups.Verif.Expansion
import Cmgroups.Verif.Frames
import Cmgroups.Verif.Fresh
import Cmgroups.Verif.Resources
import Cmgroups.Verif.Ledgers
import Cmgroups.Verif.Binding
import Cmgroups.Verif.Locking
import Cmgroups.Verif.Pointers
import Cmgroups.Verif.Ownership
import Cmgroups.Verif.TaskletRun
import Cmgroups.Verif.OneToOne
import Cmgroups.Verif.Getevents
import Cmgroups.Verif.Softirq
import Cmgroups.Verif.Running
import Cmgroups.Verif.Accounting
import Cmgroups.Verif.Openings
import Cmgroups.Verif.References
import Cmgroups.Verif.Lifetime
import Cmgroups.Verif.Freed
import Cmgroups.Verif.Sources
import Cmgroups.Verif.PollCalls
import Cmgroups.Verif.PollLog
import Cmgroups.Verif.PollRules
import Cmgroups.Verif.PollQueue
