import CAsync.Consistency
import CAsync.FinishedChild
import CAsync.FreeList
import CAsync.Lib.WaitQueue
import CAsync.LifeCycle
import CAsync.Orphans
import CAsync.Reclamation
import CAsync.WaitGraph
import CAsync.NoTaskLost
import CAsync.Fairness
import CAsync.AwaitedChild
import CAsync.Io
import CAsync.PackUnpack
import CAsync.Programs
import CAsync.View
import CAsync.GraphView
import CAsync.TaskList
import CAsync.ListView
import CAsync.Evaluation
import CAsync.Ledger
import CAsync.Staging
import CAsync.Adequacy
import CAsync.Deque
import CAsync.PackBounds
import CAsync.Arena
import CAsync.ArenaChunks
import CAsync.HashMap.Dictionary
import CAsync.HashMap.Recycling
import CAsync.AwaitMany
import CAsync.IoTasks
import CAsync.Rotation
import CAsync.Str
import CAsync.EpollFraming
import CAsync.DebugRuns
import CAsync.Lib.Memory
import CAsync.Lib.Processor
import CAsync.SwitchAsm
import CAsync.Stacks
import CAsync.StackRuns
import CAsync.ContextSwitch
import CAsync.LibrarySteps
import CAsync.EpollClients
import CAsync.AsyncTurns
import CAsync.QueueRuns
import CAsync.SchedulersAgree
import CAsync.Lib.Fields
import CAsync.StrRef
import CAsync.TestFile
import CAsync.TestFileRuns
