import Mipos.WordMemory
import Mipos.Tiling
import Mipos.DoublyLinked
import Mipos.Evaluate
import Mipos.MallocModel
import Mipos.MallocDescriptors
import Mipos.MallocBlocks
import Mipos.MallocInvariant
import Mipos.MallocListEdits
import Mipos.MallocSimulation
import Mipos.MallocCalls
import Mipos.MallocRuns
import Mipos.MallocRecovery
import Mipos.MallocLiveness
import Mipos.MallocContiguous
import Mipos.MallocWord32
import Mipos.MallocRealloc
import Mipos.MallocSizes
import Mipos.LinkTable
import Mipos.OwnedLinks
import Mipos.TfsModel
import Mipos.TfsCalls
import Mipos.TfsUnread
import Mipos.TfsTable
import Mipos.TfsWrite
import Mipos.TfsWriteFile
import Mipos.TfsRuns
import Mipos.TfsWalk
import Mipos.TfsDelete
import Mipos.TfsStdio
import Mipos.TfsLocking
import Mipos.TfsContents
import Mipos.TfsOverread
import Mipos.TfsSeek
import Mipos.TfsMount
import Mipos.Coroutine
import Mipos.TfsTasks
import Mipos.TfsAlone
import Mipos.TfsOwnership
import Mipos.TfsOwnedCalls
import Mipos.TfsSharing
import Mipos.TfsFileLock
import Mipos.TfsReads
import Mipos.TfsIsolation
import Mipos.TfsRooted
import Mipos.TfsDirectory
import Mipos.TfsDeviceErrors
import Mipos.TfsAtomic
import Mipos.TfsLookup
import Mipos.TfsFormat
import Mipos.TfsEnumerate
import Mipos.TfsNames
import Mipos.TfsFopen
import Mipos.TfsElements
import Mipos.TfsCharacters
import Mipos.TfsRoundTrip
import Mipos.TfsRename
import Mipos.TfsShortWrite
import Mipos.TfsEmptyWrite
import Mipos.MemoryPool
import Mipos.PoolGeometry
import Mipos.Mutex
import Mipos.RingBuffer
import Mipos.QueueModel
import Mipos.QueueFifo
import Mipos.Console
import Mipos.ConsoleSplit
import Mipos.ConsoleLine
import Mipos.ConsoleDump
import Mipos.TaskModel
import Mipos.TimerModel
import Mipos.KernelModel
import Mipos.KernelRuns
import Mipos.KernelSlots
import Mipos.KernelTasks
import Mipos.KernelSignals
import Mipos.KernelControl
import Mipos.KernelCaller
import Mipos.KernelContexts
import Mipos.ConsoleCommands
import Mipos.KernelFrozen
import Mipos.KernelSelect
import Mipos.KernelRestart
import Mipos.KernelDeferred
import Mipos.KernelQueues
import Mipos.KernelReceive
import Mipos.QueueResults
import Mipos.ControlFlow
import Mipos.CriticalSections
import Mipos.KernelSections
import Mipos.TimerSteps
import Mipos.TimerRuns
import Mipos.KernelDeadlines
import Mipos.TimerRestart
import Mipos.TimerActivations
import Mipos.TimerSlots
import Mipos.KernelWrap
import Mipos.KernelDelays
import Mipos.SysTick
import Mipos.ContextSwitch
import Mipos.Stm8Contexts
