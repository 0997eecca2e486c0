import MosRv.Lib.Prog
import MosRv.Lib.ProgLoop
import MosRv.Lib.Simulation
import MosRv.Lib.Traced
import MosRv.Lib.RefGraph
import MosRv.Lib.Bits
import MosRv.Lib.ByteMem
import MosRv.Lib.TailQueue
import MosRv.Lib.LinkedLists
import MosRv.Lib.Ring
import MosRv.Lib.RoundRobin
import MosRv.Mmu
import MosRv.LibString
import MosRv.Queue
import MosRv.Print
import MosRv.Pmap
import MosRv.PageTable
import MosRv.PageMap
import MosRv.Kernel
import MosRv.Env
import MosRv.Syscall
import MosRv.Traps
import MosRv.TrapEntry
import MosRv.Run
import MosRv.VmInit
import MosRv.KernelMap
import MosRv.PageRuns
import MosRv.KernelLists
import MosRv.Sched
import MosRv.SchedTurns
import MosRv.Acts
import MosRv.EnvTable
import MosRv.Sends
import MosRv.SchedList
import MosRv.ElfLoad
import MosRv.Contexts
import MosRv.Returns
import MosRv.Failures
import MosRv.PageTransfer
import MosRv.Window
import MosRv.Teardown
import MosRv.Fs.Ide
import MosRv.Fs.Remount
import MosRv.Fs.Grants
import MosRv.Fs.WriteSize
import MosRv.Fs.OpenTable
import MosRv.Fs.Truncate
import MosRv.Fs.Create
import MosRv.Fs.IdeRw
import MosRv.User.Ipc
import MosRv.User.FileRw
import MosRv.User.FailedCalls
import MosRv.User.InitStack
import MosRv.User.FsIpc
import MosRv.User.Fork
import MosRv.User.PipeRing
import MosRv.User.PipeClosed
import MosRv.User.Readline
import MosRv.User.Gettoken
import MosRv.User.Parsecmd
import MosRv.User.Process
import MosRv.User.Fd
import MosRv.User.PipeCreate
import MosRv.User.Close
import MosRv.User.Dup
import MosRv.User.FdNumbers
import MosRv.User.Mappings
import MosRv.User.Memory
import MosRv.User.Cow
import MosRv.Isolation
import MosRv.Lib.CopyOnWrite
import MosRv.User.Calls
import MosRv.User.Relatives
import MosRv.User.RelativesSteps
import MosRv.User.RelativesFork
import MosRv.User.RelativesRun
import MosRv.Lib.Spread
import MosRv.Fs.Format
import MosRv.Fs.Laid
import MosRv.Fs.LaidTree
import MosRv.Fs.LaidRoom
import MosRv.Fs.FormatRuns
import MosRv.Fs.FormatDisk
