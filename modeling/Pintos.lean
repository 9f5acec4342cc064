import Pintos.Filesys.Proofs.CacheRefinement
import Pintos.Filesys.Proofs.CacheReentry
import Pintos.Filesys.Proofs.FreeMapThreads
import Pintos.Threads.Proofs.DonationLaw
import Pintos.Filesys.Proofs.DirThreads
import Pintos.Filesys.Proofs.GrowRollback
import Pintos.Userprog.Proofs.FaultKill
import Pintos.Threads.Proofs.Condvar
import Pintos.Filesys.Proofs.InodeThreads
import Pintos.Vm.Proofs.Clock
import Pintos.Vm.Proofs.EvictRace
import Pintos.Userprog.Proofs.UserBuffer
import Pintos.Userprog.Proofs.Execute
import Pintos.Filesys.Proofs.CacheLocks
import Pintos.Userprog.Proofs.OpenFiles
import Pintos.Userprog.Proofs.Load
import Pintos.Userprog.Proofs.MappedFile
import Pintos.Threads.Proofs.Semaphore
import Pintos.Devices.Proofs.Intq
import Pintos.Userprog.Proofs.LoadFaults
import Pintos.Userprog.Proofs.MmapCall
import Pintos.Threads.Proofs.RunQueue
import Pintos.Threads.Proofs.Mlfqs
import Pintos.Userprog.Proofs.ArgStack
import Pintos.Threads.Proofs.CpuTime
import Pintos.Userprog.Proofs.Segment
import Pintos.Userprog.AllList
import Pintos.Threads.Malloc
import Pintos.Userprog.Proofs.Readdir
import Pintos.Filesys.Proofs.DenyWrite
import Pintos.Filesys.Proofs.GrowSplit
import Pintos.Lib.Arithmetic
import Pintos.Devices.Partition
import Pintos.Filesys.Proofs.PathSplit
import Pintos.Lib.Ustar
