import KosKernel.PageFrame.Info
import KosKernel.PageFrame.Realloc
import KosKernel.PageFrame.RamInfo
import KosKernel.PageFrame.Canonical
import KosKernel.Shm.BranchRuns
import KosKernel.Shm.Overlap
import KosKernel.Shm.RemapExact
import KosKernel.Shm.Translate
import KosKernel.Shm.IncrefOverflow
import KosKernel.Shm.Merge
import KosKernel.Shm.InitRam
import KosKernel.Shm.Ldt
import KosKernel.Shm.UnmapStale
import KosKernel.Sync.RwLockRuns
import KosKernel.IoBuf.Runs
import KosKernel.IoBuf.Undo
import KosKernel.IoBuf.Maintain
import KosKernel.Sync.AddistRuns
import KosKernel.Sched.Runs
import KosKernel.BlockFile.Chunks
import KosKernel.BlockFile.Seek
import KosKernel.Proc.PermRuns
import KosKernel.Proc.FdmanRuns
import KosKernel.Proc.Pid
import KosKernel.Paging.Unmap
import KosKernel.Paging.Queries
import KosKernel.Paging.SetFlags
import KosKernel.Fs.PathCompose
import KosKernel.Fat.CacheRuns
import KosKernel.Fat.Mount
import KosKernel.Libc.Time
import KosKernel.Libc.Quote
import KosKernel.Libc.Wildcard
import KosKernel.Libc.Atoi
import KosKernel.Pty.Canon
import KosKernel.Pty.Crlf
import KosKernel.Sync.Mutex
import KosKernel.Sync.UserRwLockRuns
import KosKernel.Libc.EnvironRuns
import KosKernel.Proc.InsmodRuns
import KosKernel.Shm.FutexRuns
