import Makaos.Mm.BuddyCanon
import Makaos.Mm.ForkIsolation
import Makaos.Mm.KheapRun
import Makaos.Mm.PageCache
import Makaos.Mm.PcpRun
import Makaos.Mm.SlabPcpuRun
import Makaos.Syscall.UserPtr
import Makaos.Proc.ChaselevRun
import Makaos.Proc.FutexRun
import Makaos.Proc.RcuCallbacksRun
import Makaos.Proc.RcuGraceRun
import Makaos.Proc.RunQueueRun
import Makaos.Proc.SignalKill
import Makaos.Proc.SignalRun
import Makaos.Proc.TaskExitRun
import Makaos.Proc.WaitQueueRemoved
import Makaos.Fs.BlockCacheRun
import Makaos.Fs.DcacheRun
import Makaos.Fs.FdPath
import Makaos.Fs.InodeCacheRun
import Makaos.Fs.MetaWrite
import Makaos.Fs.PathLookupRun
import Makaos.Fs.PipeRun
import Makaos.Security.Ksec
import Makaos.Security.Pledge
import Makaos.Net.Recv
import Makaos.Net.TcpWait
import Makaos.Net.Udp
import Makaos.Io.Epoll
import Makaos.Io.UringClose
import Makaos.Io.UringCq
import Makaos.Io.UringSlots
import Makaos.Drivers.PtyLife
