import CleanOS.Thread.WakeUp
import CleanOS.Thread.Segment
import CleanOS.Thread.Completion
import CleanOS.Thread.Pids
import CleanOS.Fs.Ownership
import CleanOS.Fs.Descriptors
import CleanOS.Fs.Ext2InPlace
import CleanOS.Net.PacketBytes
import CleanOS.Net.PacketSequence
import CleanOS.Net.RoundTrip
import CleanOS.Net.AddrText
import CleanOS.Net.Routing
import CleanOS.Net.SocketAddr
import CleanOS.Net.Icmp
import CleanOS.Memory.Fork
import CleanOS.Memory.MapMem
import CleanOS.Memory.AddrAllocator
import CleanOS.Memory.Teardown
import CleanOS.Glibc.HeapCalls
import CleanOS.Memory.ProgramImage
import CleanOS.Thread.Execve
import CleanOS.Fs.LongNameRoundTrip
import CleanOS.Net.EtherRoundTrip
import CleanOS.Fs.FatTimes
import CleanOS.Fs.LongNameAccess
import CleanOS.Fs.Ext2Enumerate
import CleanOS.Fs.Ext2DirBounds
import CleanOS.Fs.Ext2Mapping
import CleanOS.Fs.BlockAddress
import CleanOS.Device.Disk
import CleanOS.Tty.ConsoleState
import CleanOS.Tty.Page
import CleanOS.Net.Rtl8139
import CleanOS.Fs.MountPoints
import CleanOS.Fs.Ext2Open
import CleanOS.Common.BitmapScan
import CleanOS.Common.Printf
import CleanOS.Common.Mkdatetime
import CleanOS.Net.Nlist
import CleanOS.Common.ListRuns
import CleanOS.Net.TransmitRing
import CleanOS.App.Shell
import CleanOS.Common.TokenRuns
import CleanOS.Common.StringPrimitives
import CleanOS.Fs.FileRuns
