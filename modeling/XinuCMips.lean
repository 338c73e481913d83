import XinuCMips.Heap.Accounting
import XinuCMips.Heap.Freeing
import XinuCMips.Lib.DoubleLinks
import XinuCMips.Kernel.Scheduling
import XinuCMips.Kernel.Priorities
import XinuCMips.Kernel.Semaphores
import XinuCMips.Kernel.Messages
import XinuCMips.Kernel.Patience
import XinuCMips.Kernel.QueueIds
import XinuCMips.Kernel.Deferral
import XinuCMips.Kernel.Killing
import XinuCMips.Kernel.Sections
import XinuCMips.Lib.Delta
import XinuCMips.Lfs.Durable
import XinuCMips.Lfs.Check
import XinuCMips.Lfs.Modes
import XinuCMips.Cpu.Precise
import XinuCMips.Cpu.Masking
import XinuCMips.Irq.Dispatch
import XinuCMips.Irq.Clock
import XinuCMips.Irq.Switch
import XinuCMips.Irq.Records
import XinuCMips.Irq.Contexts
import XinuCMips.Irq.Preserved
import XinuCMips.Net.Exchange
import XinuCMips.Net.Udp
import XinuCMips.Net.Icmp
import XinuCMips.Net.ArpCache
import XinuCMips.Tty.Output
import XinuCMips.Tty.Editor
import XinuCMips.Lfs.Openers
import XinuCMips.Pools.Buffers
import XinuCMips.Ports.Capacity
import XinuCMips.Rds.Buffers
import XinuCMips.Rds.Coherence
import XinuCMips.Rds.Open
import XinuCMips.Rds.Walk
import XinuCMips.Uart.Delivery
import XinuCMips.Uart.Receive
import XinuCMips.Dcache.Transparent
import XinuCMips.Icache.Transparent
import XinuCMips.Fpu.Product
import XinuCMips.Cpu.Unaligned
import XinuCMips.Libxc.RoundTrip
import XinuCMips.Libxc.Printf
import XinuCMips.Lib.CChars
import XinuCMips.Lib.OnesComplement
import XinuCMips.Lib.Tlv
import XinuCMips.Nam.Mapping
import XinuCMips.Net.Checksum
import XinuCMips.Net.Dhcp
import XinuCMips.Net.Lengths
import XinuCMips.Net.Slots
import XinuCMips.Ports.Conservation
import XinuCMips.Rfs.Dot2ip
import XinuCMips.Rfs.Read
import XinuCMips.Tty.Calls
import XinuCMips.Tty.Echo
import XinuCMips.Cpu.Comparisons
import XinuCMips.Cpu.HiLo
import XinuCMips.Cpu.Shifts
import XinuCMips.Cpu.Tlb
import XinuCMips.Date.Ascdate
import XinuCMips.Libxc.Exact
import XinuCMips.Libxc.Qsort
import XinuCMips.Shell.Commands
import XinuCMips.Shell.Tokens
import XinuCMips.Libxc.Classes
import XinuCMips.Rfs.Attempts
import XinuCMips.Flash.Nvram
import XinuCMips.Flash.RoundTrip
import XinuCMips.Libxc.Atoi
import XinuCMips.Libxc.Copying
import XinuCMips.Flash.RoundTrip
import XinuCMips.Libxc.Atoi
import XinuCMips.Libxc.Copying
import XinuCMips.Config.Tables
