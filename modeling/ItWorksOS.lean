import ItWorksOS.Foundation.PackedWord
import ItWorksOS.Foundation.ByteMemory
import ItWorksOS.Foundation.PagedMemory
import ItWorksOS.Foundation.LinkedCycle
import ItWorksOS.Foundation.Word32
import ItWorksOS.Foundation.CircularBuffer
import ItWorksOS.Foundation.Numeral
import ItWorksOS.Kernel.Error
import ItWorksOS.Klib.List
import ItWorksOS.Klib.ListCalls
import ItWorksOS.Klib.Memory
import ItWorksOS.Klib.Bitmap
import ItWorksOS.Klib.BitmapSearch
import ItWorksOS.Klib.Endian
import ItWorksOS.Klib.String
import ItWorksOS.Klib.Ringbuf
import ItWorksOS.Klib.Printf
import ItWorksOS.Klib.Conv
import ItWorksOS.Log.Syslog
import ItWorksOS.Log.Printk
import ItWorksOS.Boot.MemoryMap
import ItWorksOS.Mm.Layout
import ItWorksOS.Mm.Pmm
import ItWorksOS.Mm.PmmOwnership
import ItWorksOS.Mm.Kheap
import ItWorksOS.Mm.KheapBlocks
import ItWorksOS.Mm.KheapInvariant
import ItWorksOS.Mm.KheapRun
import ItWorksOS.Mm.KheapRelease
import ItWorksOS.Arch.X86.Mm
import ItWorksOS.Arch.X86.PageTables
import ItWorksOS.Arch.X86.Mapping
import ItWorksOS.Arch.X86.Spaces
import ItWorksOS.Mm.Vmm
import ItWorksOS.Mm.KernelVm
import ItWorksOS.Mm.VmaList
import ItWorksOS.Mm.AddressSpaces
import ItWorksOS.Mm.VmSystem
import ItWorksOS.Mm.KernelIsolation
import ItWorksOS.Mm.VmRefinement
import ItWorksOS.Mm.VmMapFailure
import ItWorksOS.Mm.KernelStack
import ItWorksOS.Mm.KernelStackRun
import ItWorksOS.Mm.KernelStackFailure
import ItWorksOS.Format.Iwbf
import ItWorksOS.Process.Process
import ItWorksOS.Process.Create
import ItWorksOS.Process.CreateRun
import ItWorksOS.Process.LoadEffect
import ItWorksOS.Process.LoadBounds
import ItWorksOS.Process.LoadFidelity
import ItWorksOS.Process.LoadFailure
import ItWorksOS.Device.Bus
import ItWorksOS.Irq.Irq
import ItWorksOS.Irq.Maps
import ItWorksOS.Irq.Descriptors
import ItWorksOS.Drivers.Irqchip.I8259
import ItWorksOS.Drivers.Irqchip.Acknowledge
import ItWorksOS.Drivers.Irqchip.Cascade
import ItWorksOS.Drivers.Timer.I8254
import ItWorksOS.Drivers.Video.VgaText
import ItWorksOS.Drivers.Video.VgaPage
import ItWorksOS.Tools.Mkimage.Tree
import ItWorksOS.Tools.Mkimage.Names
import ItWorksOS.Tools.Mkimage.Fat32
import ItWorksOS.Tools.Mkimage.Clusters
import ItWorksOS.Tools.Mkimage.Partition
import ItWorksOS.Tools.Mkimage.Chains
import ItWorksOS.Tools.Mkimage.ShortNames
import ItWorksOS.Tools.Mkimage.Image
import ItWorksOS.Boot.DiskRead
import ItWorksOS.Boot.Stage2
import ItWorksOS.Boot.Stage2Files
import ItWorksOS.Boot.Stage2Reads
import ItWorksOS.Boot.Stage2Image
import ItWorksOS.Mm.PmmExact
import ItWorksOS.Mm.PmmBoot
import ItWorksOS.Tools.Mkimage.Reserved
import ItWorksOS.Mm.KheapExact
import ItWorksOS.Mm.KheapStale
import ItWorksOS.Mm.KheapOwners
import ItWorksOS.Arch.X86.Permissions
import ItWorksOS.Mm.VmPermissions
import ItWorksOS.Mm.KernelBoot
import ItWorksOS.Boot.Stage2Geometry
import ItWorksOS.Foundation.PathRequests
import ItWorksOS.Tools.Mkimage.Paths
import ItWorksOS.Boot.DiskFiles
import ItWorksOS.Foundation.WordStack
import ItWorksOS.Arch.X86.Cpu
import ItWorksOS.Arch.X86.Gdt
import ItWorksOS.Arch.X86.Idt
import ItWorksOS.Arch.X86.Arch
import ItWorksOS.Arch.X86.Isr
import ItWorksOS.Arch.X86.IsrReturn
import ItWorksOS.Arch.X86.Nesting
import ItWorksOS.Arch.X86.Dispatch
import ItWorksOS.Process.StackFrame
import ItWorksOS.Arch.X86.Proc
import ItWorksOS.Boot.Mbr
import ItWorksOS.Boot.Vbr
import ItWorksOS.Boot.VbrReads
import ItWorksOS.Boot.BootImage
import ItWorksOS.Boot.E820
import ItWorksOS.Boot.BootInfo
import ItWorksOS.Boot.Stage2Entry
import ItWorksOS.Boot.BootLoader
import ItWorksOS.Foundation.Translation
import ItWorksOS.Arch.X86.Mmu
import ItWorksOS.Arch.X86.Entry
import ItWorksOS.Boot.KernelEntry
