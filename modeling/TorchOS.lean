import TorchOS.Base.Program
import TorchOS.Base.Word
import TorchOS.Base.Bytes
import TorchOS.Base.Bitmap
import TorchOS.Base.Numeral
import TorchOS.Base.Journal
import TorchOS.Base.Chain
import TorchOS.Base.ByteFile
import TorchOS.Base.Run
import TorchOS.Base.Rotation
import TorchOS.Base.Sheet
import TorchOS.Base.Controller
import TorchOS.Base.Uart
import TorchOS.Base.Arena
import TorchOS.Base.Orbit
import TorchOS.Base.Watch
import TorchOS.Base.Cpu
import TorchOS.Base.Descriptor
import TorchOS.Base.Segmented
import TorchOS.Base.Flat
import TorchOS.Base.Code
import TorchOS.Machine
import TorchOS.Lib.Memory
import TorchOS.Lib.Strings
import TorchOS.Lib.Strncmp
import TorchOS.Logger.Printing
import TorchOS.Logger.Format
import TorchOS.Logger.Decimal
import TorchOS.Logger.Hexadecimal
import TorchOS.Logger.Serial
import TorchOS.Paging.Address
import TorchOS.Paging.Mapping
import TorchOS.Paging.Refinement
import TorchOS.Paging.Allocators
import TorchOS.Paging.FirstFit
import TorchOS.Paging.Placement
import TorchOS.Paging.Heap
import TorchOS.Paging.Boot
import TorchOS.Paging.Identity
import TorchOS.Paging.HeapPages
import TorchOS.Paging.FreshTables
import TorchOS.Paging.Tlb
import TorchOS.Paging.HeapStore
import TorchOS.Tasking.Scheduler
import TorchOS.Tasking.RunQueue
import TorchOS.Tasking.Accounting
import TorchOS.Tasking.Waiting
import TorchOS.Tasking.Timer
import TorchOS.Tasking.Switch
import TorchOS.Tasking.Threads
import TorchOS.Tasking.Demonstration
import TorchOS.Filesystem.Ramdisk
import TorchOS.Filesystem.Effects
import TorchOS.Filesystem.Allocator
import TorchOS.Filesystem.Files
import TorchOS.Filesystem.Nodes
import TorchOS.Filesystem.Store
import TorchOS.Filesystem.Bounds
import TorchOS.Filesystem.Directory
import TorchOS.Filesystem.Loading
import TorchOS.Filesystem.Growing
import TorchOS.Filesystem.Reading
import TorchOS.Filesystem.Blocks
import TorchOS.Filesystem.BootHeap
import TorchOS.Filesystem.Copying
import TorchOS.Filesystem.Names
import TorchOS.Filesystem.Decoder
import TorchOS.Filesystem.Termination
import TorchOS.Filesystem.Listing
import TorchOS.Boot
import TorchOS.Multiboot
import TorchOS.Terminal
import TorchOS.Interrupts
import TorchOS.Descriptors.Gdt
import TorchOS.Descriptors.Idt
import TorchOS.Descriptors.Delivery
import TorchOS.Pic
import TorchOS.Keyboard
import TorchOS.Screen
import TorchOS.Text
import TorchOS.Typing
