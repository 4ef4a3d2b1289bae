import TorchOS.Base.Program
import TorchOS.Base.Bytes
import TorchOS.Base.Bitmap
import Mathlib.Order.Interval.Set.Defs

/-!
# The machine the kernel runs on

Physical memory, the processor's paging registers and the kernel's own global
variables. `Layout` is what the linker decides: where the page directory, the
two boot page tables and a few functions and strings lie.
-/

namespace TorchOS

open Base

/-! ## Memory regions -/

def pageSize : UInt32 := 4096
def kernelStart : UInt32 := 0x00100000
def kernelEnd : UInt32 := 0x00300000
def pageTableAreaStart : UInt32 := 0x00500000
def pageTableAreaEnd : UInt32 := 0x00900000
def pageFrameAllocatorAreaStart : UInt32 := 0x00900000
def pageFrameAllocatorAreaEnd : UInt32 := 0x0F000000
def heapAllocatorAreaStart : UInt32 := 0x0F000000
def heapAllocatorAreaEnd : UInt32 := 0x11000000
def vgaMemory : UInt32 := 0x000B8000

@[simp] theorem toNat_pageSize : pageSize.toNat = 4096 := rfl
@[simp] theorem toNat_kernelStart : kernelStart.toNat = 0x00100000 := rfl
@[simp] theorem toNat_kernelEnd : kernelEnd.toNat = 0x00300000 := rfl
@[simp] theorem toNat_pageTableAreaStart : pageTableAreaStart.toNat = 0x00500000 := rfl
@[simp] theorem toNat_pageTableAreaEnd : pageTableAreaEnd.toNat = 0x00900000 := rfl
@[simp] theorem toNat_pageFrameAllocatorAreaStart :
    pageFrameAllocatorAreaStart.toNat = 0x00900000 := rfl
@[simp] theorem toNat_pageFrameAllocatorAreaEnd :
    pageFrameAllocatorAreaEnd.toNat = 0x0F000000 := rfl
@[simp] theorem toNat_heapAllocatorAreaStart :
    heapAllocatorAreaStart.toNat = 0x0F000000 := rfl
@[simp] theorem toNat_heapAllocatorAreaEnd : heapAllocatorAreaEnd.toNat = 0x11000000 := rfl
@[simp] theorem toNat_vgaMemory : vgaMemory.toNat = 0x000B8000 := rfl

/-- The number of words of `page_frame_bitmap`. Kept folded, so that no proof
steps through the bitmap word by word. -/
@[irreducible] def pageFrameBitmapSize : Nat :=
  (pageFrameAllocatorAreaEnd - pageFrameAllocatorAreaStart).toNat / 4096 / 32

/-- The number of words of `page_table_bitmap`. -/
@[irreducible] def pageTableBitmapSize : Nat :=
  (pageTableAreaEnd - pageTableAreaStart).toNat / 4096 / 32

theorem pageFrameBitmapSize_eq : pageFrameBitmapSize = 1848 := by
  unfold pageFrameBitmapSize
  rfl

theorem pageTableBitmapSize_eq : pageTableBitmapSize = 32 := by
  unfold pageTableBitmapSize
  rfl

theorem pageTableBitmapSize_pos : 0 < pageTableBitmapSize := by
  rw [pageTableBitmapSize_eq]
  decide

/-! ## Machine state -/

/-- Why the kernel stops for good: a call of `panic`, a page fault, which
`page_fault_handler` answers by hanging, a call through a pointer to no function
of the kernel, or a loop that never ends. -/
inductive Halt where
  | panic (message : String)
  | pageFault (address : UInt32)
  | wildCall (address : UInt32)
  | endless
  deriving DecidableEq

/-- A block handed out by `heap_allocate`: its address and its size. -/
structure Block where
  start : UInt32
  size : UInt32
  deriving DecidableEq

/-- The addresses of a block. -/
def Block.span (block : Block) : Set UInt32 := Span block.start block.size.toNat

/-- The addresses of a block in unbounded integers. -/
def Block.extent (block : Block) : Set Nat :=
  Set.Ico block.start.toNat (block.start.toNat + block.size.toNat)

/-- An argument of a log line: a string read from memory, or a number. -/
inductive LogArgument where
  | str (text : List UInt8)
  | number (value : UInt32)
  deriving DecidableEq

/-- A call of `logf`: its format and its arguments. -/
structure LogLine where
  format : String
  arguments : List LogArgument
  deriving DecidableEq

/-- Physical memory, the processor's paging registers, and the kernel's globals.

`kallocs` is the history of `heap_allocate`: every block it has returned, oldest
first. `serial` is what `logf` has printed. -/
structure Machine where
  mem : Bytes
  paging : Bool
  cr3 : UInt32
  pageFrameBitmap : Bitmap pageFrameBitmapSize
  pageTableBitmap : Bitmap pageTableBitmapSize
  heapCurrent : UInt32
  heapMapped : UInt32
  root : UInt32
  kallocs : List Block
  serial : List LogLine

/-- The machine when the boot loader enters the kernel: paging is off and the
kernel's globals are zero, whatever memory holds. -/
def Machine.boot (mem : Bytes) : Machine where
  mem := mem
  paging := false
  cr3 := 0
  pageFrameBitmap := Bitmap.clear pageFrameBitmapSize
  pageTableBitmap := Bitmap.clear pageTableBitmapSize
  heapCurrent := 0
  heapMapped := 0
  root := 0
  kallocs := []
  serial := []

/-- The machine with other memory. -/
def Machine.withMem (s : Machine) (mem : Bytes) : Machine := { s with mem := mem }

/-- The machine with another log. -/
def Machine.withSerial (s : Machine) (serial : List LogLine) : Machine :=
  { s with serial := serial }

namespace Machine

variable (s : Machine) (mem mem' : Bytes) (serial : List LogLine)

@[simp] theorem withMem_mem : (s.withMem mem).mem = mem := rfl
@[simp] theorem withMem_root : (s.withMem mem).root = s.root := rfl
@[simp] theorem withMem_kallocs : (s.withMem mem).kallocs = s.kallocs := rfl
@[simp] theorem withMem_serial : (s.withMem mem).serial = s.serial := rfl
@[simp] theorem withMem_withMem : (s.withMem mem).withMem mem' = s.withMem mem' := rfl
@[simp] theorem withMem_self : s.withMem s.mem = s := rfl
@[simp] theorem withSerial_mem : (s.withSerial serial).mem = s.mem := rfl
@[simp] theorem withSerial_withSerial (serial' : List LogLine) :
    (s.withSerial serial).withSerial serial' = s.withSerial serial' := rfl
@[simp] theorem withSerial_root : (s.withSerial serial).root = s.root := rfl
@[simp] theorem withSerial_kallocs : (s.withSerial serial).kallocs = s.kallocs := rfl

end Machine

/-- Kernel code: it changes the machine, and returns or halts. -/
abbrev Kernel := Program Halt Machine

/-- `panic` when a check fails. -/
def panicIf (failed : Bool) (message : String) : Kernel Unit :=
  Program.haltIf failed (.panic message)

theorem panicIf_run {failed : Bool} {message : String} {s : Machine} (passed : failed = false) :
    panicIf failed message s = .ok () s := by
  subst passed
  rfl

theorem panicIf_panics {failed : Bool} {message : String} {s : Machine} (fails : failed = true) :
    panicIf failed message s = .error (.panic message) s := by
  subst fails
  rfl

/-- More rounds than any loop over 32-bit values can make without repeating. -/
def loopBound : Nat := 2 ^ 32 + 1

/-- Addresses the compiler and the linker choose. The three page-aligned arrays of
`memory.h` are distinct objects of the kernel image, which lies in the kernel
area, as `page_table_bitmap` does. The file operations are functions, `rootName` and
`testFileName` string literals, and `test`, `testData` and `testBuffer` locals of
`init_filesystem`. -/
structure Layout where
  pageDirectory : UInt32
  firstPageTable : UInt32
  secondPageTable : UInt32
  pageDirectory_aligned : pageDirectory.toNat % 4096 = 0
  firstPageTable_aligned : firstPageTable.toNat % 4096 = 0
  secondPageTable_aligned : secondPageTable.toNat % 4096 = 0
  first_ne_directory : firstPageTable ≠ pageDirectory
  second_ne_directory : secondPageTable ≠ pageDirectory
  first_ne_second : firstPageTable ≠ secondPageTable
  pageDirectory_inKernel : kernelStart ≤ pageDirectory ∧ pageDirectory < kernelEnd
  firstPageTable_inKernel : kernelStart ≤ firstPageTable ∧ firstPageTable < kernelEnd
  secondPageTable_inKernel : kernelStart ≤ secondPageTable ∧ secondPageTable < kernelEnd
  pageTableBitmap : UInt32
  pageTableBitmap_aligned : pageTableBitmap.toNat % 4 = 0
  pageTableBitmap_inKernel : kernelStart ≤ pageTableBitmap ∧ pageTableBitmap < kernelEnd
  ramdiskRead : UInt32
  ramdiskWrite : UInt32
  ramdiskSeek : UInt32
  ramdiskRead_ne_null : ramdiskRead ≠ 0
  ramdiskWrite_ne_null : ramdiskWrite ≠ 0
  ramdiskSeek_ne_null : ramdiskSeek ≠ 0
  read_ne_write : ramdiskRead ≠ ramdiskWrite
  rootName : UInt32
  testFileName : UInt32
  test : UInt32
  testData : UInt32
  testBuffer : UInt32

/-- One way to lay the kernel out: code first, then literals, the arrays at the
third megabyte with `page_table_bitmap` behind the others, and the stack below the
kernel's end. -/
def Layout.sample : Layout where
  pageDirectory := 0x00200000
  firstPageTable := 0x00201000
  secondPageTable := 0x00202000
  pageDirectory_aligned := rfl
  firstPageTable_aligned := rfl
  secondPageTable_aligned := rfl
  first_ne_directory := by decide
  second_ne_directory := by decide
  first_ne_second := by decide
  pageDirectory_inKernel := by decide
  firstPageTable_inKernel := by decide
  secondPageTable_inKernel := by decide
  pageTableBitmap := 0x00203000
  pageTableBitmap_aligned := rfl
  pageTableBitmap_inKernel := by decide
  ramdiskRead := 0x00101000
  ramdiskWrite := 0x00101100
  ramdiskSeek := 0x00101200
  ramdiskRead_ne_null := by decide
  ramdiskWrite_ne_null := by decide
  ramdiskSeek_ne_null := by decide
  read_ne_write := by decide
  rootName := 0x00110000
  testFileName := 0x00110008
  test := 0x00208000
  testData := 0x00208070
  testBuffer := 0x00208078

end TorchOS
