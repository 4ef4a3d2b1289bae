import TorchOS.Lib.Memory

/-!
# The ramdisk filesystem of `filesystem.c`

Nodes, directory entries and ramdisk blocks are records in memory, reached
through the addresses of their fields. `kalloc` is a parameter: the kernel
passes `heap_allocate`.
-/

namespace TorchOS.Filesystem

open Base Base.Program Lib

/-- `MAX` -/
def maxWord (a b : UInt32) : UInt32 := if a > b then a else b

theorem toNat_maxWord (a b : UInt32) : (maxWord a b).toNat = max a.toNat b.toNat := by
  unfold maxWord
  split
  next above =>
    rw [gt_iff_lt, UInt32.lt_iff_toNat_lt] at above
    omega
  next below =>
    rw [gt_iff_lt, UInt32.lt_iff_toNat_lt] at below
    omega

/-! ## Records -/

/-- `sizeof(fs_node_t)` -/
def nodeSize : UInt32 := 168

/-- `MAX_FILENAME_LENGTH` -/
def maxFilenameLength : UInt32 := 128

/-- `sizeof(fs_dirent_t)` -/
def direntSize : UInt32 := 8

/-- `sizeof(struct block)` -/
def blockSize : UInt32 := 132

/-- `fs_node_type_t` -/
inductive NodeType where
  | file
  | directory
  deriving DecidableEq

/-- The enumeration constant of a node type. -/
def NodeType.value : NodeType → UInt32
  | .file => 0
  | .directory => 1

/-! The fields of `fs_node_t`. The last two groups are the union. -/

namespace Node

def name (node : UInt32) : UInt32 := node
def type (node : UInt32) : UInt32 := node + 128
def read (node : UInt32) : UInt32 := node + 132
def write (node : UInt32) : UInt32 := node + 136
def seek (node : UInt32) : UInt32 := node + 140

def offset (node : UInt32) : UInt32 := node + 152
def buffer (node : UInt32) : UInt32 := node + 156
def canonicalSize (node : UInt32) : UInt32 := node + 160
def allocatedSize (node : UInt32) : UInt32 := node + 164

def head (node : UInt32) : UInt32 := node + 152
def size (node : UInt32) : UInt32 := node + 156
def parent (node : UInt32) : UInt32 := node + 160

end Node

/-! The fields of `fs_dirent_t` and of `struct block`. -/

namespace Dirent

def node (entry : UInt32) : UInt32 := entry
def next (entry : UInt32) : UInt32 := entry + 4

end Dirent

namespace RamdiskBlock

def size (block : UInt32) : UInt32 := block
def name (block : UInt32) : UInt32 := block + 4

end RamdiskBlock

/-! ## Ramdisk operations -/

/-- The check of `ramdisk_read` that the read ends inside the file. -/
def checkReadEnd (node offset size : UInt32) : Kernel Unit := do
  let canonicalSize ← getWord (Node.canonicalSize node)
  if offset + size > canonicalSize then
    logf "%u %u %u\n" [.number offset, .number size, .number canonicalSize]
    halt (.panic "Trying to RAMDISK read past the end of a file!")
  else pure ()

/-- `ramdisk_read` -/
def ramdiskRead (node offset size buffer : UInt32) : Kernel UInt32 := do
  panicIf ((← getWord (Node.type node)) ≠ NodeType.file.value)
    "Trying to RAMDISK read from a node that is not a file!"
  checkReadEnd node offset size
  memcpy buffer ((← getWord (Node.buffer node)) + offset) size
  putWord (Node.offset node) (offset + size)
  pure size

/-- `ramdisk_write` -/
def ramdiskWrite (node offset size buffer : UInt32) : Kernel UInt32 := do
  panicIf ((← getWord (Node.type node)) ≠ NodeType.file.value)
    "Trying to RAMDISK write to a node that is not a file!"
  panicIf (offset > (← getWord (Node.canonicalSize node)))
    "Trying to RAMDISK write to a node an an invalid offset"
  panicIf (offset + size > (← getWord (Node.allocatedSize node))) "Uh-oh"
  memcpy ((← getWord (Node.buffer node)) + offset) buffer size
  putWord (Node.canonicalSize node)
    (maxWord (← getWord (Node.canonicalSize node)) (offset + size))
  putWord (Node.offset node) (offset + size)
  pure size

/-- `ramdisk_seek` -/
def ramdiskSeek (node position : UInt32) : Kernel UInt32 := do
  panicIf ((← getWord (Node.type node)) ≠ NodeType.file.value)
    "Trying to RAMDISK seek to a node that is not a file!"
  panicIf (position > (← getWord (Node.allocatedSize node)) || position < 0)
    "Position is invalid during RAMDISK seek!"
  putWord (Node.offset node) position
  pure position

/-! ## General operations -/

section Operations

variable (layout : Layout) (kalloc : UInt32 → Kernel UInt32)

/-- A call through `node->read` or `node->write`, which have one type. -/
def callTransfer (pointer node offset size buffer : UInt32) : Kernel UInt32 :=
  if pointer = layout.ramdiskRead then ramdiskRead node offset size buffer
  else if pointer = layout.ramdiskWrite then ramdiskWrite node offset size buffer
  else halt (.wildCall pointer)

/-- A call through `node->seek`. -/
def callSeek (pointer node position : UInt32) : Kernel UInt32 :=
  if pointer = layout.ramdiskSeek then ramdiskSeek node position
  else halt (.wildCall pointer)

/-- `fs_read` -/
def fsRead (node size buffer : UInt32) : Kernel UInt32 := do
  panicIf ((← getWord (Node.read node)) = 0) "fs_read function pointer not set!"
  callTransfer layout (← getWord (Node.read node)) node (← getWord (Node.offset node)) size buffer

/-- `fs_write` -/
def fsWrite (node size buffer : UInt32) : Kernel UInt32 := do
  panicIf ((← getWord (Node.write node)) = 0) "fs_write function pointer not set!"
  callTransfer layout (← getWord (Node.write node)) node (← getWord (Node.offset node)) size buffer

/-- `fs_seek` -/
def fsSeek (node position : UInt32) : Kernel UInt32 := do
  panicIf ((← getWord (Node.seek node)) = 0) "fs_seek function pointer not set!"
  callSeek layout (← getWord (Node.seek node)) node position

/-- The search of `fs_add_dirent` for the last entry. -/
def lastDirent (head : UInt32) : Kernel UInt32 :=
  loop (fun current s => s.mem.load32 (Dirent.next current) ≠ 0)
    (fun current => getWord (Dirent.next current)) .endless loopBound head

/-- The pointer that `fs_add_dirent` stores the new entry in: the head of an empty
directory, the last entry's `next` otherwise. -/
def direntLink (directory : UInt32) : Kernel UInt32 := do
  let current ← getWord (Node.head directory)
  if current = 0 then pure (Node.head directory)
  else
    let last ← lastDirent current
    pure (Dirent.next last)

/-- A new entry for a file, stored in `link`. -/
def newDirent (link file : UInt32) : Kernel Unit := do
  putWord link (← kalloc direntSize)
  let current ← getWord link
  putWord (Dirent.node current) file
  putWord (Dirent.next current) 0

/-- `fs_add_dirent` -/
def fsAddDirent (directory file : UInt32) : Kernel Unit := do
  logf "Adding file %s to directory %s\n" [.str (Node.name file), .str (Node.name directory)]
  panicIf ((← getWord (Node.type directory)) ≠ NodeType.directory.value)
    "Trying to add an entry to a node that this not a directory!"
  panicIf ((← getWord (Node.type file)) ≠ NodeType.file.value)
    "Trying to add an entry that is not a file!"
  let link ← direntLink directory
  newDirent kalloc link file
  putWord (Node.size directory) ((← getWord (Node.size directory)) + 1)

/-- The part of `fs_construct_node` before the union: the name, the type and the
operations. -/
def initHeader (node name : UInt32) (type : NodeType) : Kernel Unit := do
  memset (Node.name node) 0 maxFilenameLength
  strcpy (Node.name node) name
  putWord (Node.type node) type.value
  putWord (Node.read node) layout.ramdiskRead
  putWord (Node.write node) layout.ramdiskWrite
  putWord (Node.seek node) layout.ramdiskSeek

/-- The part of `fs_construct_node` that depends on the type. -/
def initContents (node : UInt32) : NodeType → Kernel Unit
  | .file => do
      putWord (Node.offset node) 0
      putWord (Node.buffer node) (← kalloc 256)
      putWord (Node.canonicalSize node) 0
      putWord (Node.allocatedSize node) 256
  | .directory => do
      putWord (Node.head node) 0
      putWord (Node.size node) 0
      putWord (Node.parent node) 0

/-- `fs_construct_node` -/
def fsConstructNode (name : UInt32) (type : NodeType) : Kernel UInt32 := do
  let node ← kalloc nodeSize
  initHeader layout node name type
  initContents kalloc node type
  pure node

/-- One round of `read_ramdisk`: the block at `current`, and the next block. -/
def readBlock (current : UInt32) : Kernel UInt32 := do
  let contents := current + blockSize
  logf "Name: %s\n" [.str (RamdiskBlock.name current)]
  logf "\tSize: %u\n" [.number (← getWord (RamdiskBlock.size current))]
  logf "\tContents: %s\n" [.str contents]
  let temp ← fsConstructNode layout kalloc (RamdiskBlock.name current) .file
  logf "%u\n" [.number (← getWord (Node.allocatedSize temp))]
  logf "%u\n" [.number (← getWord (RamdiskBlock.size current))]
  let _ ← fsWrite layout temp (← getWord (RamdiskBlock.size current)) contents
  fsAddDirent kalloc (← read Machine.root) temp
  pure (current + (blockSize + (← getWord (RamdiskBlock.size current))))

/-- The loop of `read_ramdisk`, from `current` on. -/
def readBlocks (initrdEnd current : UInt32) : Kernel UInt32 :=
  loop (fun current _ => current < initrdEnd) (readBlock layout kalloc) .endless loopBound current

/-- `read_ramdisk` -/
def readRamdisk (initrdStart initrdEnd : UInt32) : Kernel Unit := do
  logf "===== READING FROM RAMDISK =====\n" []
  let _ ← readBlocks layout kalloc initrdEnd initrdStart
  pure ()

/-- One round of the listing in `init_filesystem`: the entry at `current`, and the next. -/
def listEntry (current : UInt32) : Kernel UInt32 := do
  let node ← getWord (Dirent.node current)
  let _ ← fsSeek layout node 0
  let node ← getWord (Dirent.node current)
  let _ ← fsRead layout node (← getWord (Node.canonicalSize node)) layout.test
  let node ← getWord (Dirent.node current)
  logf "Filename: %s\n" [.str (Node.name node)]
  logf "Size: %u\n" [.number (← getWord (Node.canonicalSize node))]
  logf "%s\n" [.str layout.test]
  getWord (Dirent.next current)

/-- The listing of the root directory in `init_filesystem`. -/
def listRoot : Kernel Unit := do
  logf "==== Reading Root Directory ====\n" []
  let head ← getWord (Node.head (← read Machine.root))
  let _ ← loop (fun current _ => current ≠ 0) (listEntry layout) .endless loopBound head
  pure ()

/-- The verdict of the read-back test. -/
def checkReadBack : Kernel Unit := do
  if (← strncmp layout.testData layout.testBuffer 5) ≠ 0 then
    halt (.panic "FS Write and Read Back Test Failed\n")
  else logf "Test Passed!\n" []

/-- The read-back test of `init_filesystem`. -/
def testReadBack : Kernel Unit := do
  update fun s => s.withMem (s.mem.write layout.testData [72, 101, 108, 108, 111])  -- "Hello"
  memset layout.testBuffer 0 5
  logf "==== Testing FS Write and Read Back ====\n" []
  let testFile ← fsConstructNode layout kalloc layout.testFileName .file
  let _ ← fsSeek layout testFile 0
  let _ ← fsWrite layout testFile 5 layout.testData
  let _ ← fsSeek layout testFile 0
  let _ ← fsRead layout testFile 5 layout.testBuffer
  checkReadBack layout
  panicIf ((← getWord (Node.offset testFile)) ≠ 5)
    "test_file does not have the correct offset!"

/-- `init_filesystem` -/
def initFilesystem (initrdStart initrdEnd : UInt32) : Kernel Unit := do
  let node ← fsConstructNode layout kalloc layout.rootName .directory
  update fun s => { s with root := node }
  readRamdisk layout kalloc initrdStart initrdEnd
  listRoot layout
  testReadBack layout kalloc

end Operations

end TorchOS.Filesystem
