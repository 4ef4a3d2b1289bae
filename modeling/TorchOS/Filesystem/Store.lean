import TorchOS.Filesystem.Nodes
import Mathlib.Logic.Function.Basic

/-!
# The filesystem is a store of byte strings with cursors

Runs construct files and seek, write and read them in any order, while the rest
of the kernel does what it likes outside their memory. Replaying what was asked
of the files gives the store each reached state represents, and each call
returns with the abstract answer, or panics when there is none.
-/

namespace TorchOS.Filesystem

open Base Base.Program Lib

/-- The files, by the address of their nodes. -/
abbrev Store := UInt32 → Option ByteFile

/-- A file was constructed, or answered a request. -/
inductive Event where
  | made (node : UInt32)
  | answered (node : UInt32) (request : ByteFile.Request)

/-- The store after an event. -/
def Store.after (files : Store) : Event → Store
  | .made node => Function.update files node (some ByteFile.empty)
  | .answered node request =>
      Function.update files node ((files node).bind fun file => file.answer 256 request)

/-- The store after a history, from none on. -/
def replay (events : List Event) : Store := events.foldl Store.after fun _ => none

theorem replay_snoc (events : List Event) (event : Event) :
    replay (events ++ [event]) = (replay events).after event := by
  simp [replay, List.foldl_append]

/-- A call of one of the three operations. -/
inductive Call where
  | seek (position : UInt32)
  | write (size buffer : UInt32)
  | read (size buffer : UInt32)

namespace Call

/-- The call as the kernel makes it. -/
def run (layout : Layout) (node : UInt32) : Call → Kernel UInt32
  | seek position => fsSeek layout node position
  | write size buffer => fsWrite layout node size buffer
  | read size buffer => fsRead layout node size buffer

/-- What the call asks of the file; a write passes what its buffer holds. -/
def request (mem : Bytes) : Call → ByteFile.Request
  | seek position => .seek position.toNat
  | write size buffer => .write (mem.read buffer size.toNat)
  | read size _ => .read size.toNat

/-- What the call returns. -/
def result : Call → UInt32
  | seek position => position
  | write size _ => size
  | read size _ => size

/-- The number of bytes the call moves. -/
def moved : Call → Nat
  | seek _ => 0
  | write size _ => size.toNat
  | read size _ => size.toNat

/-- The caller's buffer holds what was read. -/
def Delivers (file : ByteFile) (mem : Bytes) : Call → Prop
  | seek _ => True
  | write _ _ => True
  | read size buffer => mem.read buffer size.toNat = file.contents size.toNat

/-- The caller's buffer is its own: what is written does not come out of the
file's buffer, and what is read does not go into the memory of any file. -/
def Allowed (files : Store) (mem : Bytes) (node : UInt32) : Call → Prop
  | seek _ => True
  | write size buffer => Disjoint (Span buffer size.toNat) (Span (bufferOf mem node) 256)
  | read size buffer => ∀ other, (files other).isSome →
      Disjoint (Span buffer size.toNat) (footprint mem other)

/-- The offset and the size of a transfer do not exceed 2^32 - 1 together. -/
def InRange (mem : Bytes) (node : UInt32) (call : Call) : Prop :=
  (mem.load32 (Node.offset node)).toNat + call.moved < 2 ^ 32

end Call

section Store

variable (layout : Layout) (heap : Allocator)

/-- The runs of the filesystem: constructions and calls that returned, and changes
made by other code to anything but the memory of the files. -/
inductive Run (start : Machine) : List Event → Machine → Prop where
  | start (ready : heap.Ready start) : Run start [] start
  | made {events : List Event} {s after : Machine} {name node : UInt32} {text : List UInt8}
      (run : Run start events s) (string : CString s.mem name text) (short : text.length ≤ 127)
      (owned : Disjoint (Span name (text.length + 1)) (heap.reserve s))
      (returned : fsConstructNode layout heap.kalloc name .file s = .ok node after) :
      Run start (events ++ [.made node]) after
  | answered {events : List Event} {s after : Machine} {node ret : UInt32} {call : Call}
      (run : Run start events s) (known : .made node ∈ events)
      (inRange : call.InRange s.mem node) (allowed : call.Allowed (replay events) s.mem node)
      (returned : call.run layout node s = .ok ret after) :
      Run start (events ++ [.answered node (call.request s.mem)]) after
  | elsewhere {events : List Event} {s after : Machine} (run : Run start events s)
      (ready : heap.Ready after) (granted : s.kallocs ⊆ after.kallocs)
      (kept : ∀ node, .made node ∈ events → ∀ address ∈ footprint s.mem node,
        after.mem address = s.mem address) :
      Run start events after

/-- The machine holds the files of a store, in memory handed out for them alone. -/
structure Represents (files : Store) (s : Machine) : Prop where
  ready : heap.Ready s
  held : ∀ {node file}, files node = some file → FileAt layout s.mem node file
  granted : ∀ {node}, (files node).isSome → Disjoint (footprint s.mem node) (heap.reserve s)
  apart : ∀ {node other}, node ≠ other → (files node).isSome → (files other).isSome →
    Disjoint (footprint s.mem node) (footprint s.mem other)

/-- The outcome of a call is the abstract answer, or a panic where there is none. -/
def Answers (files : Store) (s : Machine) (node : UInt32) (file : ByteFile) (call : Call) : Prop :=
  match file.answer 256 (call.request s.mem) with
  | some answered => ∃ after, call.run layout node s = .ok call.result after ∧
      Represents layout heap (Function.update files node (some answered)) after ∧
      call.Delivers file after.mem
  | none => ∃ message after, call.run layout node s = .error (.panic message) after

end Store

section Represented

variable {layout : Layout} {heap : Allocator} {files : Store} {s after : Machine}
  {node : UInt32} {file file' : ByteFile} {call : Call}

/-- What changes only outside the footprints keeps the store. -/
theorem Represents.elsewhere (represents : Represents layout heap files s)
    (ready : heap.Ready after) (granted : s.kallocs ⊆ after.kallocs)
    (kept : ∀ node, (files node).isSome → ∀ address ∈ footprint s.mem node,
      after.mem address = s.mem address) :
    Represents layout heap files after := by
  have same : ∀ node, (files node).isSome → footprint after.mem node = footprint s.mem node :=
    fun node made => footprint_congr (kept node made)
  refine ⟨ready, ?_, ?_, ?_⟩
  · intro node file found
    exact (represents.held found).congr (kept node (by rw [found]; rfl))
  · intro node made
    rw [same node made]
    exact Set.disjoint_of_subset_right (Heap.reserve_anti granted) (represents.granted made)
  · intro node other different made otherMade
    rw [same node made, same other otherMade]
    exact represents.apart different made otherMade

/-- A change to one file, inside its memory, changes that file in the store. -/
theorem Represents.update {mem : Bytes} (represents : Represents layout heap files s)
    (found : files node = some file) (held : FileAt layout mem node file')
    (buffer : bufferOf mem node = bufferOf s.mem node)
    (kept : ∀ other, other ≠ node → (files other).isSome → ∀ address ∈ footprint s.mem other,
      mem address = s.mem address) :
    Represents layout heap (Function.update files node (some file')) (s.withMem mem) := by
  have made : (files node).isSome := by
    rw [found]
    rfl
  have old : ∀ {other}, (Function.update files node (some file') other).isSome →
      (files other).isSome := by
    intro other present
    by_cases same : other = node
    · rw [same]
      exact made
    · rwa [Function.update_of_ne same] at present
  have same : ∀ other, (files other).isSome → footprint mem other = footprint s.mem other := by
    intro other present
    by_cases here : other = node
    · rw [here, footprint, buffer]
      rfl
    · exact footprint_congr (kept other here present)
  refine ⟨Allocator.ready_withMem represents.ready mem, ?_, ?_, ?_⟩
  · intro other file found
    by_cases here : other = node
    · subst here
      rw [Function.update_self] at found
      cases found
      exact held
    · rw [Function.update_of_ne here] at found
      exact (represents.held found).congr (kept other here (by rw [found]; rfl))
  · intro other present
    rw [Machine.withMem_mem, same other (old present)]
    exact represents.granted (old present)
  · intro left right different leftPresent rightPresent
    rw [Machine.withMem_mem, same left (old leftPresent), same right (old rightPresent)]
    exact represents.apart different (old leftPresent) (old rightPresent)

/-- A construction adds the empty file. -/
theorem Represents.made {text : List UInt8} (represents : Represents layout heap files s)
    (constructed : Constructed heap layout text s node after) :
    Represents layout heap (Function.update files node (some ByteFile.empty)) after := by
  have grown : s.kallocs ⊆ after.kallocs := by
    rw [constructed.kallocs]
    exact List.subset_append_left _ _
  have kept : ∀ other, (files other).isSome → ∀ address ∈ footprint s.mem other,
      after.mem address = s.mem address := fun other present address inside =>
    constructed.kept address (Set.disjoint_left.mp (represents.granted present) inside)
  have others := represents.elsewhere constructed.ready grown kept
  have fresh : ∀ {other}, (files other).isSome →
      Disjoint (footprint after.mem other) (footprint after.mem node) := by
    intro other present
    rw [footprint_congr (kept other present)]
    exact Set.disjoint_of_subset_right constructed.fresh (represents.granted present)
  have present : ∀ {other}, other ≠ node →
      (Function.update files node (some ByteFile.empty) other).isSome → (files other).isSome := by
    intro other different made
    rwa [Function.update_of_ne different] at made
  refine ⟨constructed.ready, ?_, ?_, ?_⟩
  · intro other file found
    by_cases here : other = node
    · subst here
      rw [Function.update_self] at found
      cases found
      exact constructed.held
    · rw [Function.update_of_ne here] at found
      exact others.held found
  · intro other made
    by_cases here : other = node
    · rw [here]
      exact constructed.granted
    · exact others.granted (present here made)
  · intro left right different leftMade rightMade
    by_cases leftHere : left = node
    · have rightOther : right ≠ node := fun same => different (leftHere.trans same.symm)
      rw [leftHere]
      exact (fresh (present rightOther rightMade)).symm
    · by_cases rightHere : right = node
      · rw [rightHere]
        exact fresh (present leftHere leftMade)
      · exact others.apart different (present leftHere leftMade) (present rightHere rightMade)

/-- What a call on one file leaves alone outside that file's memory, the other
files keep. -/
theorem Represents.others {mem : Bytes} (represents : Represents layout heap files s)
    (made : (files node).isSome)
    (outside : ∀ address ∉ footprint s.mem node, mem address = s.mem address) :
    ∀ other, other ≠ node → (files other).isSome → ∀ address ∈ footprint s.mem other,
      mem address = s.mem address := fun _ different present address inside =>
  outside address (Set.disjoint_left.mp (represents.apart different present made) inside)

theorem Represents.answers_seek (represents : Represents layout heap files s)
    (found : files node = some file) (position : UInt32) :
    Answers layout heap files s node file (.seek position) := by
  have held := represents.held found
  by_cases inside : position.toNat ≤ 256
  · have answered : file.answer 256 (.seek position.toNat) =
        some { file with cursor := position.toNat } := if_pos inside
    simp only [Answers, Call.request, answered]
    refine ⟨_, fsSeek_ok held inside, represents.update found (held.moved inside) ?_ ?_, trivial⟩
    · exact load32_other_field (by decide) (by decide) (by decide)
    · refine represents.others (by rw [found]; rfl) fun address outside => ?_
      exact store32_outside (by decide) fun inNode => outside (.inl inNode)
  · have refused : file.answer 256 (.seek position.toNat) = none := if_neg inside
    simp only [Answers, Call.request, refused]
    exact ⟨_, _, fsSeek_panics held (by omega)⟩

theorem Represents.answers_write (represents : Represents layout heap files s)
    (found : files node = some file) {size buffer : UInt32}
    (inRange : (Call.write size buffer).InRange s.mem node)
    (apart : Disjoint (Span buffer size.toNat) (Span (bufferOf s.mem node) 256)) :
    Answers layout heap files s node file (.write size buffer) := by
  have held := represents.held found
  have length : (s.mem.read buffer size.toNat).length = size.toNat := Bytes.length_read
  by_cases fits : file.cursor ≤ file.bytes.length ∧ file.cursor + size.toNat ≤ 256
  · have answered : file.answer 256 (.write (s.mem.read buffer size.toNat)) =
        some ⟨splice file.bytes file.cursor (s.mem.read buffer size.toNat),
          file.cursor + size.toNat⟩ := by
      rw [ByteFile.answer, length, if_pos fits]
    obtain ⟨mem, run, heldAfter, rewrites⟩ := fsWrite_ok held fits.1 fits.2 apart
    simp only [Answers, Call.request, answered]
    refine ⟨_, run, represents.update found heldAfter rewrites.buffer ?_, trivial⟩
    exact represents.others (by rw [found]; rfl) fun address outside => rewrites.outside outside
  · have refused : file.answer 256 (.write (s.mem.read buffer size.toNat)) = none := by
      rw [ByteFile.answer, length, if_neg fits]
    have wide : file.cursor + size.toNat < 2 ^ 32 := by
      rw [← held.offset]
      exact inRange
    obtain ⟨message, panics⟩ := fsWrite_panics held wide fits buffer
    simp only [Answers, Call.request, refused]
    exact ⟨message, s, panics⟩

theorem Represents.answers_read (represents : Represents layout heap files s)
    (found : files node = some file) {size buffer : UInt32}
    (inRange : (Call.read size buffer).InRange s.mem node)
    (apart : ∀ other, (files other).isSome →
      Disjoint (Span buffer size.toNat) (footprint s.mem other)) :
    Answers layout heap files s node file (.read size buffer) := by
  have held := represents.held found
  have made : (files node).isSome := by
    rw [found]
    rfl
  by_cases inFile : file.cursor + size.toNat ≤ file.bytes.length
  · have answered : file.answer 256 (.read size.toNat) =
        some { file with cursor := file.cursor + size.toNat } := if_pos inFile
    obtain ⟨mem, run, heldAfter, delivered, kept⟩ := fsRead_ok held inFile (apart node made)
    simp only [Answers, Call.request, answered]
    refine ⟨_, run, represents.update found heldAfter ?_ ?_, delivered⟩
    · apply Bytes.load32_congr
      intro address inField
      have inNode : address ∈ footprint s.mem node := .inl (field_subset (by decide) inField)
      have apartFields : Disjoint (Span (Node.offset node) 4) (Span (Node.buffer node) 4) :=
        Span.shift_disjoint (by decide) (by decide)
      exact kept address (Set.disjoint_right.mp (apart node made) inNode)
        (Set.disjoint_right.mp apartFields inField)
    · intro other different present address inside
      refine kept address (Set.disjoint_right.mp (apart other present) inside) fun inOffset => ?_
      have inNode : address ∈ footprint s.mem node := .inl (field_subset (by decide) inOffset)
      exact Set.disjoint_left.mp (represents.apart different present made) inside inNode
  · have refused : file.answer 256 (.read size.toNat) = none := if_neg inFile
    have wide : file.cursor + size.toNat < 2 ^ 32 := by
      rw [← held.offset]
      exact inRange
    obtain ⟨after, panics⟩ := fsRead_panics held wide (by omega) buffer
    simp only [Answers, Call.request, refused]
    exact ⟨_, after, panics⟩

/-- Every call on a represented file answers as the store does, or panics. -/
theorem Represents.answers (represents : Represents layout heap files s)
    (found : files node = some file) (inRange : call.InRange s.mem node)
    (allowed : call.Allowed files s.mem node) : Answers layout heap files s node file call := by
  cases call with
  | seek position => exact represents.answers_seek found position
  | write size buffer => exact represents.answers_write found inRange allowed
  | read size buffer => exact represents.answers_read found inRange allowed

/-- A call that returned was answered. -/
theorem Answers.of_ok (answers : Answers layout heap files s node file call) {ret : UInt32}
    (returned : call.run layout node s = .ok ret after) :
    ∃ answered, file.answer 256 (call.request s.mem) = some answered ∧
      Represents layout heap (Function.update files node (some answered)) after ∧
      ret = call.result ∧ call.Delivers file after.mem := by
  unfold Answers at answers
  cases outcome : file.answer 256 (call.request s.mem) with
  | some answered =>
      simp only [outcome] at answers
      obtain ⟨_, run, represents, delivers⟩ := answers
      rw [returned] at run
      cases run
      exact ⟨answered, rfl, represents, rfl, delivers⟩
  | none =>
      simp only [outcome] at answers
      obtain ⟨_, _, run⟩ := answers
      rw [returned] at run
      cases run

/-! ## Runs -/

variable {start : Machine} {events : List Event}

/-- In every state a run reaches, the machine represents the store that replaying
the run gives, and a file was constructed exactly where the store has one. -/
theorem Run.represents (run : Run layout heap start events s) :
    Represents layout heap (replay events) s ∧
      ∀ node, .made node ∈ events ↔ (replay events node).isSome := by
  induction run with
  | start ready =>
      refine ⟨⟨ready, ?_, ?_, ?_⟩, ?_⟩
      · intro node file found
        cases found
      · intro node made
        cases made
      · intro node other _ made
        cases made
      · simp [replay]
  | @made _ _ _ _ node _ run string short owned returned ih =>
      obtain ⟨represents, known⟩ := ih
      have constructed :=
        (fsConstructNode_yields represents.ready string short owned).of_ok returned
      rw [replay_snoc]
      refine ⟨represents.made constructed, fun other => ?_⟩
      simp only [List.mem_append, List.mem_singleton, known, Store.after]
      by_cases here : other = node <;> simp [Function.update, here]
  | @answered _ _ _ node _ _ run known inRange allowed returned ih =>
      obtain ⟨represents, same⟩ := ih
      obtain ⟨file, found⟩ := Option.isSome_iff_exists.mp ((same node).mp known)
      obtain ⟨answered, outcome, later, -, -⟩ :=
        (represents.answers found inRange allowed).of_ok returned
      rw [replay_snoc]
      simp only [Store.after, found, Option.bind_some, outcome]
      refine ⟨later, fun other => ?_⟩
      simp only [List.mem_append, List.mem_singleton, same, reduceCtorEq, or_false]
      by_cases here : other = node
      · subst here
        simp [found]
      · simp [Function.update, here]
  | elsewhere run ready granted kept ih =>
      obtain ⟨represents, same⟩ := ih
      exact ⟨represents.elsewhere ready granted fun node made => kept node ((same node).mpr made),
        same⟩

/-- A new file takes no file's place. -/
theorem Represents.not_made {text : List UInt8} (represents : Represents layout heap files s)
    (constructed : Constructed heap layout text s node after) : files node = none := by
  rw [← Option.not_isSome_iff_eq_none]
  intro made
  have first : node ∈ Span node 168 := Span.start_mem (by decide)
  exact Set.disjoint_left.mp (represents.granted made) (.inl first)
    (constructed.fresh (.inl first))

/-- What holds of the files in a state that a run reached by the given events. -/
structure Refines (layout : Layout) (heap : Allocator) (events : List Event) (s : Machine) :
    Prop where
  /-- Every node constructed holds its file: the string, its length as the
  canonical size, and the cursor. -/
  held : ∀ node, .made node ∈ events →
    ∃ file, replay events node = some file ∧ FileAt layout s.mem node file
  /-- A file starts empty, and where no file was. -/
  constructs : ∀ {name node text after}, CString s.mem name text → text.length ≤ 127 →
    Disjoint (Span name (text.length + 1)) (heap.reserve s) →
    fsConstructNode layout heap.kalloc name .file s = .ok node after →
      replay events node = none ∧
        Represents layout heap (Function.update (replay events) node (some ByteFile.empty)) after
  /-- A call returns with the abstract answer and leaves all other files alone, or
  panics exactly where there is no answer. -/
  answers : ∀ {node file call}, replay events node = some file → call.InRange s.mem node →
    call.Allowed (replay events) s.mem node →
      Answers layout heap (replay events) s node file call
  /-- What was written at a position is read back from there. -/
  readsBack : ∀ {earlier node position data} {size buffer : UInt32}, .made node ∈ events →
    events = earlier ++ [.answered node (.seek position), .answered node (.write data),
      .answered node (.seek position)] →
    size.toNat = data.length → (Call.read size buffer).Allowed (replay events) s.mem node →
      ∃ after, fsRead layout node size buffer s = .ok size after ∧
        after.mem.read buffer size.toNat = data

/-- Every run of the filesystem refines the store of byte strings with cursors. -/
theorem run_refines_store (run : Run layout heap start events s) :
    Refines layout heap events s := by
  obtain ⟨represents, known⟩ := run.represents
  refine ⟨?_, ?_, fun found inRange allowed => represents.answers found inRange allowed, ?_⟩
  · intro node made
    obtain ⟨file, found⟩ := Option.isSome_iff_exists.mp ((known node).mp made)
    exact ⟨file, found, represents.held found⟩
  · intro name node text after string short owned returned
    have constructed := (fsConstructNode_yields represents.ready string short owned).of_ok returned
    exact ⟨represents.not_made constructed, represents.made constructed⟩
  · intro earlier node position data size buffer made history length allowed
    obtain ⟨again, found⟩ := Option.isSome_iff_exists.mp ((known node).mp made)
    have chain : (((replay earlier node).bind fun file => file.answer 256 (.seek position)).bind
        fun file => file.answer 256 (.write data)).bind
        (fun file => file.answer 256 (.seek position)) = some again := by
      rw [history] at found
      simpa [replay, List.foldl_append, Store.after] using found
    obtain ⟨written, chain, back⟩ := Option.bind_eq_some_iff.mp chain
    obtain ⟨sought, chain, write⟩ := Option.bind_eq_some_iff.mp chain
    obtain ⟨file, -, seek⟩ := Option.bind_eq_some_iff.mp chain
    obtain ⟨inFile, delivered⟩ := ByteFile.read_after_write seek write back
    obtain ⟨mem, run, -, delivers, -⟩ := fsRead_ok (represents.held found)
      (by rw [length]; exact inFile) (allowed node (by rw [found]; rfl))
    refine ⟨_, run, ?_⟩
    rw [Machine.withMem_mem, delivers, length, delivered]

end Represented

/-! ## A first run -/

/-- A machine with an empty mapped heap, and the bytes `Hello` at address 0x1000. -/
def helloMachine : Machine :=
  { Machine.boot (Bytes.write (fun _ => 0) 0x1000 [72, 101, 108, 108, 111]) with
    heapCurrent := heapAllocatorAreaStart
    heapMapped := heapAllocatorAreaEnd }

theorem helloMachine_ready : MappedHeap helloMachine :=
  ⟨rfl, Nat.le_refl _, by decide, rfl, fun _ member => by cases member⟩

theorem helloMachine_name : CString helloMachine.mem 0x1000 [72, 101, 108, 108, 111] :=
  ⟨by decide, by decide⟩

/-- Low memory is apart from the heap. -/
theorem low_disjoint_heapArena {address : UInt32} {count : Nat}
    (low : address.toNat + count ≤ heapAllocatorAreaStart.toNat) :
    Disjoint (Span address count) heapArena := by
  have limit := heapAllocatorAreaStart.toNat_lt
  rw [Set.disjoint_left]
  intro other inLow inHeap
  have above := (mem_heapArena.mp inHeap).1
  rw [Span.mem_iff (by omega)] at inLow
  omega

theorem helloMachine_owned (s : Machine) :
    Disjoint (Span 0x1000 6) ((mappedHeap Layout.sample).reserve s) :=
  Set.disjoint_of_subset_right mappedHeap_reserve_subset (low_disjoint_heapArena (by decide))

/-- A file is constructed there. -/
theorem helloFile_constructed : ∃ node made,
    fsConstructNode Layout.sample (mappedHeap Layout.sample).kalloc 0x1000 .file helloMachine =
      .ok node made ∧
    Constructed (mappedHeap Layout.sample) Layout.sample [72, 101, 108, 108, 111] helloMachine
      node made := by
  have enough : 424 ≤ (mappedHeap Layout.sample).room helloMachine := by
    change 424 ≤ heapAllocatorAreaEnd.toNat - heapAllocatorAreaStart.toNat
    decide
  exact fsConstructNode_returns helloMachine_ready helloMachine_name (by decide)
    (helloMachine_owned helloMachine) enough

/-- `Hello` is written to it. -/
theorem helloFile_written : ∃ node s,
    Run Layout.sample (mappedHeap Layout.sample) helloMachine
      [.made node, .answered node (.write [72, 101, 108, 108, 111])] s ∧
    FileAt Layout.sample s.mem node ⟨[72, 101, 108, 108, 111], 5⟩ ∧
    footprint s.mem node ⊆ heapArena := by
  have owned := helloMachine_owned helloMachine
  obtain ⟨node, made, constructs, constructed⟩ := helloFile_constructed
  have first :
      Run Layout.sample (mappedHeap Layout.sample) helloMachine ([] ++ [.made node]) made :=
    .made (.start helloMachine_ready) helloMachine_name (by decide) owned constructs
  have data : made.mem.read 0x1000 5 = [72, 101, 108, 108, 111] := by
    have kept : made.mem.read 0x1000 5 = helloMachine.mem.read 0x1000 5 :=
      Bytes.read_congr fun address inText =>
        constructed.kept address (Set.disjoint_left.mp owned (Span.mono (by decide) inText))
    rw [kept]
    decide
  have inHeap : footprint made.mem node ⊆ heapArena :=
    constructed.fresh.trans mappedHeap_reserve_subset
  have apart : Disjoint (Span 0x1000 (5 : UInt32).toNat) (Span (bufferOf made.mem node) 256) :=
    Set.disjoint_of_subset_right (Set.subset_union_right.trans inHeap)
      (low_disjoint_heapArena (by decide))
  have inRange : (Call.write 5 0x1000).InRange made.mem node := by
    rw [Call.InRange, constructed.held.offset]
    decide
  obtain ⟨mem, returned, held, rewrites⟩ :=
    fsWrite_ok constructed.held (by decide) (by decide) apart
  have five : (5 : UInt32).toNat = 5 := rfl
  have second := Run.answered first (List.mem_append_right _ (List.mem_singleton.mpr rfl))
    inRange apart returned
  rw [Call.request, five, data] at second
  rw [five, data] at held
  refine ⟨node, _, second, held, ?_⟩
  exact rewrites.footprint.trans_subset inHeap

/-- Then its cursor is set back. -/
theorem helloFile_rewound : ∃ node s,
    Run Layout.sample (mappedHeap Layout.sample) helloMachine [.made node,
      .answered node (.write [72, 101, 108, 108, 111]), .answered node (.seek 0)] s ∧
    FileAt Layout.sample s.mem node ⟨[72, 101, 108, 108, 111], 0⟩ ∧
    footprint s.mem node ⊆ heapArena := by
  obtain ⟨node, s, run, held, inHeap⟩ := helloFile_written
  have inRange : (Call.seek 0).InRange s.mem node := by
    rw [Call.InRange, held.offset]
    decide
  have third := run.answered List.mem_cons_self inRange trivial (fsSeek_ok held (by decide))
  refine ⟨node, _, third, held.moved (by decide), ?_⟩
  have buffer : bufferOf (s.mem.store32 (Node.offset node) 0) node = bufferOf s.mem node :=
    load32_other_field (by decide) (by decide) (by decide)
  rw [Machine.withMem_mem, footprint, buffer]
  exact inHeap

/-- And `Hello` is read back. -/
theorem run_refines_store_hello : ∃ node s after,
    Refines Layout.sample (mappedHeap Layout.sample) [.made node,
      .answered node (.write [72, 101, 108, 108, 111]), .answered node (.seek 0)] s ∧
    fsRead Layout.sample node 5 0x2000 s = .ok 5 after ∧
    after.mem.read 0x2000 5 = [72, 101, 108, 108, 111] := by
  obtain ⟨node, s, run, held, inHeap⟩ := helloFile_rewound
  have refines := run_refines_store run
  have found : replay [.made node, .answered node (.write [72, 101, 108, 108, 111]),
      .answered node (.seek 0)] node = some ⟨[72, 101, 108, 108, 111], 0⟩ := by
    simp [replay, Store.after]
    decide
  have inRange : (Call.read 5 0x2000).InRange s.mem node := by
    rw [Call.InRange, held.offset]
    decide
  have allowed : (Call.read 5 0x2000).Allowed (replay [.made node,
      .answered node (.write [72, 101, 108, 108, 111]), .answered node (.seek 0)]) s.mem node := by
    intro other made
    have same : other = node := by
      by_contra different
      simp [replay, Store.after, different] at made
    rw [same]
    exact Set.disjoint_of_subset_right inHeap (low_disjoint_heapArena (by decide))
  have answers := refines.answers found inRange allowed
  obtain ⟨after, returned, -, delivers⟩ := answers
  exact ⟨node, s, after, refines, returned, delivers⟩

end TorchOS.Filesystem
