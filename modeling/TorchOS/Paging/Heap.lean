import TorchOS.Paging.Allocators
import Mathlib.Order.Interval.Set.Basic

/-!
# Heap blocks never overlap while sizes do not wrap

What mapping code may change and how it may stop, then one specification of
`heap_allocate` for every size, and from it the run theorem: every call of a run
panics or returns a fresh block inside the heap area exactly when no call is
made with a size that carries `heap_current` past 2^32.
-/

namespace TorchOS.Paging

open Base Base.Program

/-! ## What mapping code changes, and how it stops -/

/-- Only memory and the two bitmaps may differ. -/
structure SameGlobals (before after : Machine) : Prop where
  paging : after.paging = before.paging
  cr3 : after.cr3 = before.cr3
  heapCurrent : after.heapCurrent = before.heapCurrent
  heapMapped : after.heapMapped = before.heapMapped
  root : after.root = before.root
  kallocs : after.kallocs = before.kallocs
  serial : after.serial = before.serial

theorem SameGlobals.refl (s : Machine) : SameGlobals s s :=
  ⟨rfl, rfl, rfl, rfl, rfl, rfl, rfl⟩

theorem SameGlobals.trans {a b c : Machine} (first : SameGlobals a b) (second : SameGlobals b c) :
    SameGlobals a c where
  paging := second.paging.trans first.paging
  cr3 := second.cr3.trans first.cr3
  heapCurrent := second.heapCurrent.trans first.heapCurrent
  heapMapped := second.heapMapped.trans first.heapMapped
  root := second.root.trans first.root
  kallocs := second.kallocs.trans first.kallocs
  serial := second.serial.trans first.serial

/-- The kernel stops in a panic, or in a page fault once paging is on. -/
def Stops (paging : Bool) : Halt → Prop
  | .panic _ => True
  | .pageFault _ => paging = true
  | .wildCall _ => False
  | .endless => False

/-- A step that touches only memory and the bitmaps, and stops in no other way
than a panic or a page fault. -/
structure Settles {α : Type} (program : Kernel α) : Prop where
  yields : ∀ s, Yields (program s) (fun _ after => SameGlobals s after) (Stops s.paging)

theorem Settles.pure {α : Type} (value : α) : Settles (pure value : Kernel α) :=
  ⟨fun s => SameGlobals.refl s⟩

/-- A settling step after others that left the globals alone. -/
theorem Settles.after {α : Type} {program : Kernel α} (settles : Settles program)
    {before s : Machine} (same : SameGlobals before s) :
    Yields (program s) (fun _ after => SameGlobals before after) (Stops before.paging) :=
  (settles.yields s).mono (fun _ _ later => same.trans later) fun _ stops => by
    rwa [same.paging] at stops

theorem Settles.bind {α β : Type} {first : Kernel α} {rest : α → Kernel β}
    (left : Settles first) (right : ∀ value, Settles (rest value)) :
    Settles (first >>= rest) :=
  ⟨fun s => (left.yields s).bind fun value _ same => (right value).after same⟩

theorem panicIf_settles (failed : Bool) (message : String) :
    Settles (panicIf failed message) := by
  refine ⟨fun s => ?_⟩
  cases failed with
  | true => exact trivial
  | false => exact SameGlobals.refl s

theorem physical_isSome_or_paging (s : Machine) (address : UInt32) :
    (∃ target, physical s address = some target) ∨
      physical s address = none ∧ s.paging = true := by
  unfold physical
  cases s.paging with
  | false => exact .inl ⟨address, rfl⟩
  | true => cases walk s.mem s.cr3 address <;> simp

theorem loadWord_settles (address : UInt32) : Settles (loadWord address) := by
  refine ⟨fun s => ?_⟩
  rcases physical_isSome_or_paging s address with ⟨target, reaches⟩ | ⟨faults, paged⟩
  · rw [loadWord_of_physical reaches]
    exact SameGlobals.refl s
  · simp only [loadWord, faults]
    exact paged

theorem storeWord_settles (address value : UInt32) : Settles (storeWord address value) := by
  refine ⟨fun s => ?_⟩
  rcases physical_isSome_or_paging s address with ⟨target, reaches⟩ | ⟨faults, paged⟩
  · rw [storeWord_of_physical reaches]
    exact ⟨rfl, rfl, rfl, rfl, rfl, rfl, rfl⟩
  · simp only [storeWord, faults]
    exact paged

theorem storeByte_settles (address : UInt32) (value : UInt8) :
    Settles (storeByte address value) := by
  refine ⟨fun s => ?_⟩
  rcases physical_isSome_or_paging s address with ⟨target, reaches⟩ | ⟨faults, paged⟩
  · rw [storeByte_of_physical reaches]
    exact ⟨rfl, rfl, rfl, rfl, rfl, rfl, rfl⟩
  · simp only [storeByte, faults]
    exact paged

theorem pageTableAllocate_settles : Settles pageTableAllocate := by
  refine ⟨fun s => ?_⟩
  unfold pageTableAllocate
  split
  · exact trivial
  · exact ⟨rfl, rfl, rfl, rfl, rfl, rfl, rfl⟩

theorem takePageFrame_settles : Settles takePageFrame := by
  refine ⟨fun s => ?_⟩
  unfold takePageFrame
  split
  · exact trivial
  · exact ⟨rfl, rfl, rfl, rfl, rfl, rfl, rfl⟩

theorem presentEntry_settles (directory index : UInt32) :
    Settles (presentEntry directory index) := by
  refine (loadWord_settles _).bind fun entry => ?_
  split
  · exact .pure entry
  · refine pageTableAllocate_settles.bind fun table => ?_
    exact (storeWord_settles _ _).bind fun _ => loadWord_settles _

theorem mapPage_settles (directory virtualAddress physicalAddress : UInt32) :
    Settles (mapPage directory virtualAddress physicalAddress) := by
  refine (panicIf_settles _ _).bind fun _ => (panicIf_settles _ _).bind fun _ => ?_
  exact (presentEntry_settles _ _).bind fun _ => storeWord_settles _ _

theorem memset_settles (bufptr : UInt32) (value : UInt8) (size : UInt32) :
    Settles (memset bufptr value size) :=
  ⟨fun s => Yields.times (I := fun _ => SameGlobals s) (SameGlobals.refl s)
    fun _ _ _ same => (storeByte_settles _ _).after same⟩

theorem pageFrameAllocate_settles (layout : Layout) (virtualAddress : UInt32) :
    Settles (pageFrameAllocate layout virtualAddress) := by
  refine (panicIf_settles _ _).bind fun _ => takePageFrame_settles.bind fun frame => ?_
  refine (mapPage_settles _ _ _).bind fun _ => (memset_settles _ _ _).bind fun _ => ?_
  exact .pure virtualAddress

/-- While paging is off, `memset` fills its span and cannot stop. -/
theorem memset_of_unpaged {s : Machine} (unpaged : s.paging = false) (bufptr : UInt32)
    (value : UInt8) (size : UInt32) :
    memset bufptr value size s =
      .ok () (s.withMem (s.mem.write bufptr (List.replicate size.toNat value))) := by
  refine Lib.memsetBy_run (fun s => s.paging = false) (fun address s unpaged => ?_)
    (fun _ => unpaged) bufptr size
  rw [storeByte_of_physical (physical_of_unpaged unpaged _)]
  rfl

/-! ## One allocation -/

section Allocate

variable {layout : Layout} {s : Machine} {size : UInt32}

/-- The mapping loop ends: it returns once the watermark covers the request, or
stops with one of the allocations it makes. -/
theorem heapMapUpTo_yields
    (below : (s.heapCurrent + size).toNat ≤ heapAllocatorAreaEnd.toNat) :
    Yields (heapMapUpTo layout size s)
      (fun _ after => after.heapCurrent = s.heapCurrent ∧ after.kallocs = s.kallocs ∧
        after.paging = s.paging ∧ s.heapMapped.toNat ≤ after.heapMapped.toNat ∧
        (s.heapCurrent + size).toNat ≤ after.heapMapped.toNat)
      (Stops s.paging) := by
  -- The request is fixed through the loop, so the distance to it is a variant.
  let Inv : Unit → Machine → Prop := fun _ current =>
    current.heapCurrent = s.heapCurrent ∧ current.kallocs = s.kallocs ∧
      current.paging = s.paging ∧ s.heapMapped.toNat ≤ current.heapMapped.toNat
  let variant : Unit → Machine → Nat := fun _ current =>
    (s.heapCurrent + size).toNat - current.heapMapped.toNat
  have round : ∀ value current, Inv value current →
      decide (current.heapCurrent + size > current.heapMapped) = true →
      Yields (heapMapNext layout current)
        (fun next after => Inv next after ∧ variant next after < variant value current)
        (Stops s.paging) := by
    rintro _ current ⟨sameCurrent, sameBlocks, samePaging, mapped⟩ again
    rw [decide_eq_true_eq, sameCurrent, gt_iff_lt, UInt32.lt_iff_toNat_lt] at again
    rw [toNat_heapAllocatorAreaEnd] at below
    rw [← samePaging]
    refine ((pageFrameAllocate_settles layout current.heapMapped).yields current).bind
      fun _ after same => ?_
    have advanced : (after.heapMapped + pageSize).toNat = current.heapMapped.toNat + 4096 := by
      rw [same.heapMapped, UInt32.toNat_add, toNat_pageSize]
      omega
    refine ⟨⟨same.heapCurrent.trans sameCurrent, same.kallocs.trans sameBlocks,
      same.paging.trans samePaging, ?_⟩, ?_⟩
    · change s.heapMapped.toNat ≤ (after.heapMapped + pageSize).toNat
      omega
    · change _ - (after.heapMapped + pageSize).toNat < _ - current.heapMapped.toNat
      omega
  have enough : variant () s < loopBound := by
    have wide := (s.heapCurrent + size).toNat_lt
    simp only [variant, loopBound]
    omega
  refine (Yields.loop round ⟨rfl, rfl, rfl, Nat.le_refl _⟩ enough).mono ?_ fun _ stops => stops
  rintro _ after ⟨⟨sameCurrent, sameBlocks, samePaging, mapped⟩, done⟩
  rw [decide_eq_false_iff_not, sameCurrent, gt_iff_lt, UInt32.lt_iff_toNat_lt] at done
  exact ⟨sameCurrent, sameBlocks, samePaging, mapped, by omega⟩

/-- What `heap_allocate` does for any size: it returns the old top of the heap and
moves the top by the size, modulo 2^32, or stops. -/
theorem heapAllocate_yields (layout : Layout) (s : Machine) (size : UInt32) :
    Yields (heapAllocate layout size s)
      (fun ret after => ret = s.heapCurrent ∧
        (s.heapCurrent + size).toNat ≤ heapAllocatorAreaEnd.toNat ∧
        after.heapCurrent = s.heapCurrent + size ∧ after.paging = s.paging ∧
        after.heapCurrent.toNat ≤ after.heapMapped.toNat ∧
        after.kallocs = s.kallocs ++ [⟨s.heapCurrent, size⟩])
      (Stops s.paging) := by
  unfold heapAllocate
  rw [bind_of_ok (read_run _ _)]
  cases overflow : decide (s.heapCurrent + size > heapAllocatorAreaEnd) with
  | true => exact trivial
  | false =>
      rw [decide_eq_false_iff_not, gt_iff_lt, UInt32.lt_iff_toNat_lt, Nat.not_lt] at overflow
      rw [bind_of_ok (panicIf_run rfl)]
      refine (heapMapUpTo_yields overflow).bind fun _ grown ⟨sameCurrent, sameBlocks, samePaging,
        _, covered⟩ => ?_
      rw [bind_of_ok (read_run _ _)]
      have clears := ((memset_settles grown.heapCurrent 0 size).yields grown).mono
        (fun _ _ same => same) fun _ stops => samePaging ▸ stops
      refine clears.bind fun _ cleared same => ?_
      refine ⟨same.heapCurrent.trans sameCurrent, overflow, ?_, same.paging.trans samePaging, ?_, ?_⟩
      · change cleared.heapCurrent + size = _
        rw [same.heapCurrent, sameCurrent]
      · change (cleared.heapCurrent + size).toNat ≤ cleared.heapMapped.toNat
        rwa [same.heapCurrent, sameCurrent, same.heapMapped]
      · change cleared.kallocs ++ [⟨cleared.heapCurrent, size⟩] = _
        rw [same.kallocs, sameBlocks, same.heapCurrent, sameCurrent]

theorem heapMapUpTo_of_covered
    (covered : (s.heapCurrent + size).toNat ≤ s.heapMapped.toNat) :
    heapMapUpTo layout size s = .ok () s := by
  have enough : decide (s.heapCurrent + size > s.heapMapped) = false := by
    rwa [decide_eq_false_iff_not, gt_iff_lt, UInt32.lt_iff_toNat_lt, Nat.not_lt]
  exact if_neg (Bool.not_eq_true _ ▸ enough)

/-- Once its pages are mapped, `heap_allocate` clears the block and moves the top. -/
theorem heapAllocate_of_mapped {grown : Machine} (unpaged : grown.paging = false)
    (limit : (s.heapCurrent + size).toNat ≤ heapAllocatorAreaEnd.toNat)
    (maps : heapMapUpTo layout size s = .ok () grown) :
    heapAllocate layout size s = .ok grown.heapCurrent { grown with
      mem := grown.mem.write grown.heapCurrent (List.replicate size.toNat 0)
      heapCurrent := grown.heapCurrent + size
      kallocs := grown.kallocs ++ [⟨grown.heapCurrent, size⟩] } := by
  have passes : decide (s.heapCurrent + size > heapAllocatorAreaEnd) = false := by
    rwa [decide_eq_false_iff_not, gt_iff_lt, UInt32.lt_iff_toNat_lt, Nat.not_lt]
  unfold heapAllocate
  rw [bind_of_ok (read_run _ _), bind_of_ok (panicIf_run passes), bind_of_ok maps,
    bind_of_ok (read_run _ _), bind_of_ok (memset_of_unpaged unpaged _ _ _)]
  rfl

/-- So it does where they were mapped already. -/
theorem heapAllocate_of_covered (unpaged : s.paging = false)
    (limit : (s.heapCurrent + size).toNat ≤ heapAllocatorAreaEnd.toNat)
    (covered : (s.heapCurrent + size).toNat ≤ s.heapMapped.toNat) :
    heapAllocate layout size s = .ok s.heapCurrent { s with
      mem := s.mem.write s.heapCurrent (List.replicate size.toNat 0)
      heapCurrent := s.heapCurrent + size
      kallocs := s.kallocs ++ [⟨s.heapCurrent, size⟩] } :=
  heapAllocate_of_mapped unpaged limit (heapMapUpTo_of_covered covered)

/-- A size that carries the heap top past 2^32 passes the limit check, maps
nothing, and is granted. -/
theorem heapAllocate_of_wrap (layout : Layout) (unpaged : s.paging = false)
    (inHeap : s.heapCurrent.toNat ≤ heapAllocatorAreaEnd.toNat)
    (mapped : s.heapCurrent.toNat ≤ s.heapMapped.toNat)
    (wraps : 2 ^ 32 ≤ s.heapCurrent.toNat + size.toNat) :
    ∃ after, heapAllocate layout size s = .ok s.heapCurrent after := by
  have sizeWide := size.toNat_lt
  have top : (s.heapCurrent + size).toNat = s.heapCurrent.toNat + size.toNat - 2 ^ 32 := by
    have wide := s.heapCurrent.toNat_lt
    rw [UInt32.toNat_add]
    omega
  exact ⟨_, heapAllocate_of_covered unpaged (by omega) (by omega)⟩

end Allocate

/-! ## Runs of allocations -/

/-- A block that lies in the heap area and overlaps none of the earlier ones. -/
structure FreshBlock (earlier : List Block) (block : Block) : Prop where
  inHeap : block.extent ⊆ Set.Ico heapAllocatorAreaStart.toNat heapAllocatorAreaEnd.toNat
  apart : ∀ old ∈ earlier, Disjoint block.extent old.extent

/-- Every call of a run stops the kernel or returns a fresh block. -/
inductive BlocksFresh (layout : Layout) : List Block → Machine → List UInt32 → Prop where
  | done {earlier : List Block} {s : Machine} : BlocksFresh layout earlier s []
  | granted {earlier : List Block} {s after : Machine} {size ret : UInt32} {rest : List UInt32}
      (returned : heapAllocate layout size s = .ok ret after)
      (fresh : FreshBlock earlier ⟨ret, size⟩)
      (later : BlocksFresh layout (earlier ++ [⟨ret, size⟩]) after rest) :
      BlocksFresh layout earlier s (size :: rest)
  | stopped {earlier : List Block} {s after : Machine} {size : UInt32} {reason : Halt}
      {rest : List UInt32} (halted : heapAllocate layout size s = .error reason after)
      (stops : Stops s.paging reason) : BlocksFresh layout earlier s (size :: rest)

/-- No call of a run is made with a size that carries the heap top past 2^32. -/
def NeverWraps (layout : Layout) : Machine → List UInt32 → Prop
  | _, [] => True
  | s, size :: rest =>
      s.heapCurrent.toNat + size.toNat < 2 ^ 32 ∧
        ∀ ret after, heapAllocate layout size s = .ok ret after → NeverWraps layout after rest

/-- The heap top stays in the heap area, above every block handed out and below
the mapped watermark. -/
structure HeapBounded (earlier : List Block) (s : Machine) : Prop where
  above : heapAllocatorAreaStart.toNat ≤ s.heapCurrent.toNat
  below : s.heapCurrent.toNat ≤ heapAllocatorAreaEnd.toNat
  mapped : s.heapCurrent.toNat ≤ s.heapMapped.toNat
  blocks : ∀ old ∈ earlier, old.start.toNat + old.size.toNat ≤ s.heapCurrent.toNat

section Runs

variable {layout : Layout} {earlier : List Block} {s : Machine} {size : UInt32}

/-- A call that does not wrap hands out a fresh block and keeps the heap bounded. -/
theorem heapAllocate_fresh (layout : Layout) (bounded : HeapBounded earlier s)
    (fits : s.heapCurrent.toNat + size.toNat < 2 ^ 32) :
    Yields (heapAllocate layout size s)
      (fun ret after => FreshBlock earlier ⟨ret, size⟩ ∧ after.paging = s.paging ∧
        HeapBounded (earlier ++ [⟨ret, size⟩]) after)
      (Stops s.paging) := by
  refine (heapAllocate_yields layout s size).mono ?_ fun _ stops => stops
  rintro ret after ⟨rfl, limit, current, samePaging, mapped, _⟩
  have top : (s.heapCurrent + size).toNat = s.heapCurrent.toNat + size.toNat := by
    rw [UInt32.toNat_add]
    omega
  rw [top] at limit
  have above := bounded.above
  refine ⟨⟨Set.Ico_subset_Ico above limit, ?_⟩, samePaging, ?_⟩
  · intro old member
    have ends := bounded.blocks old member
    rw [Set.disjoint_left]
    rintro address ⟨atLeast, _⟩ ⟨_, upTo⟩
    simp only at atLeast
    omega
  · rw [current] at mapped
    refine ⟨by rw [current, top]; omega, by rw [current, top]; exact limit,
      by rw [current]; exact mapped, ?_⟩
    intro old member
    rw [current, top]
    rcases List.mem_append.mp member with before | last
    · have ends := bounded.blocks old before
      omega
    · rw [List.mem_singleton.mp last]

theorem blocksFresh_of_neverWraps (sizes : List UInt32) (bounded : HeapBounded earlier s)
    (fits : NeverWraps layout s sizes) : BlocksFresh layout earlier s sizes := by
  induction sizes generalizing earlier s with
  | nil => exact .done
  | cons size rest ih =>
      obtain ⟨here, later⟩ := fits
      have fresh := heapAllocate_fresh layout bounded here
      cases run : heapAllocate layout size s with
      | ok ret after =>
          obtain ⟨block, _, boundedAfter⟩ := fresh.of_ok run
          exact .granted run block (ih boundedAfter (later ret after run))
      | error reason after => exact .stopped run (fresh.of_error run)

/-- A run that never hands out a bad block never wraps: the block of a wrapping
call would end past the heap area. -/
theorem neverWraps_of_blocksFresh (sizes : List UInt32) (unpaged : s.paging = false)
    (bounded : HeapBounded earlier s) (fresh : BlocksFresh layout earlier s sizes) :
    NeverWraps layout s sizes := by
  induction sizes generalizing earlier s with
  | nil => trivial
  | cons size rest ih =>
      have fits : s.heapCurrent.toNat + size.toNat < 2 ^ 32 := by
        by_contra wraps
        obtain ⟨after, granted⟩ := heapAllocate_of_wrap layout unpaged bounded.below
          bounded.mapped (Nat.le_of_not_lt wraps)
        cases fresh with
        | stopped halted _ =>
            rw [granted] at halted
            cases halted
        | granted returned block _ =>
            rw [granted] at returned
            cases returned
            have below := bounded.below
            have last : s.heapCurrent.toNat + size.toNat - 1 ∈
                Block.extent ⟨s.heapCurrent, size⟩ := by
              rw [toNat_heapAllocatorAreaEnd] at below
              exact ⟨by simp only; omega, by simp only; omega⟩
            have inside := (block.inHeap last).2
            rw [toNat_heapAllocatorAreaEnd] at inside
            omega
      refine ⟨fits, fun ret after returned => ?_⟩
      obtain ⟨_, samePaging, boundedAfter⟩ :=
        (heapAllocate_fresh layout bounded fits).of_ok returned
      cases fresh with
      | stopped halted _ =>
          rw [returned] at halted
          cases halted
      | granted again _ later =>
          rw [returned] at again
          cases again
          exact ih (samePaging.trans unpaged) boundedAfter later

theorem initHeapAllocator_run :
    initHeapAllocator s = .ok () { s with
      heapCurrent := heapAllocatorAreaStart
      heapMapped := heapAllocatorAreaStart } := rfl

theorem initHeapAllocator_bounded {after : Machine}
    (initialised : initHeapAllocator s = .ok () after) :
    HeapBounded [] after ∧ after.paging = s.paging := by
  rw [initHeapAllocator_run] at initialised
  injection initialised with _ same
  subst same
  have ordered : heapAllocatorAreaStart.toNat ≤ heapAllocatorAreaEnd.toNat := by decide
  exact ⟨⟨Nat.le_refl _, ordered, Nat.le_refl _, by simp⟩, rfl⟩

/-- From the state `init_heap_allocator` leaves, a run of allocations that never
wraps hands out fresh blocks only; and while paging is off, as it is there, a run
that hands out fresh blocks only never wraps. -/
theorem heapRun_fresh_iff_neverWraps {after : Machine}
    (initialised : initHeapAllocator s = .ok () after) (sizes : List UInt32) :
    (NeverWraps layout after sizes → BlocksFresh layout [] after sizes) ∧
      (s.paging = false →
        (BlocksFresh layout [] after sizes ↔ NeverWraps layout after sizes)) := by
  obtain ⟨bounded, samePaging⟩ := initHeapAllocator_bounded initialised
  refine ⟨blocksFresh_of_neverWraps sizes bounded, fun unpaged => ?_⟩
  exact ⟨neverWraps_of_blocksFresh sizes (samePaging.trans unpaged) bounded,
    blocksFresh_of_neverWraps sizes bounded⟩

end Runs

/-- The heap of a machine whose memory is all zero, as `init_heap_allocator` leaves it. -/
def emptyHeap : Machine :=
  { Machine.boot fun _ => 0 with
    heapCurrent := heapAllocatorAreaStart
    heapMapped := heapAllocatorAreaStart }

theorem heapRun_fresh_two_blocks : BlocksFresh Layout.sample [] emptyHeap [16, 32] := by
  have initialised : initHeapAllocator (Machine.boot fun _ => 0) = .ok () emptyHeap :=
    initHeapAllocator_run
  refine (heapRun_fresh_iff_neverWraps initialised [16, 32]).1 ⟨by decide, ?_⟩
  intro ret after returned
  have spec := (heapAllocate_yields Layout.sample emptyHeap 16).of_ok returned
  obtain ⟨_, _, current, _⟩ := spec
  refine ⟨?_, fun _ _ _ => trivial⟩
  rw [current]
  decide

/-- The largest size is granted on the first call, past the end of the heap area. -/
theorem heapRun_not_fresh_of_wrap :
    ∃ after, initHeapAllocator (Machine.boot fun _ => 0) = .ok () after ∧
      ¬ BlocksFresh Layout.sample [] after [0xFFFFFFFF] := by
  refine ⟨emptyHeap, initHeapAllocator_run, fun fresh => ?_⟩
  have initialised : initHeapAllocator (Machine.boot fun _ => 0) = .ok () emptyHeap :=
    initHeapAllocator_run
  have bounded := (initHeapAllocator_bounded initialised).1
  have unpaged : emptyHeap.paging = false := rfl
  have fits := (neverWraps_of_blocksFresh _ unpaged bounded fresh).1
  revert fits
  decide

end TorchOS.Paging
