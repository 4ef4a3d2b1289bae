import TorchOS.Paging.Allocators
import Mathlib.Data.List.Nodup

/-!
# The search loops of the page allocators

`page_frame_allocate` and `page_table_allocate` look for a free page in two nested
loops, over the words of a bitmap and over the bits of the first word that is not full,
and leave both with `break`. They take the lowest clear bit, and so a run from a clear
bitmap hands out the pages of the area in order.
-/

namespace TorchOS.Paging

open Base Base.Program

/-- The nested loops: the index of the bit they set, or -1 where they set none, and the
bitmap they leave. -/
def findFree {size : Nat} (bitmap : Bitmap size) : Int × Bitmap size := Id.run do
  let mut pageIndex : Int := -1
  let mut bitmap := bitmap
  for i in [0:size] do
    if bitmap.word i ≠ 0xFFFFFFFF then
      for j in [0:32] do
        if bitmap.word i &&& Bitmap.mask j = 0 then
          pageIndex := i * 32 + j
          bitmap := bitmap.setWord i (bitmap.word i ||| Bitmap.mask j)
          break
      break
  return (pageIndex, bitmap)

/-- The search both allocators make in their own bitmap and area. -/
def allocatePage {size : Nat} (bitmap : Machine → Bitmap size)
    (setBitmap : Machine → Bitmap size → Machine) (areaStart : UInt32) (message : String) :
    Kernel UInt32 := do
  let found ← read fun s => findFree (bitmap s)
  update fun s => setBitmap s found.2
  panicIf (found.1 = -1) message
  pure (areaStart + pageSize * UInt32.ofInt found.1)

/-- The search of `page_frame_allocate`: the physical address it goes on with. -/
def pageFrameSearch : Kernel UInt32 :=
  allocatePage Machine.pageFrameBitmap (fun s bitmap => { s with pageFrameBitmap := bitmap })
    pageFrameAllocatorAreaStart "Page frame allocator has run out of space!"

/-- The body of `page_table_allocate`. -/
def pageTableSearch : Kernel UInt32 :=
  allocatePage Machine.pageTableBitmap (fun s bitmap => { s with pageTableBitmap := bitmap })
    pageTableAreaStart "Trying to allocate page tables but no page tables left to allocate!"

/-- A loop that changes nothing until it breaks stops at the first index it looks for. -/
theorem forIn_break {α : Type} (indices : List Nat) (start : α) (hit : α → Nat → Prop)
    [∀ acc, DecidablePred (hit acc)] (found : α → Nat → α) :
    forIn indices start (fun index acc =>
        if hit acc index then (pure (.done (found acc index)) : Id (ForInStep α))
        else pure (.yield acc)) =
      (pure (match indices.find? fun index => hit start index with
        | some index => found start index
        | none => start) : Id α) := by
  induction indices with
  | nil => rfl
  | cons index rest ih =>
      rw [List.forIn_cons]
      by_cases here : hit start index
      · simp [here]
      · simp only [here, if_false, pure_bind, ih, List.find?_cons, decide_false]

/-- The loop over the bits of word `i`. -/
theorem scanBits_eq {size : Nat} (i : Nat) (start : Int × Bitmap size) :
    forIn [0:32] start (fun j acc =>
        if acc.2.word i &&& Bitmap.mask j = 0 then
          (pure (.done ((i : Int) * 32 + j, acc.2.setWord i (acc.2.word i ||| Bitmap.mask j))) :
            Id (ForInStep (Int × Bitmap size)))
        else pure (.yield (acc.1, acc.2))) =
      (pure (match (List.range 32).find? fun j => start.2.word i &&& Bitmap.mask j = 0 with
        | some j => ((i : Int) * 32 + j, start.2.setWord i (start.2.word i ||| Bitmap.mask j))
        | none => start) : Id (Int × Bitmap size)) := by
  rw [Std.Legacy.Range.forIn_eq_forIn_range', List.range_eq_range']
  exact forIn_break _ start (fun acc j => acc.2.word i &&& Bitmap.mask j = 0)
    fun acc j => ((i : Int) * 32 + j, acc.2.setWord i (acc.2.word i ||| Bitmap.mask j))

/-- The nested loops find the lowest clear bit. -/
theorem findFree_eq {size : Nat} (bitmap : Bitmap size) :
    findFree bitmap =
      match bitmap.firstFit with
      | some (index, after) => ((index : Int), after)
      | none => (-1, bitmap) := by
  unfold findFree
  simp only [scanBits_eq, pure_bind]
  have words := forIn_break (List.range size) ((-1, bitmap) : Int × Bitmap size)
    (fun acc i => acc.2.word i ≠ 0xFFFFFFFF)
    fun acc i => match (List.range 32).find? fun j => acc.2.word i &&& Bitmap.mask j = 0 with
      | some j => ((i : Int) * 32 + j, acc.2.setWord i (acc.2.word i ||| Bitmap.mask j))
      | none => (acc.1, acc.2)
  have range : List.range' [:size].start [:size].size [:size].step = List.range size := by
    simp [Std.Legacy.Range.size, List.range_eq_range']
  rw [Std.Legacy.Range.forIn_eq_forIn_range', range]
  refine (congrArg (fun loop => Id.run (loop >>= fun found => pure (found.1, found.2)))
    words).trans ?_
  simp only [pure_bind, Id.run_pure, Bitmap.firstFit]
  cases (List.range size).find? fun i => bitmap.word i ≠ 0xFFFFFFFF with
  | none => rfl
  | some i =>
      simp only
      cases (List.range 32).find? fun j => bitmap.word i &&& Bitmap.mask j = 0 with
      | none => rfl
      | some j => simp

theorem ofInt_natCast (index : Nat) : UInt32.ofInt index = UInt32.ofNat index := by
  have cast : ((index : Int) % 2 ^ 32).toNat = index % 2 ^ 32 := by omega
  rw [UInt32.ofInt, cast, ← UInt32.toNat_inj, UInt32.toNat_ofNat', UInt32.toNat_ofNat', Nat.mod_mod]

/-- A search takes the lowest clear bit, or panics where there is none. -/
theorem allocatePage_run {size : Nat} {bitmap : Machine → Bitmap size}
    {setBitmap : Machine → Bitmap size → Machine} {areaStart : UInt32} {message : String}
    (s : Machine) :
    allocatePage bitmap setBitmap areaStart message s =
      match (bitmap s).firstFit with
      | some (index, after) =>
          .ok (areaStart + pageSize * UInt32.ofNat index) (setBitmap s after)
      | none => .error (.panic message) (setBitmap s (bitmap s)) := by
  rw [allocatePage, bind_of_ok (read_run _ s), bind_of_ok (update_run _ s), findFree_eq]
  cases (bitmap s).firstFit with
  | none =>
      exact bind_of_error (panicIf_panics (decide_eq_true rfl))
  | some found =>
      obtain ⟨index, after⟩ := found
      refine (bind_of_ok (panicIf_run ?_)).trans ?_
      · simp only [decide_eq_false_iff_not]
        omega
      · rw [pure_run, ofInt_natCast]

theorem takePageFrame_eq : takePageFrame = pageFrameSearch := by
  funext s
  rw [pageFrameSearch, allocatePage_run, takePageFrame]
  cases s.pageFrameBitmap.firstFit with
  | none => rfl
  | some found => rfl

theorem pageTableAllocate_eq : pageTableAllocate = pageTableSearch := by
  funext s
  rw [pageTableSearch, allocatePage_run, pageTableAllocate]
  cases s.pageTableBitmap.firstFit with
  | none => rfl
  | some found => rfl

/-! ## First fit -/

/-- One call after another: the pages handed out, in order. -/
def takePages (search : Kernel UInt32) : Nat → Kernel (List UInt32)
  | 0 => pure []
  | count + 1 => do
      let earlier ← takePages search count
      let next ← search
      pure (earlier ++ [next])

/-- A first-fit allocator of the pages of an area, one for each bit of its bitmap. -/
structure FirstFit {size : Nat} (search : Kernel UInt32) (bitmap : Machine → Bitmap size)
    (areaStart areaEnd : UInt32) (message : String) : Prop where
  /-- There is a bit for each page of the area. -/
  covers : areaEnd.toNat = areaStart.toNat + 4096 * (32 * size)
  /-- The lowest clear bit is set, and no other bit changes. -/
  takes : ∀ s index, index < 32 * size → (bitmap s).isSet index = false →
    (∀ lower < index, (bitmap s).isSet lower = true) →
      ∃ page after, search s = .ok page after ∧
        page.toNat = areaStart.toNat + 4096 * index ∧ PageAligned page ∧
        areaStart ≤ page ∧ page < areaEnd ∧
        ∀ other, (bitmap after).isSet other = ((bitmap s).isSet other || decide (other = index))
  /-- The allocator panics exactly when every bit is set. -/
  panics : ∀ s, (∃ after, search s = .error (.panic message) after) ↔
    ∀ index < 32 * size, (bitmap s).isSet index = true
  /-- Nothing else makes it fail. -/
  returns : ∀ s, (∃ page after, search s = .ok page after) ∨
    ∃ after, search s = .error (.panic message) after
  /-- From a clear bitmap the pages of the area come out in order, each once. -/
  run : ∀ s, (∀ index, (bitmap s).isSet index = false) → ∀ count ≤ 32 * size,
    ∃ pages after, takePages search count s = .ok pages after ∧ pages.Nodup ∧
      pages.map UInt32.toNat = (List.range count).map fun index => areaStart.toNat + 4096 * index
  /-- The call after the last page panics. -/
  exhausts : ∀ s, (∀ index, (bitmap s).isSet index = false) →
    ∃ after, takePages search (32 * size + 1) s = .error (.panic message) after

section Allocator

variable {size : Nat} {bitmap : Machine → Bitmap size}
  {setBitmap : Machine → Bitmap size → Machine} {areaStart areaEnd : UInt32} {message : String}

/-- The page of a bit lies in the area. -/
theorem toNat_page (covers : areaEnd.toNat = areaStart.toNat + 4096 * (32 * size)) {index : Nat}
    (inside : index < 32 * size) :
    (areaStart + pageSize * UInt32.ofNat index).toNat = areaStart.toNat + 4096 * index := by
  have wide := areaEnd.toNat_lt
  rw [UInt32.toNat_add, UInt32.toNat_mul, UInt32.toNat_ofNat', toNat_pageSize]
  omega

/-- From a clear bitmap the first pages come out in order. -/
theorem takePages_run (get_set : ∀ s filled, bitmap (setBitmap s filled) = filled)
    (covers : areaEnd.toNat = areaStart.toNat + 4096 * (32 * size)) {s : Machine}
    (clear : (bitmap s).Filled 0) {count : Nat} (room : count ≤ 32 * size) :
    ∃ pages after,
      takePages (allocatePage bitmap setBitmap areaStart message) count s = .ok pages after ∧
        (pages.map UInt32.toNat =
          (List.range count).map fun index => areaStart.toNat + 4096 * index) ∧
        (bitmap after).Filled count := by
  induction count with
  | zero => exact ⟨[], s, rfl, rfl, clear⟩
  | succ count ih =>
      obtain ⟨pages, middle, run, listed, filled⟩ := ih (by omega)
      obtain ⟨next, taken, more⟩ := filled.firstFit (by omega)
      have call : allocatePage bitmap setBitmap areaStart message middle =
          .ok (areaStart + pageSize * UInt32.ofNat count) (setBitmap middle next) := by
        rw [allocatePage_run, taken]
      refine ⟨_, _, (bind_of_ok run).trans ((bind_of_ok call).trans (pure_run _ _)), ?_, ?_⟩
      · rw [List.map_append, listed, List.range_succ, List.map_append, List.map_singleton,
          List.map_singleton, toNat_page covers (by omega)]
      · rwa [get_set]

theorem allocatePage_firstFit (get_set : ∀ s filled, bitmap (setBitmap s filled) = filled)
    (covers : areaEnd.toNat = areaStart.toNat + 4096 * (32 * size))
    (aligned : areaStart.toNat % 4096 = 0) :
    FirstFit (allocatePage bitmap setBitmap areaStart message) bitmap areaStart areaEnd message := by
  refine ⟨covers, ?_, ?_, ?_, ?_, ?_⟩
  · intro s index inside clear lowest
    cases taken : (bitmap s).firstFit with
    | none =>
        have full := Bitmap.firstFit_eq_none_iff.mp taken index inside
        rw [full] at clear
        cases clear
    | some found =>
        obtain ⟨first, after⟩ := found
        obtain ⟨_, isClear, lower, sets⟩ := Bitmap.firstFit_some taken
        have same : first = index := by
          rcases Nat.lt_trichotomy first index with below | here | above
          · rw [lowest first below] at isClear
            cases isClear
          · exact here
          · rw [lower index above] at clear
            cases clear
        subst same
        have page := toNat_page covers inside
        refine ⟨_, _, (allocatePage_run s).trans (by rw [taken]), page, ?_, ?_, ?_, ?_⟩
        · rw [PageAligned, page]
          omega
        · rw [UInt32.le_iff_toNat_le, page]
          omega
        · rw [UInt32.lt_iff_toNat_lt, page, covers]
          omega
        · rwa [get_set]
  · intro s
    rw [allocatePage_run, ← Bitmap.firstFit_eq_none_iff]
    cases (bitmap s).firstFit <;> simp
  · intro s
    rw [allocatePage_run]
    cases (bitmap s).firstFit <;> simp
  · intro s clear count room
    have filled : (bitmap s).Filled 0 := fun index => by simp [clear]
    obtain ⟨pages, after, run, listed, _⟩ := takePages_run get_set covers filled room
    refine ⟨pages, after, run, ?_, listed⟩
    have distinct : (pages.map UInt32.toNat).Nodup := by
      rw [listed]
      refine List.Nodup.map (fun left right same => ?_) List.nodup_range
      simpa using same
    exact distinct.of_map _
  · intro s clear
    have filled : (bitmap s).Filled 0 := fun index => by simp [clear]
    obtain ⟨pages, after, run, _, full⟩ := takePages_run get_set covers filled le_rfl
    have none : (bitmap after).firstFit = none :=
      Bitmap.firstFit_eq_none_iff.mpr fun index inside => by simpa [full index] using inside
    refine ⟨setBitmap after (bitmap after), (bind_of_ok run).trans (bind_of_error ?_)⟩
    rw [allocatePage_run, none]

end Allocator

/-- Both page allocators are first fit. -/
theorem searches_firstFit :
    FirstFit pageFrameSearch Machine.pageFrameBitmap pageFrameAllocatorAreaStart
        pageFrameAllocatorAreaEnd "Page frame allocator has run out of space!" ∧
      FirstFit pageTableSearch Machine.pageTableBitmap pageTableAreaStart pageTableAreaEnd
        "Trying to allocate page tables but no page tables left to allocate!" := by
  constructor
  · exact allocatePage_firstFit (fun _ _ => rfl) (by rw [pageFrameBitmapSize_eq]; rfl) rfl
  · exact allocatePage_firstFit (fun _ _ => rfl) (by rw [pageTableBitmapSize_eq]; rfl) rfl

end TorchOS.Paging
