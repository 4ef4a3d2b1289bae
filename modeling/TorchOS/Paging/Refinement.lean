import TorchOS.Paging.Mapping
import TorchOS.Base.Journal

/-!
# Page tables refine a finite map

While tables are addressed physically, a well-formed directory behaves as a map
from pages to frames: `map_page` and `unmap_page` write one key of it and leave
every other page alone. The frame condition rests on each table being owned by
one directory entry, and new tables stay owned because the bitmap marks them.
-/

namespace TorchOS.Paging

open Base Base.Program Base.Journal

/-- The page table that directory entry `index` refers to. -/
def tableAt (mem : Bytes) (directory index : UInt32) : UInt32 :=
  getPageTableAddress (entryAt mem directory index)

/-- Directory entry `index` is one of the 1024 and is present. -/
def Entered (mem : Bytes) (directory index : UInt32) : Prop :=
  index.toNat < 1024 ∧ isPresent (entryAt mem directory index) = true

/-- The present entries of the directory refer to pairwise distinct tables, which
are page aligned by the shape of an entry; no table overlaps the directory; and a
table in the page table area has its bit set. -/
structure WellFormed (directory : UInt32) (s : Machine) : Prop where
  distinct : ∀ i j, Entered s.mem directory i → Entered s.mem directory j →
    tableAt s.mem directory i = tableAt s.mem directory j → i = j
  apart : ∀ i, Entered s.mem directory i →
    Disjoint (page (tableAt s.mem directory i)) (page directory)
  reserved : ∀ i, Entered s.mem directory i → InTableArea (tableAt s.mem directory i) →
    s.pageTableBitmap.isSet (tableIndex (tableAt s.mem directory i)) = true

/-! ## What one store leaves alone -/

section Stores

variable {mem : Bytes} {directory table address entry index : UInt32}

theorem entered_of_present (present : isPresent (directoryEntry mem directory address) = true) :
    Entered mem directory (getPageDirectoryIndex address) :=
  ⟨getPageDirectoryIndex_lt address, present⟩

/-- A store into one table leaves the entries of every table on another page. -/
theorem entryAt_withEntry_of_apart {other : UInt32} (inside : index.toNat < 1024)
    (tableAligned : PageAligned table) (otherAligned : PageAligned other)
    (apart : Disjoint (page table) (page other)) :
    entryAt (withEntry mem table address entry) other index = entryAt mem other index :=
  Bytes.load32_store32_of_disjoint
    (Set.disjoint_of_subset (slot_subset_page otherAligned inside)
      (slot_subset_page tableAligned (getPageTableIndex_lt address)) apart.symm)

theorem entryAt_withEntry_same :
    entryAt (withEntry mem table address entry) table (getPageTableIndex address) = entry :=
  Bytes.load32_store32 entry

/-- A store into a table leaves its other entries. -/
theorem entryAt_withEntry_of_ne (tableAligned : PageAligned table) (inside : index.toNat < 1024)
    (other : index ≠ getPageTableIndex address) :
    entryAt (withEntry mem table address entry) table index = entryAt mem table index :=
  Bytes.load32_store32_of_disjoint
    (slot_disjoint tableAligned inside (getPageTableIndex_lt address) other)

theorem entryAt_withTable_same :
    entryAt (withTable mem directory address table) directory (getPageDirectoryIndex address) =
      table ||| 3 :=
  Bytes.load32_store32 _

/-- Putting a table into one directory entry leaves the other entries. -/
theorem entryAt_withTable_of_ne (aligned : PageAligned directory) (inside : index.toNat < 1024)
    (other : index ≠ getPageDirectoryIndex address) :
    entryAt (withTable mem directory address table) directory index =
      entryAt mem directory index :=
  Bytes.load32_store32_of_disjoint
    (slot_disjoint aligned inside (getPageDirectoryIndex_lt address) other)

/-- Putting a table into the directory leaves the entries of tables off its page. -/
theorem entryAt_withTable_of_apart {other : UInt32} (aligned : PageAligned directory)
    (otherAligned : PageAligned other) (inside : index.toNat < 1024)
    (apart : Disjoint (page other) (page directory)) :
    entryAt (withTable mem directory address table) other index = entryAt mem other index :=
  Bytes.load32_store32_of_disjoint
    (Set.disjoint_of_subset (slot_subset_page otherAligned inside)
      (slot_subset_page aligned (getPageDirectoryIndex_lt address)) apart)

end Stores

/-! ## A table just added -/

section Added

variable {s : Machine} {directory virtualAddress physicalAddress other : UInt32} {index : Nat}
  {bitmap : Bitmap pageTableBitmapSize}

theorem directoryEntry_tableAdded :
    directoryEntry (tableAdded s directory virtualAddress index bitmap).mem directory
      virtualAddress = tablePage index ||| 3 := entryAt_withTable_same

theorem servingTable_tableAdded (inside : index < 1024) :
    servingTable (tableAdded s directory virtualAddress index bitmap).mem directory
      virtualAddress = tablePage index := by
  rw [servingTable, directoryEntry_tableAdded,
    getPageTableAddress_or_three (tablePage_aligned inside)]

/-- The entries in use afterwards: the new one, and those in use before, with their
tables. -/
theorem entered_tableAdded (aligned : PageAligned directory) (inside : index < 1024) {i : UInt32}
    (entered : Entered (tableAdded s directory virtualAddress index bitmap).mem directory i) :
    (i = getPageDirectoryIndex virtualAddress ∧
        tableAt (tableAdded s directory virtualAddress index bitmap).mem directory i =
          tablePage index) ∨
      (Entered s.mem directory i ∧
        tableAt (tableAdded s directory virtualAddress index bitmap).mem directory i =
          tableAt s.mem directory i) := by
  obtain ⟨small, there⟩ := entered
  by_cases new : i = getPageDirectoryIndex virtualAddress
  · subst new
    exact .inl ⟨rfl, servingTable_tableAdded inside⟩
  · have old : entryAt (tableAdded s directory virtualAddress index bitmap).mem directory i =
        entryAt s.mem directory i := entryAt_withTable_of_ne aligned small new
    rw [old] at there
    exact .inr ⟨⟨small, there⟩, by rw [tableAt, tableAt, old]⟩

/-- Tables that are distinct stay so when a table is added that is none of them. -/
theorem distinct_tableAdded (aligned : PageAligned directory) (inside : index < 1024)
    (distinct : ∀ i j, Entered s.mem directory i → Entered s.mem directory j →
      tableAt s.mem directory i = tableAt s.mem directory j → i = j)
    (unused : ∀ i, Entered s.mem directory i → tableAt s.mem directory i ≠ tablePage index) :
    ∀ i j, Entered (tableAdded s directory virtualAddress index bitmap).mem directory i →
      Entered (tableAdded s directory virtualAddress index bitmap).mem directory j →
      tableAt (tableAdded s directory virtualAddress index bitmap).mem directory i =
        tableAt (tableAdded s directory virtualAddress index bitmap).mem directory j → i = j := by
  intro i j enteredI enteredJ same
  rcases entered_tableAdded aligned inside enteredI with
      ⟨newI, tableI⟩ | ⟨oldI, tableI⟩ <;>
    rcases entered_tableAdded aligned inside enteredJ with
      ⟨newJ, tableJ⟩ | ⟨oldJ, tableJ⟩ <;>
    rw [tableI, tableJ] at same
  · exact newI.trans newJ.symm
  · exact absurd same.symm (unused j oldJ)
  · exact absurd same (unused i oldI)
  · exact distinct i j oldI oldJ same

/-- The directory entry of a page that was served already. -/
theorem directoryEntry_tableAdded_other (aligned : PageAligned directory)
    (absent : isPresent (directoryEntry s.mem directory virtualAddress) = false)
    (present : isPresent (directoryEntry s.mem directory other) = true) :
    directoryEntry (tableAdded s directory virtualAddress index bitmap).mem directory other =
      directoryEntry s.mem directory other := by
  apply entryAt_withTable_of_ne aligned (getPageDirectoryIndex_lt other)
  intro same
  rw [directoryEntry, same] at present
  rw [directoryEntry, present] at absent
  cases absent

theorem walk_tableAdded_other (aligned : PageAligned directory)
    (absent : isPresent (directoryEntry s.mem directory virtualAddress) = false)
    (present : isPresent (directoryEntry s.mem directory other) = true)
    (apart : Disjoint (page (servingTable s.mem directory other)) (page directory)) :
    walk (tableAdded s directory virtualAddress index bitmap).mem directory other =
      walk s.mem directory other := by
  have sameDirectory : directoryEntry (tableAdded s directory virtualAddress index bitmap).mem
      directory other = directoryEntry s.mem directory other :=
    directoryEntry_tableAdded_other aligned absent present
  refine walk_congr sameDirectory ?_
  rw [tableEntry_of_directoryEntry sameDirectory]
  exact entryAt_withTable_of_apart aligned (getPageTableAddress_aligned _)
    (getPageTableIndex_lt other) apart

/-- What translated keeps its translation, also where its table is the directory itself:
the entry stored was absent. -/
theorem walk_tableAdded (aligned : PageAligned directory)
    (absent : isPresent (directoryEntry s.mem directory virtualAddress) = false) {target : UInt32}
    (translates : walk s.mem directory other = some target) :
    walk (tableAdded s directory virtualAddress index bitmap).mem directory other =
      some target := by
  have present := present_of_walk translates
  have sameDirectory : directoryEntry (tableAdded s directory virtualAddress index bitmap).mem
      directory other = directoryEntry s.mem directory other :=
    directoryEntry_tableAdded_other aligned absent present
  have mapped : isPresent (tableEntry s.mem directory other) = true := by
    by_contra missing
    simp [walk, missing] at translates
  rw [← translates]
  refine walk_congr sameDirectory ?_
  rw [tableEntry_of_directoryEntry sameDirectory]
  by_cases recursive : servingTable s.mem directory other = directory
  · rw [tableEntry, recursive] at mapped
    rw [tableEntry, recursive]
    refine entryAt_withTable_of_ne aligned (getPageTableIndex_lt other) fun same => ?_
    rw [same] at mapped
    exact absurd (mapped.symm.trans absent) (by decide)
  · exact entryAt_withTable_of_apart aligned (getPageTableAddress_aligned _)
      (getPageTableIndex_lt other)
      (page_disjoint (getPageTableAddress_aligned _) aligned recursive)

/-- A mapping that takes a new table stores the entry in that table. -/
theorem mapPage_of_added (virtualAligned : PageAligned virtualAddress)
    (physicalAligned : PageAligned physicalAddress)
    (absent : isPresent (directoryEntry s.mem directory virtualAddress) = false)
    (taken : s.pageTableBitmap.firstFit = some (index, bitmap))
    (directoryDirect : Direct s (slot directory (getPageDirectoryIndex virtualAddress)))
    (againDirect : Direct (tableAdded s directory virtualAddress index bitmap)
      (slot directory (getPageDirectoryIndex virtualAddress)))
    (tableDirect : Direct (tableAdded s directory virtualAddress index bitmap)
      (slot (tablePage index) (getPageTableIndex virtualAddress))) :
    mapPage directory virtualAddress physicalAddress s =
      .ok () { tableAdded s directory virtualAddress index bitmap with
        mem := withEntry (tableAdded s directory virtualAddress index bitmap).mem
          (servingTable (tableAdded s directory virtualAddress index bitmap).mem directory
            virtualAddress) virtualAddress (physicalAddress ||| 3) } := by
  rw [servingTable_tableAdded (firstFit_index_lt taken)]
  exact mapPage_of_absent virtualAligned physicalAligned absent taken directoryDirect againDirect
    tableDirect

end Added

/-! ## One call -/

/-- A call of `map_page` or `unmap_page`. -/
inductive Mapping where
  | map (virtualAddress physicalAddress : UInt32)
  | unmap (virtualAddress : UInt32)

namespace Mapping

/-- The page a call is about. -/
def target : Mapping → UInt32
  | .map virtualAddress _ => virtualAddress
  | .unmap virtualAddress => virtualAddress

/-- The translation a call leaves its page with. -/
def result : Mapping → Option UInt32
  | .map _ physicalAddress => some physicalAddress
  | .unmap _ => none

/-- The write of the abstract map that a call stands for. -/
def write (call : Mapping) : UInt32 × Option UInt32 := (call.target, call.result)

/-- Make the call. -/
def run (directory : UInt32) : Mapping → Kernel Unit
  | .map virtualAddress physicalAddress => mapPage directory virtualAddress physicalAddress
  | .unmap virtualAddress => unmapPage directory virtualAddress

/-- Make the calls one after another. -/
def runAll (directory : UInt32) : List Mapping → Kernel Unit
  | [] => pure ()
  | call :: rest => do
      call.run directory
      runAll directory rest

end Mapping

/-- The effect of one call: its page is served and translates as asked, only an
absent directory entry of that page may change, and every other page served before
keeps its translation. -/
structure Remaps (directory : UInt32) (before after : Machine) (virtualAddress : UInt32)
    (result : Option UInt32) : Prop where
  wellFormed : WellFormed directory after
  unpaged : after.paging = false
  frames : after.pageFrameBitmap = before.pageFrameBitmap
  aligned : PageAligned virtualAddress
  served : isPresent (directoryEntry after.mem directory virtualAddress) = true
  translated : walk after.mem directory virtualAddress = result
  directoryKept : ∀ index, index.toNat < 1024 →
    index ≠ getPageDirectoryIndex virtualAddress ∨
      isPresent (entryAt before.mem directory index) = true →
    entryAt after.mem directory index = entryAt before.mem directory index
  kept : ∀ other, PageAligned other → other ≠ virtualAddress →
    isPresent (directoryEntry before.mem directory other) = true →
    walk after.mem directory other = walk before.mem directory other

/-- A page served before a call is served after it. -/
theorem Remaps.entries {directory virtualAddress other : UInt32} {before after : Machine}
    {result : Option UInt32} (remaps : Remaps directory before after virtualAddress result)
    (present : isPresent (directoryEntry before.mem directory other) = true) :
    isPresent (directoryEntry after.mem directory other) = true := by
  rwa [directoryEntry, remaps.directoryKept _ (getPageDirectoryIndex_lt other) (.inr present)]

section Call

variable {directory virtualAddress physicalAddress : UInt32} {s after : Machine}

/-- Storing an entry of an owned table remaps one page. -/
theorem remaps_of_entry {entry : UInt32} {result : Option UInt32}
    (directoryAligned : PageAligned directory) (wellFormed : WellFormed directory s)
    (unpaged : s.paging = false) (virtualAligned : PageAligned virtualAddress)
    (present : isPresent (directoryEntry s.mem directory virtualAddress) = true)
    (stored : after = { s with
      mem := withEntry s.mem (servingTable s.mem directory virtualAddress) virtualAddress entry })
    (translated : walk after.mem directory virtualAddress = result) :
    Remaps directory s after virtualAddress result := by
  have tableAligned := getPageTableAddress_aligned
    (directoryEntry s.mem directory virtualAddress)
  have owned := entered_of_present present
  have sameDirectory : ∀ index : UInt32, index.toNat < 1024 →
      entryAt after.mem directory index = entryAt s.mem directory index := by
    intro index inside
    subst stored
    exact entryAt_withEntry_of_apart inside tableAligned directoryAligned
      (wellFormed.apart _ owned)
  have sameEntry : ∀ address, directoryEntry after.mem directory address =
      directoryEntry s.mem directory address := fun address =>
    sameDirectory _ (getPageDirectoryIndex_lt address)
  have sameEntered : ∀ index, Entered after.mem directory index →
      Entered s.mem directory index := by
    rintro index ⟨inside, there⟩
    exact ⟨inside, by rwa [sameDirectory index inside] at there⟩
  have sameTable : ∀ index, Entered after.mem directory index →
      tableAt after.mem directory index = tableAt s.mem directory index := by
    rintro index ⟨inside, _⟩
    rw [tableAt, tableAt, sameDirectory index inside]
  refine ⟨⟨?_, ?_, ?_⟩, by subst stored; exact unpaged, by subst stored; rfl,
    virtualAligned,
    by rwa [sameEntry], translated, fun index inside _ => sameDirectory index inside, ?_⟩
  · intro i j enteredI enteredJ same
    rw [sameTable i enteredI, sameTable j enteredJ] at same
    exact wellFormed.distinct i j (sameEntered i enteredI) (sameEntered j enteredJ) same
  · intro i entered
    rw [sameTable i entered]
    exact wellFormed.apart i (sameEntered i entered)
  · intro i entered inArea
    rw [sameTable i entered] at inArea ⊢
    have kept := wellFormed.reserved i (sameEntered i entered) inArea
    subst stored
    exact kept
  · intro other otherAligned different otherPresent
    apply walk_congr (sameEntry other)
    rw [tableEntry_of_directoryEntry (sameEntry other), tableEntry, servingTable]
    subst stored
    by_cases sameIndex : getPageDirectoryIndex other = getPageDirectoryIndex virtualAddress
    · have sameServing : directoryEntry s.mem directory other =
          directoryEntry s.mem directory virtualAddress := by
        rw [directoryEntry, directoryEntry, sameIndex]
      rw [sameServing]
      refine entryAt_withEntry_of_ne tableAligned (getPageTableIndex_lt other) fun sameSlot => ?_
      exact different (eq_of_indices otherAligned virtualAligned sameIndex sameSlot)
    · refine entryAt_withEntry_of_apart (getPageTableIndex_lt other) tableAligned
        (getPageTableAddress_aligned _) ?_
      refine page_disjoint tableAligned (getPageTableAddress_aligned _) fun same => ?_
      exact sameIndex (wellFormed.distinct _ _ (entered_of_present otherPresent) owned same.symm)

/-- A newly taken table overlaps no table in use and not the directory, so putting
it into an absent entry keeps the directory well formed and every translation. -/
theorem tableAdded_wellFormed {index : Nat} {bitmap : Bitmap pageTableBitmapSize}
    (directoryAligned : PageAligned directory) (outside : ¬ InTableArea directory)
    (wellFormed : WellFormed directory s)
    (absent : isPresent (directoryEntry s.mem directory virtualAddress) = false)
    (taken : s.pageTableBitmap.firstFit = some (index, bitmap)) :
    WellFormed directory (tableAdded s directory virtualAddress index bitmap) ∧
      ∀ other, isPresent (directoryEntry s.mem directory other) = true →
        directoryEntry (tableAdded s directory virtualAddress index bitmap).mem directory other =
            directoryEntry s.mem directory other ∧
          walk (tableAdded s directory virtualAddress index bitmap).mem directory other =
            walk s.mem directory other := by
  have inside := firstFit_index_lt taken
  obtain ⟨_, wasClear, _, marked⟩ := Bitmap.firstFit_some taken
  have newAligned := tablePage_aligned inside
  have newApart : Disjoint (page (tablePage index)) (page directory) :=
    page_disjoint newAligned directoryAligned fun same =>
      outside (same ▸ tablePage_inArea inside)
  have unused : ∀ i, Entered s.mem directory i → tableAt s.mem directory i ≠ tablePage index := by
    intro i entered same
    have inArea : InTableArea (tableAt s.mem directory i) := same ▸ tablePage_inArea inside
    have set := wellFormed.reserved i entered inArea
    rw [same, tableIndex_tablePage inside, wasClear] at set
    cases set
  refine ⟨⟨?_, ?_, ?_⟩, ?_⟩
  · exact distinct_tableAdded directoryAligned inside wellFormed.distinct unused
  · intro i entered
    rcases entered_tableAdded directoryAligned inside entered with ⟨_, table⟩ | ⟨old, table⟩
    · rw [table]
      exact newApart
    · rw [table]
      exact wellFormed.apart i old
  · intro i entered inArea
    rcases entered_tableAdded directoryAligned inside entered with ⟨_, table⟩ | ⟨old, table⟩ <;>
      rw [table] at inArea ⊢
    · rw [tableIndex_tablePage inside]
      change bitmap.isSet index = true
      simp [marked]
    · have set := wellFormed.reserved i old inArea
      change bitmap.isSet _ = true
      simp [marked, set]
  · intro other present
    have apart := wellFormed.apart _ (entered_of_present present)
    exact ⟨directoryEntry_tableAdded_other directoryAligned absent present,
      walk_tableAdded_other directoryAligned absent present apart⟩

/-- The translation of a page whose entry was just stored. -/
theorem walk_withEntry {mem : Bytes} (virtualAligned : PageAligned virtualAddress)
    (physicalAligned : PageAligned physicalAddress) (directoryAligned : PageAligned directory)
    (present : isPresent (directoryEntry mem directory virtualAddress) = true)
    (apart : Disjoint (page (servingTable mem directory virtualAddress)) (page directory)) :
    walk (withEntry mem (servingTable mem directory virtualAddress) virtualAddress
      (physicalAddress ||| 3)) directory virtualAddress = some physicalAddress := by
  have tableAligned := getPageTableAddress_aligned (directoryEntry mem directory virtualAddress)
  have sameDirectory : directoryEntry (withEntry mem (servingTable mem directory virtualAddress)
      virtualAddress (physicalAddress ||| 3)) directory virtualAddress =
      directoryEntry mem directory virtualAddress :=
    entryAt_withEntry_of_apart (getPageDirectoryIndex_lt _) tableAligned directoryAligned apart
  apply walk_of_present virtualAligned physicalAligned
  · rwa [sameDirectory]
  · rw [tableEntry_of_directoryEntry sameDirectory]
    exact entryAt_withEntry_same

theorem mapPage_remaps (directoryAligned : PageAligned directory)
    (outside : ¬ InTableArea directory) (wellFormed : WellFormed directory s)
    (unpaged : s.paging = false)
    (returned : mapPage directory virtualAddress physicalAddress s = .ok () after) :
    Remaps directory s after virtualAddress (some physicalAddress) := by
  obtain ⟨virtualAligned, physicalAligned, found⟩ :=
    mapPage_requires returned (direct_of_unpaged unpaged _)
  rcases found with present | ⟨absent, index, bitmap, taken⟩
  · have run := (mapPage_of_present virtualAligned physicalAligned present
      (direct_of_unpaged unpaged _) (direct_of_unpaged unpaged _)).symm.trans returned
    injection run with _ stored
    refine remaps_of_entry directoryAligned wellFormed unpaged virtualAligned present stored.symm ?_
    rw [← stored]
    exact walk_withEntry virtualAligned physicalAligned directoryAligned present
      (wellFormed.apart _ (entered_of_present present))
  · have run := (mapPage_of_added virtualAligned physicalAligned absent taken
      (direct_of_unpaged unpaged _) (direct_of_unpaged (by exact unpaged) _)
      (direct_of_unpaged (by exact unpaged) _)).symm.trans returned
    injection run with _ stored
    obtain ⟨addedWellFormed, addedKept⟩ :=
      tableAdded_wellFormed directoryAligned outside wellFormed absent taken
    have present : isPresent (directoryEntry
        (tableAdded s directory virtualAddress index bitmap).mem directory virtualAddress) =
        true := by
      rw [directoryEntry_tableAdded]
      exact isPresent_or_three (tablePage_aligned (firstFit_index_lt taken))
    have translated : walk after.mem directory virtualAddress = some physicalAddress := by
      rw [← stored]
      exact walk_withEntry virtualAligned physicalAligned directoryAligned present
        (addedWellFormed.apart _ (entered_of_present present))
    have remaps := remaps_of_entry directoryAligned addedWellFormed unpaged virtualAligned
      present stored.symm translated
    refine { remaps with directoryKept := ?_, kept := ?_ }
    · intro index small unchanged
      have other : index ≠ getPageDirectoryIndex virtualAddress := by
        rcases unchanged with other | there
        · exact other
        · rintro rfl
          rw [directoryEntry, there] at absent
          cases absent
      rw [remaps.directoryKept index small (.inl other)]
      exact entryAt_withTable_of_ne directoryAligned small other
    · intro other otherAligned different there
      rw [remaps.kept other otherAligned different (by rwa [(addedKept other there).1]),
        (addedKept other there).2]

theorem unmapPage_remaps (directoryAligned : PageAligned directory)
    (wellFormed : WellFormed directory s) (unpaged : s.paging = false)
    (returned : unmapPage directory virtualAddress s = .ok () after) :
    Remaps directory s after virtualAddress none := by
  obtain ⟨virtualAligned, present, _, stored⟩ :=
    unmapPage_ok returned (direct_of_unpaged unpaged _) (direct_of_unpaged unpaged _)
  refine remaps_of_entry directoryAligned wellFormed unpaged virtualAligned present stored ?_
  have tableAligned := getPageTableAddress_aligned
    (directoryEntry s.mem directory virtualAddress)
  have sameDirectory : directoryEntry after.mem directory virtualAddress =
      directoryEntry s.mem directory virtualAddress := by
    subst stored
    exact entryAt_withEntry_of_apart (getPageDirectoryIndex_lt _) tableAligned directoryAligned
      (wellFormed.apart _ (entered_of_present present))
  apply walk_of_entry_absent
  rw [tableEntry_of_directoryEntry sameDirectory]
  subst stored
  refine (congrArg isPresent entryAt_withEntry_same).trans ?_
  exact isPresent_unsetPresent _

theorem Mapping.run_remaps {call : Mapping} (directoryAligned : PageAligned directory)
    (outside : ¬ InTableArea directory) (wellFormed : WellFormed directory s)
    (unpaged : s.paging = false) (returned : call.run directory s = .ok () after) :
    Remaps directory s after call.target call.result := by
  cases call with
  | map virtualAddress physicalAddress =>
      exact mapPage_remaps directoryAligned outside wellFormed unpaged returned
  | unmap virtualAddress => exact unmapPage_remaps directoryAligned wellFormed unpaged returned

end Call

/-! ## Whole runs -/

section Runs

variable {directory : UInt32} {s after : Machine}

/-- A run keeps the directory well formed, and replays the calls as writes of a
map on every page that was served at the start or is touched on the way. -/
theorem runAll_replays (directoryAligned : PageAligned directory)
    (outside : ¬ InTableArea directory) (calls : List Mapping)
    (wellFormed : WellFormed directory s) (unpaged : s.paging = false)
    (returned : Mapping.runAll directory calls s = .ok () after) :
    WellFormed directory after ∧
      ∀ address, (isPresent (directoryEntry s.mem directory address) = true ∧
          PageAligned address) ∨ (∃ call ∈ calls, call.target = address) →
        walk after.mem directory address =
          replay (walk s.mem directory) (calls.map Mapping.write) address := by
  induction calls generalizing s with
  | nil =>
      cases returned
      refine ⟨wellFormed, fun address covered => ?_⟩
      rfl
  | cons call rest ih =>
      rw [Mapping.runAll, bind_ok_iff] at returned
      obtain ⟨_, middle, first, tail⟩ := returned
      have remaps := Mapping.run_remaps directoryAligned outside wellFormed unpaged first
      obtain ⟨wellFormedAfter, replays⟩ := ih remaps.wellFormed remaps.unpaged tail
      refine ⟨wellFormedAfter, fun address covered => ?_⟩
      have atTarget : walk middle.mem directory call.target =
          Function.update (walk s.mem directory) call.target call.result call.target := by
        rw [Function.update_self]
        exact remaps.translated
      rw [List.map_cons, replay_cons]
      change _ = replay (Function.update (walk s.mem directory) call.target call.result) _ address
      rcases covered with ⟨served, addressAligned⟩ | ⟨other, member, target⟩
      · rw [replays address (.inl ⟨remaps.entries served, addressAligned⟩)]
        apply replay_congr
        by_cases here : address = call.target
        · rw [here]
          exact atTarget
        · rw [Function.update_of_ne here]
          exact remaps.kept address addressAligned here served
      · rcases List.mem_cons.mp member with rfl | later
        · rw [← target, replays other.target (.inl ⟨remaps.served, remaps.aligned⟩)]
          exact replay_congr atTarget _
        · rw [replays address (.inr ⟨other, later, target⟩), replay_apply, replay_apply]
          have touched : (lastWrite address (rest.map Mapping.write)).isSome := by
            rw [lastWrite_isSome_iff]
            exact ⟨other.write, List.mem_map_of_mem later, target⟩
          obtain ⟨value, last⟩ := Option.isSome_iff_exists.mp touched
          rw [last]
          rfl

/-- From every well-formed state, any run of mapping calls that all return ends in
a well-formed state; a touched page translates to the frame of its last
`map_page`, or to nothing after a last `unmap_page`; and an untouched page served
at the start keeps its translation. -/
theorem runAll_refines_map (directoryAligned : PageAligned directory)
    (outside : ¬ InTableArea directory) (calls : List Mapping)
    (wellFormed : WellFormed directory s) (unpaged : s.paging = false)
    (returned : Mapping.runAll directory calls s = .ok () after) :
    WellFormed directory after ∧
      (∀ address result, lastWrite address (calls.map Mapping.write) = some result →
        walk after.mem directory address = result) ∧
      (∀ address, PageAligned address → (∀ call ∈ calls, call.target ≠ address) →
        isPresent (directoryEntry s.mem directory address) = true →
        walk after.mem directory address = walk s.mem directory address) := by
  obtain ⟨wellFormedAfter, replays⟩ :=
    runAll_replays directoryAligned outside calls wellFormed unpaged returned
  refine ⟨wellFormedAfter, ?_, ?_⟩
  · intro address result last
    have touched : ∃ call ∈ calls, call.target = address := by
      have some : (lastWrite address (calls.map Mapping.write)).isSome := by rw [last]; rfl
      obtain ⟨write, member, target⟩ := lastWrite_isSome_iff.mp some
      obtain ⟨call, inCalls, rfl⟩ := List.mem_map.mp member
      exact ⟨call, inCalls, target⟩
    rw [replays address (.inr touched), replay_apply, last]
    rfl
  · intro address addressAligned untouched served
    have none : lastWrite address (calls.map Mapping.write) = none := by
      rw [← Option.not_isSome_iff_eq_none, lastWrite_isSome_iff]
      rintro ⟨write, member, target⟩
      obtain ⟨call, inCalls, rfl⟩ := List.mem_map.mp member
      exact untouched call inCalls target
    rw [replays address (.inl ⟨served, addressAligned⟩), replay_apply, none]
    rfl

end Runs

/-- Zeroed memory holds a well-formed directory without entries. -/
theorem wellFormed_of_zeroes (directory : UInt32) :
    WellFormed directory (Machine.boot fun _ => 0) := by
  have absent : ∀ index, ¬ Entered (fun _ => 0) directory index := by
    rintro index ⟨_, present⟩
    have zero : entryAt (fun _ => 0) directory index = 0 := rfl
    rw [zero] at present
    revert present
    decide
  exact ⟨fun i _ entered => absurd entered (absent i), fun i entered => absurd entered (absent i),
    fun i entered => absurd entered (absent i)⟩

/-- Two pages of one table are mapped, and the first is unmapped and mapped to another frame. -/
def remapping : List Mapping :=
  [.map 0x00400000 0x00900000, .map 0x00401000 0x00901000, .unmap 0x00400000,
    .map 0x00400000 0x00A00000]

/-- On zeroed memory the calls return. -/
theorem remapping_returns :
    ∃ after, Mapping.runAll 0x00200000 remapping (Machine.boot fun _ => 0) = .ok () after := by
  have directoryAligned : PageAligned 0x00200000 := rfl
  have outside : ¬ InTableArea 0x00200000 := by
    rw [inTableArea_iff]
    decide
  have unpaged : (Machine.boot fun _ => 0).paging = false := rfl
  obtain ⟨_, lowest⟩ := Bitmap.firstFit_clear pageTableBitmapSize_pos
  have absent : isPresent (directoryEntry (Machine.boot fun _ => 0).mem 0x00200000 0x00400000) =
      false := rfl
  have first := mapPage_of_absent (rfl : PageAligned 0x00400000) (rfl : PageAligned 0x00900000)
    absent lowest (direct_of_unpaged unpaged _) (direct_of_unpaged (by exact unpaged) _)
    (direct_of_unpaged (by exact unpaged) _)
  have mapped := mapPage_remaps directoryAligned outside (wellFormed_of_zeroes _) unpaged first
  -- The second page has the directory entry of the first.
  have second := mapPage_of_present (rfl : PageAligned 0x00401000) (rfl : PageAligned 0x00901000)
    mapped.served (direct_of_unpaged mapped.unpaged _)
    (direct_of_unpaged mapped.unpaged _)
  have mappedBoth := mapPage_remaps directoryAligned outside mapped.wellFormed mapped.unpaged second
  have served := mappedBoth.entries mapped.served
  have translates := (mappedBoth.kept 0x00400000 rfl (by decide) mapped.served).trans
    mapped.translated
  have present := (walk_isSome_iff served).mp (by rw [translates]; rfl)
  have third := unmapPage_of_present (rfl : PageAligned 0x00400000) served present
    (direct_of_unpaged mappedBoth.unpaged _) (direct_of_unpaged mappedBoth.unpaged _)
  have unmapped := unmapPage_remaps directoryAligned mappedBoth.wellFormed mappedBoth.unpaged third
  have fourth := mapPage_of_present (rfl : PageAligned 0x00400000)
    (rfl : PageAligned 0x00A00000) unmapped.served (direct_of_unpaged unmapped.unpaged _)
    (direct_of_unpaged unmapped.unpaged _)
  exact ⟨_, (bind_of_ok first).trans ((bind_of_ok second).trans ((bind_of_ok third).trans
    (bind_of_ok fourth)))⟩

theorem runAll_refines_map_remapping :
    ∃ after, Mapping.runAll 0x00200000 remapping (Machine.boot fun _ => 0) = .ok () after ∧
      walk after.mem 0x00200000 0x00400000 = some 0x00A00000 ∧
      walk after.mem 0x00200000 0x00401000 = some 0x00901000 := by
  obtain ⟨after, returned⟩ := remapping_returns
  have outside : ¬ InTableArea 0x00200000 := by
    rw [inTableArea_iff]
    decide
  obtain ⟨_, touched, _⟩ :=
    runAll_refines_map (by decide) outside remapping (wellFormed_of_zeroes _) rfl returned
  exact ⟨after, returned, touched _ _ (by decide), touched _ _ (by decide)⟩

end TorchOS.Paging
