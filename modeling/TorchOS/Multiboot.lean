import TorchOS.Boot
import TorchOS.Base.Orbit
import TorchOS.Base.Watch

/-!
# The walk over the memory map

`check_multiboot_info` goes from one entry of the boot loader's memory map to the next
by the size that stands in the entry, in 32 bits, and compares only where an entry
starts with the end of the map. Nothing it does changes the map, so the entries it
comes to are those the map itself leads to.
-/

namespace TorchOS.Boot

open Base Base.Program Base.Orbit Lib

/-- The loop of `check_multiboot_info`. -/
def mapLoop (mbd map : UInt32) : Kernel UInt32 :=
  loop (fun map s => map < s.mem.load32 (MultibootInfo.mmapAddr mbd) +
    s.mem.load32 (MultibootInfo.mmapLength mbd)) logMapEntry .endless loopBound map

theorem logMemoryMap_eq (mbd : UInt32) :
    logMemoryMap mbd = (do
      if (← getWord (MultibootInfo.flags mbd)) &&& multibootInfoMemMap ≠ 0 then
        logf "mmap_addr = %x, mmap_length = %x\n"
          [.number (← getWord (MultibootInfo.mmapAddr mbd)),
            .number (← getWord (MultibootInfo.mmapLength mbd))]
        let _ ← mapLoop mbd (← getWord (MultibootInfo.mmapAddr mbd))
        pure ()
      else pure ()) := rfl

/-- An entry is logged, and observed. -/
def watchedLogMapEntry (map : UInt32) : Program Halt (Watched Machine UInt32) UInt32 := do
  watch fun _ => [map]
  unwatched (logMapEntry map)

/-- The loop with every entry it logs observed. -/
def watchedMapLoop (mbd map : UInt32) : Program Halt (Watched Machine UInt32) UInt32 :=
  loop (onState fun map s => map < s.mem.load32 (MultibootInfo.mmapAddr mbd) +
    s.mem.load32 (MultibootInfo.mmapLength mbd)) watchedLogMapEntry .endless loopBound map

theorem watchedMapLoop_watches (mbd map : UInt32) :
    Watches (watchedMapLoop mbd map) (mapLoop mbd map) :=
  Watches.loop (fun map => Watches.after_watch _ (Watches.unwatched (logMapEntry map))) _ _

/-! ## The entries of a map -/

section Entries

variable (mem : Bytes) (mbd map : UInt32)

/-- `mmap_addr` -/
def mapStart : UInt32 := mem.load32 (MultibootInfo.mmapAddr mbd)

/-- `mmap_length` -/
def mapLength : UInt32 := mem.load32 (MultibootInfo.mmapLength mbd)

/-- The entry after one. -/
def nextEntry : UInt32 := map + mem.load32 (MemoryMap.size map) + 4

/-- The loop takes this for an entry of the map. -/
def Listed : Prop := map < mapStart mem mbd + mapLength mem mbd

instance : Decidable (Listed mem mbd map) :=
  inferInstanceAs (Decidable (map < mapStart mem mbd + mapLength mem mbd))

/-- The 24 bytes of an entry lie in the map. -/
def EntryInside : Prop :=
  (mapStart mem mbd).toNat ≤ map.toNat ∧
    map.toNat + 24 ≤ (mapStart mem mbd).toNat + (mapLength mem mbd).toNat

/-- Entries of these sizes lie one behind the other from an address on, each with its 24
bytes before the end. No address goes past 2^32: they are natural numbers. -/
def HoldsSizes (mem : Bytes) (stop : Nat) : Nat → List UInt32 → Prop
  | _, [] => True
  | start, size :: sizes => start + 24 ≤ stop ∧
      mem.load32 (MemoryMap.size (UInt32.ofNat start)) = size ∧
        HoldsSizes mem stop (start + size.toNat + 4) sizes

/-- The address behind entries of these sizes: a size does not count its own four bytes. -/
def behind (start : Nat) (sizes : List UInt32) : Nat :=
  start + (sizes.map fun size => size.toNat + 4).sum

/-- Where the map ends. -/
def mapEnd : Nat := (mapStart mem mbd).toNat + (mapLength mem mbd).toNat

/-- The map is empty or ends past the address space, or entries lie one behind the other
from its start to its end. -/
def LaidOut : Prop :=
  mapLength mem mbd = 0 ∨ 2 ^ 32 ≤ mapEnd mem mbd ∨
    ∃ sizes, HoldsSizes mem (mapEnd mem mbd) (mapStart mem mbd).toNat sizes ∧
      mapEnd mem mbd ≤ behind (mapStart mem mbd).toNat sizes ∧
        behind (mapStart mem mbd).toNat sizes < 2 ^ 32

/-- The last of some entries laid one behind the other has a size that leads past 2^32 and
so back to the start of the map or behind it. -/
def TurnsBack : Prop :=
  ∃ sizes, HoldsSizes mem (mapEnd mem mbd) (mapStart mem mbd).toNat sizes ∧
    2 ^ 32 + (mapStart mem mbd).toNat ≤ behind (mapStart mem mbd).toNat sizes

end Entries

section Walk

variable {mbd map : UInt32} {s : Machine} {trace : List UInt32}

theorem logMapEntry_run (map : UInt32) (s : Machine) :
    ∃ serial, logMapEntry map s = .ok (nextEntry s.mem map) (s.withSerial serial) := by
  have printed := logf_numbers "base_addr= %x, length= %x, type = %x\n" (s := s)
    [s.mem.load32 (MemoryMap.addrLower map), s.mem.load32 (MemoryMap.lenLower map),
      s.mem.load32 (MemoryMap.type map)]
  exact ⟨_, (bind_of_ok (getWord_run _ s)).trans ((bind_of_ok (getWord_run _ s)).trans
    ((bind_of_ok (getWord_run _ s)).trans ((bind_of_ok printed).trans rfl)))⟩

theorem watchedLogMapEntry_run (map : UInt32) (w : Watched Machine UInt32) :
    ∃ serial, watchedLogMapEntry map w =
      .ok (nextEntry w.state.mem map) ⟨w.state.withSerial serial, w.trace ++ [map]⟩ := by
  obtain ⟨serial, logged⟩ := logMapEntry_run map w.state
  exact ⟨serial, (bind_of_ok (watch_run _ w)).trans (unwatched_ok logged)⟩

theorem listed_iff (w : Watched Machine UInt32) :
    onState (fun map s => decide (map < s.mem.load32 (MultibootInfo.mmapAddr mbd) +
      s.mem.load32 (MultibootInfo.mmapLength mbd))) map w = true ↔
        Listed w.state.mem mbd map :=
  decide_eq_true_iff

/-- The loop goes through the entries the map leads to, and observes each. -/
theorem watchedLoop_run {mem : Bytes} {count fuel : Nat} {w : Watched Machine UInt32}
    (same : w.state.mem = mem)
    (stops : StopsAt (nextEntry mem) (Listed mem mbd) map count) (enough : count < fuel) :
    ∃ serial,
      loop (onState fun map s => map < s.mem.load32 (MultibootInfo.mmapAddr mbd) +
        s.mem.load32 (MultibootInfo.mmapLength mbd)) watchedLogMapEntry .endless fuel map w =
          .ok ((nextEntry mem)^[count] map)
            ⟨w.state.withSerial serial,
              w.trace ++ (List.range count).map fun index => (nextEntry mem)^[index] map⟩ := by
  subst same
  induction count generalizing map fuel w with
  | zero =>
      obtain ⟨fuel, rfl⟩ : ∃ n, fuel = n + 1 := ⟨fuel - 1, by omega⟩
      have done := mt (listed_iff w).mp stops.2
      rw [loop_done (by simpa using done)]
      exact ⟨w.state.serial, by simp; rfl⟩
  | succ count ih =>
      obtain ⟨fuel, rfl⟩ : ∃ n, fuel = n + 1 := ⟨fuel - 1, by omega⟩
      obtain ⟨here, later⟩ := stopsAt_succ.mp stops
      obtain ⟨serial, logged⟩ := watchedLogMapEntry_run map w
      rw [loop_again ((listed_iff w).mpr here), bind_of_ok logged]
      have shorter : count < fuel := by omega
      obtain ⟨printed, rest⟩ :=
        ih (w := ⟨w.state.withSerial serial, w.trace ++ [map]⟩) shorter later
      have traced : w.trace ++ [map] ++ (List.range count).map (fun index =>
          (nextEntry w.state.mem)^[index] (nextEntry w.state.mem map)) =
          w.trace ++ (List.range (count + 1)).map fun index =>
            (nextEntry w.state.mem)^[index] map := by
        rw [List.range_succ_eq_map, List.map_cons, List.map_map, List.append_assoc]
        rfl
      refine ⟨printed, rest.trans ?_⟩
      rw [← traced]
      rfl

/-- A loop that returns has come to the end of the map. -/
theorem watchedLoop_stops {fuel : Nat} {w after : Watched Machine UInt32} {last : UInt32}
    (returned : loop (onState fun map s => map < s.mem.load32 (MultibootInfo.mmapAddr mbd) +
      s.mem.load32 (MultibootInfo.mmapLength mbd)) watchedLogMapEntry .endless fuel map w =
        .ok last after) :
    ∃ count < fuel, StopsAt (nextEntry w.state.mem) (Listed w.state.mem mbd) map count := by
  induction fuel generalizing map w with
  | zero => simp [loop] at returned
  | succ fuel ih =>
      by_cases here : Listed w.state.mem mbd map
      · obtain ⟨serial, logged⟩ := watchedLogMapEntry_run map w
        rw [loop_again ((listed_iff w).mpr here), bind_of_ok logged] at returned
        obtain ⟨count, below, stops⟩ := ih returned
        exact ⟨count + 1, by omega, stopsAt_succ.mpr ⟨here, stops⟩⟩
      · exact ⟨0, by omega, stopsAt_zero here⟩

end Walk

/-- Where `check_multiboot_info` goes through the memory map and every entry it logs lies
in the map. -/
def WalksInside (mbd : UInt32) (s : Machine) : Prop :=
  ∃ last w, watchedMapLoop mbd (mapStart s.mem mbd) ⟨s, []⟩ = .ok last w ∧
    ∀ entry ∈ w.trace, EntryInside s.mem mbd entry

/-- The walk ends inside the map exactly when the entries the map leads to do. -/
theorem walksInside_iff_stops (mbd : UInt32) (s : Machine) :
    WalksInside mbd s ↔ ∃ count,
      StopsAt (nextEntry s.mem) (Listed s.mem mbd) (mapStart s.mem mbd) count ∧
        ∀ index < count,
          EntryInside s.mem mbd ((nextEntry s.mem)^[index] (mapStart s.mem mbd)) := by
  have run : ∀ {count}, StopsAt (nextEntry s.mem) (Listed s.mem mbd) (mapStart s.mem mbd) count →
      ∃ w, watchedMapLoop mbd (mapStart s.mem mbd) ⟨s, []⟩ =
        .ok ((nextEntry s.mem)^[count] (mapStart s.mem mbd)) w ∧
          w.trace = (List.range count).map fun index =>
            (nextEntry s.mem)^[index] (mapStart s.mem mbd) := by
    intro count stops
    have injective : Function.Injective UInt32.toNat := fun _ _ same => UInt32.toNat_inj.mp same
    have within := stops.count_le injective UInt32.toNat_lt
    have enough : count < loopBound := by rw [loopBound]; omega
    obtain ⟨serial, walked⟩ := watchedLoop_run (w := ⟨s, []⟩) rfl stops enough
    exact ⟨_, walked, List.nil_append _⟩
  constructor
  · rintro ⟨last, w, returned, inside⟩
    obtain ⟨count, _, stops⟩ := watchedLoop_stops returned
    obtain ⟨reached, walked, trace⟩ := run stops
    cases returned.symm.trans walked
    refine ⟨count, stops, fun index below => inside _ ?_⟩
    rw [trace]
    exact List.mem_map_of_mem (List.mem_range.mpr below)
  · rintro ⟨count, stops, inside⟩
    obtain ⟨w, walked, trace⟩ := run stops
    refine ⟨_, w, walked, fun entry member => ?_⟩
    rw [trace] at member
    obtain ⟨index, below, rfl⟩ := List.mem_map.mp member
    exact inside index (List.mem_range.mp below)

/-! ## Maps laid out entry by entry -/

section Layout

variable {mem : Bytes} {mbd map : UInt32}

theorem behind_cons (start : Nat) (size : UInt32) (sizes : List UInt32) :
    behind start (size :: sizes) = behind (start + size.toNat + 4) sizes := by
  simp only [behind, List.map_cons, List.sum_cons]
  omega

theorem le_behind (start : Nat) (sizes : List UInt32) : start ≤ behind start sizes := by
  simp [behind]

theorem listed_iff_lt (fits : mapEnd mem mbd < 2 ^ 32) :
    Listed mem mbd map ↔ map.toNat < mapEnd mem mbd := by
  have sum : (mapStart mem mbd + mapLength mem mbd).toNat = mapEnd mem mbd := by
    rw [UInt32.toNat_add]
    exact Nat.mod_eq_of_lt fits
  rw [Listed, UInt32.lt_iff_toNat_lt, sum]

/-- A map that is empty or ends past the address space has no entry. -/
theorem not_listed (outside : mapLength mem mbd = 0 ∨ 2 ^ 32 ≤ mapEnd mem mbd) :
    ¬ Listed mem mbd (mapStart mem mbd) := by
  have small := (mapLength mem mbd).toNat_lt
  have low := (mapStart mem mbd).toNat_lt
  rw [Listed, UInt32.lt_iff_toNat_lt, UInt32.toNat_add, Nat.not_lt]
  rcases outside with empty | past
  · rw [empty]
    exact Nat.mod_le _ _
  · rw [mapEnd] at past
    omega

theorem nextEntry_toNat (fits : map.toNat + (mem.load32 (MemoryMap.size map)).toNat + 4 < 2 ^ 32) :
    (nextEntry mem map).toNat = map.toNat + (mem.load32 (MemoryMap.size map)).toNat + 4 := by
  rw [nextEntry, UInt32.toNat_add, UInt32.toNat_add]
  change (_ % 2 ^ 32 + 4) % 2 ^ 32 = _
  omega

/-- A size that leads past 2^32 leads to the address 2^32 lower. -/
theorem nextEntry_past (room : map.toNat + 24 ≤ 2 ^ 32)
    (past : 2 ^ 32 ≤ map.toNat + (mem.load32 (MemoryMap.size map)).toNat + 4) :
    (nextEntry mem map).toNat + 2 ^ 32 =
      map.toNat + (mem.load32 (MemoryMap.size map)).toNat + 4 := by
  have small := (mem.load32 (MemoryMap.size map)).toNat_lt
  rw [nextEntry, UInt32.toNat_add, UInt32.toNat_add]
  change (_ % 2 ^ 32 + 4) % 2 ^ 32 + _ = _
  omega

/-- Entries laid out up to the end are those the walk comes to. The induction is on them. -/
theorem HoldsSizes.stops {sizes : List UInt32} (fits : mapEnd mem mbd < 2 ^ 32)
    (holds : HoldsSizes mem (mapEnd mem mbd) map.toNat sizes)
    (started : (mapStart mem mbd).toNat ≤ map.toNat)
    (full : mapEnd mem mbd ≤ behind map.toNat sizes) (room : behind map.toNat sizes < 2 ^ 32) :
    ∃ count, StopsAt (nextEntry mem) (Listed mem mbd) map count ∧
      ∀ index < count, EntryInside mem mbd ((nextEntry mem)^[index] map) := by
  induction sizes generalizing map with
  | nil =>
      have past : ¬ Listed mem mbd map := by
        rw [listed_iff_lt fits]
        simpa [behind] using full
      exact ⟨0, stopsAt_zero past, fun index below => absurd below (Nat.not_lt_zero _)⟩
  | cons size sizes ih =>
      obtain ⟨inside, here, later⟩ := holds
      rw [UInt32.ofNat_toNat] at here
      subst here
      rw [behind_cons] at full room
      have next := nextEntry_toNat (Nat.lt_of_le_of_lt (le_behind _ _) room)
      rw [← next] at later full room
      obtain ⟨count, stops, rest⟩ := ih later (by omega) full room
      have listed : Listed mem mbd map := (listed_iff_lt fits).mpr (by omega)
      refine ⟨count + 1, stopsAt_succ.mpr ⟨listed, stops⟩, fun index below => ?_⟩
      cases index with
      | zero => exact ⟨started, inside⟩
      | succ index => exact rest index (by omega)

/-- Entries the walk comes to, all inside the map, are laid out up to the end or turn back.
The induction is on their number. -/
theorem holdsSizes_of_stops {count : Nat} (fits : mapEnd mem mbd < 2 ^ 32)
    (stops : StopsAt (nextEntry mem) (Listed mem mbd) map count)
    (inside : ∀ index < count, EntryInside mem mbd ((nextEntry mem)^[index] map)) :
    ∃ sizes, HoldsSizes mem (mapEnd mem mbd) map.toNat sizes ∧
      (mapEnd mem mbd ≤ behind map.toNat sizes ∧ behind map.toNat sizes < 2 ^ 32 ∨
        2 ^ 32 + (mapStart mem mbd).toNat ≤ behind map.toNat sizes) := by
  induction count generalizing map with
  | zero =>
      have past := mt (listed_iff_lt fits).mpr stops.2
      exact ⟨[], trivial, .inl ⟨Nat.not_lt.mp past, map.toNat_lt⟩⟩
  | succ count ih =>
      obtain ⟨listed, later⟩ := stopsAt_succ.mp stops
      have rest : ∀ index < count,
          EntryInside mem mbd ((nextEntry mem)^[index] (nextEntry mem map)) :=
        fun index below => inside (index + 1) (by omega)
      have here : EntryInside mem mbd map := inside 0 (by omega)
      have first : mem.load32 (MemoryMap.size (UInt32.ofNat map.toNat)) =
          mem.load32 (MemoryMap.size map) := by rw [UInt32.ofNat_toNat]
      by_cases carries :
          map.toNat + (mem.load32 (MemoryMap.size map)).toNat + 4 < 2 ^ 32
      · obtain ⟨sizes, holds, ends⟩ := ih later rest
        rw [nextEntry_toNat carries] at holds ends
        exact ⟨_ :: sizes, ⟨here.2, first, holds⟩, by rwa [behind_cons]⟩
      · -- The next entry is in the map or at its end, so it does not lie before the start.
        have next := nextEntry_past (Nat.le_of_lt (Nat.lt_of_le_of_lt here.2 fits))
          (Nat.not_lt.mp carries)
        have started : (mapStart mem mbd).toNat ≤ (nextEntry mem map).toNat := by
          cases count with
          | zero =>
              have past := mt (listed_iff_lt fits).mpr later.2
              have ahead : mapEnd mem mbd ≤ (nextEntry mem map).toNat := Nat.not_lt.mp past
              rw [mapEnd] at ahead
              omega
          | succ count => exact (rest 0 (by omega)).1
        refine ⟨[_], ⟨here.2, first, trivial⟩, .inr ?_⟩
        rw [behind_cons]
        simp only [behind, List.map_nil, List.sum_nil]
        omega

end Layout

/-- The walk over a map laid out entry by entry ends inside it, and the walk over any other
map does so only where a size turns back. -/
theorem walksInside_laidOut (mbd : UInt32) (s : Machine) :
    (LaidOut s.mem mbd → WalksInside mbd s) ∧
      (WalksInside mbd s → LaidOut s.mem mbd ∨ TurnsBack s.mem mbd) := by
  rw [walksInside_iff_stops]
  constructor
  · rintro (empty | past | ⟨sizes, holds, full, room⟩)
    · exact ⟨0, stopsAt_zero (not_listed (.inl empty)),
        fun index below => absurd below (Nat.not_lt_zero _)⟩
    · exact ⟨0, stopsAt_zero (not_listed (.inr past)),
        fun index below => absurd below (Nat.not_lt_zero _)⟩
    · exact holds.stops (Nat.lt_of_le_of_lt full room) le_rfl full room
  · rintro ⟨count, stops, inside⟩
    by_cases fits : mapEnd s.mem mbd < 2 ^ 32
    · obtain ⟨sizes, holds, ends | back⟩ := holdsSizes_of_stops fits stops inside
      · exact .inl (.inr (.inr ⟨sizes, holds, ends⟩))
      · exact .inr ⟨sizes, holds, back⟩
    · exact .inl (.inr (.inl (Nat.not_lt.mp fits)))

/-- Two entries of 24 bytes at address 0 fill a map of 48. -/
example : LaidOut (fun address => if address = 0x902c then 48 else
    if address = 0 ∨ address = 24 then 20 else 0) 0x9000 :=
  .inr (.inr ⟨[20, 20], ⟨by decide, by decide, by decide, by decide, trivial⟩,
    by decide, by decide⟩)

/-- A memory map of 24 bytes at address 0 whose only entry has the size 2^32 - 4. -/
def stuckMap : Bytes := fun address =>
  if address = 0x902c then 24 else if address = 0 then 0xFC else if address < 4 then 0xFF else 0

/-- The walk over this map never leaves its first entry. -/
theorem stuckMap_not_walked : ¬ WalksInside 0x9000 (Machine.boot stuckMap) := by
  rintro ⟨last, w, returned, _⟩
  obtain ⟨count, _, _, stopped⟩ := watchedLoop_stops returned
  have start : mapStart stuckMap 0x9000 = 0 := by decide
  have stays : nextEntry stuckMap 0 = 0 := by decide
  have listed : Listed stuckMap 0x9000 0 := by decide
  apply stopped
  change Listed stuckMap 0x9000 ((nextEntry stuckMap)^[count] (mapStart stuckMap 0x9000))
  rwa [start, Function.iterate_fixed stays]

end TorchOS.Boot
