import TorchOS.Base.Watch
import TorchOS.Filesystem.Ramdisk

/-!
# The copy of a name, watched

`fs_construct_node` once more, with a trace of the bytes that `strcpy` copies from the
name it is given. What the trace keeps of a byte is a parameter: where it comes from
and where it goes to, or one of the two.
-/

namespace TorchOS.Filesystem

open Base Base.Program Lib

/-- A byte that `strcpy` copies: where it is read and where it is written. -/
structure ByteCopy where
  source : UInt32
  destination : UInt32

section Watched

variable {τ : Type} (note : ByteCopy → τ) (layout : Layout) (kalloc : UInt32 → Kernel UInt32)

/-- The loop of `strcpy`. -/
def watchedStrcpyLoop : Nat → UInt32 → UInt32 → Program Halt (Watched Machine τ) Unit
  | 0, _, _ => halt .endless
  | fuel + 1, destination, source => do
      watch fun _ => [note ⟨source, destination⟩]
      let c ← unwatched (getByte source)
      unwatched (putByte destination c)
      if c = 0 then pure () else watchedStrcpyLoop fuel (destination + 1) (source + 1)

/-- The part of `fs_construct_node` before the union. -/
def watchedInitHeader (node name : UInt32) (type : NodeType) :
    Program Halt (Watched Machine τ) Unit := do
  unwatched (memset (Node.name node) 0 maxFilenameLength)
  watchedStrcpyLoop note loopBound (Node.name node) name
  unwatched (putWord (Node.type node) type.value)
  unwatched (putWord (Node.read node) layout.ramdiskRead)
  unwatched (putWord (Node.write node) layout.ramdiskWrite)
  unwatched (putWord (Node.seek node) layout.ramdiskSeek)

/-- `fs_construct_node` -/
def watchedConstruct (name : UInt32) (type : NodeType) :
    Program Halt (Watched Machine τ) UInt32 := do
  let node ← unwatched (kalloc nodeSize)
  watchedInitHeader note layout node name type
  unwatched (initContents kalloc node type)
  pure node

/-! ## Watching changes nothing -/

theorem watchedStrcpyLoop_watches (fuel : Nat) (destination source : UInt32) :
    Watches (watchedStrcpyLoop note fuel destination source)
      (strcpyLoop fuel destination source) := by
  induction fuel generalizing destination source with
  | zero => exact fun _ => rfl
  | succ fuel ih =>
      apply Watches.after_watch
      apply Watches.bind (.unwatched _)
      intro c
      apply Watches.bind (.unwatched _)
      intro _
      by_cases last : c = 0
      · rw [if_pos last, if_pos last]
        exact fun _ => rfl
      · rw [if_neg last, if_neg last]
        exact ih _ _

theorem watchedInitHeader_watches (node name : UInt32) (type : NodeType) :
    Watches (watchedInitHeader note layout node name type) (initHeader layout node name type) := by
  apply Watches.bind (.unwatched _)
  intro _
  apply Watches.bind (watchedStrcpyLoop_watches note _ _ _)
  intro _
  exact .bind (.unwatched _) fun _ => .bind (.unwatched _) fun _ =>
    .bind (.unwatched _) fun _ => .unwatched _

/-- Forgetting what was copied gives `fs_construct_node`. -/
theorem watchedConstruct_watches (name : UInt32) (type : NodeType) :
    Watches (watchedConstruct note layout kalloc name type)
      (fsConstructNode layout kalloc name type) := by
  apply Watches.bind (.unwatched _)
  intro node
  apply Watches.bind (watchedInitHeader_watches note layout node name type)
  intro _
  exact .bind (.unwatched _) fun _ _ => rfl

/-! ## The trace is that of the copy -/

theorem watchedStrcpyLoop_grows (fuel : Nat) (destination source : UInt32) :
    Respects Grows (watchedStrcpyLoop note fuel destination source) := by
  induction fuel generalizing destination source with
  | zero => exact fun w => Grows.refl w
  | succ fuel ih =>
      refine .bind Grows.trans (watch_grows _) fun _ => .bind Grows.trans (unwatched_grows _)
        fun c => .bind Grows.trans (unwatched_grows _) fun _ => ?_
      split
      · exact fun w => Grows.refl w
      · exact ih _ _

theorem watchedConstruct_grows (name : UInt32) (type : NodeType) :
    Respects Grows (watchedConstruct note layout kalloc name type) := by
  have plain : ∀ {α : Type} (program : Kernel α),
      Respects Grows (unwatched program : Program Halt (Watched Machine τ) α) := unwatched_grows
  refine .bind Grows.trans (plain _) fun node => .bind Grows.trans ?_ fun _ =>
    .bind Grows.trans (plain _) fun _ w => Grows.refl w
  refine .bind Grows.trans (plain _) fun _ =>
    .bind Grows.trans (watchedStrcpyLoop_grows note _ _ _) fun _ => ?_
  exact .bind Grows.trans (plain _) fun _ => .bind Grows.trans (plain _) fun _ =>
    .bind Grows.trans (plain _) fun _ => plain _

section Trace

variable {note layout kalloc} {w : Watched Machine τ}

/-- Once the node is handed out, the trace of the construction is that of the copy,
made over a cleared name array. -/
theorem trace_watchedConstruct {name node : UInt32} {type : NodeType} {granted : Machine}
    (returned : kalloc nodeSize w.state = .ok node granted) :
    (final (watchedConstruct note layout kalloc name type w)).trace =
      (final (watchedStrcpyLoop note loopBound (Node.name node) name
        ⟨granted.withMem (granted.mem.write (Node.name node)
          (List.replicate maxFilenameLength.toNat 0)), w.trace⟩)).trace := by
  have given : unwatched (kalloc nodeSize) w = .ok node ⟨granted, w.trace⟩ := unwatched_ok returned
  have cleared : unwatched (memset (Node.name node) 0 maxFilenameLength)
      (⟨granted, w.trace⟩ : Watched Machine τ) = .ok () ⟨granted.withMem (granted.mem.write
        (Node.name node) (List.replicate maxFilenameLength.toNat 0)), w.trace⟩ :=
    unwatched_ok (memset_run _ _ _)
  have plain : ∀ {α : Type} (program : Kernel α),
      Respects SameTrace (unwatched program : Program Halt (Watched Machine τ) α) :=
    unwatched_sameTrace
  rw [watchedConstruct, bind_of_ok given, trace_bind, watchedInitHeader, bind_of_ok cleared,
    trace_bind]
  · exact fun _ => .bind SameTrace.trans (plain _) fun _ => .bind SameTrace.trans (plain _) fun _ =>
      .bind SameTrace.trans (plain _) fun _ => plain _
  · exact fun _ => .bind SameTrace.trans (plain _) fun _ _ => rfl

/-- Where no node is handed out nothing is copied. -/
theorem trace_of_kalloc_error {name : UInt32} {type : NodeType} {reason : Halt} {after : Machine}
    (halted : kalloc nodeSize w.state = .error reason after) :
    (final (watchedConstruct note layout kalloc name type w)).trace = w.trace := by
  have given : unwatched (kalloc nodeSize) w = .error reason ⟨after, w.trace⟩ :=
    unwatched_error halted
  rw [watchedConstruct, bind_of_error given, final_error]

/-- A string is copied byte by byte, its zero byte included, and no further: what is noted of
a copy from one region to another holds of all that is traced. -/
theorem watchedStrcpyLoop_traces {observed : τ → Prop} {fuel : Nat} {destination source : UInt32}
    {text : List UInt8} {origin target : Set UInt32}
    (notes : ∀ copy : ByteCopy, copy.source ∈ origin → copy.destination ∈ target →
      observed (note copy))
    (string : CString w.state.mem source text) (inFrom : Span source (text.length + 1) ⊆ origin)
    (inTo : Span destination (text.length + 1) ⊆ target) (apart : Disjoint origin target)
    (earlier : ∀ event ∈ w.trace, observed event) :
    ∀ event ∈ (final (watchedStrcpyLoop note fuel destination source w)).trace,
      observed event := by
  have short := string.length_lt
  induction fuel generalizing destination source text w with
  | zero => exact earlier
  | succ fuel ih =>
      have start : ∀ address, address ∈ Span address (text.length + 1) :=
        fun _ => Span.start_mem (Nat.succ_pos _)
      have now : ∀ event ∈ w.trace ++ [note ⟨source, destination⟩], observed event := by
        rw [List.forall_mem_append, List.forall_mem_singleton]
        exact ⟨earlier, notes _ (inFrom (start source)) (inTo (start destination))⟩
      rw [watchedStrcpyLoop, bind_of_ok (watch_run _ w),
        bind_of_ok (unwatched_ok (getByte_run _ _)), bind_of_ok (unwatched_ok (putByte_run _ _ _))]
      cases text with
      | nil =>
          rw [CString.nil_iff.mp string, if_pos rfl]
          exact now
      | cons c rest =>
          obtain ⟨first, nonzero, tail⟩ := CString.cons_iff.mp string
          rw [first, if_neg nonzero]
          rw [List.length_cons] at inFrom inTo short
          have one : (1 : UInt32).toNat = 1 := rfl
          have tailFrom : Span (source + 1) (rest.length + 1) ⊆ origin :=
            (Span.shift_subset (by omega)).trans inFrom
          have tailTo : Span (destination + 1) (rest.length + 1) ⊆ target :=
            (Span.shift_subset (by omega)).trans inTo
          have tailNext : CString (w.state.mem.write destination [c]) (source + 1) rest := by
            refine tail.congr fun other inTail => Bytes.write_of_notMem fun inFirst => ?_
            refine Set.disjoint_left.mp apart (tailFrom inTail) (inTo (Span.mono ?_ inFirst))
            rw [List.length_singleton]
            omega
          exact ih tailNext tailFrom tailTo now (by omega)

/-- Bytes other than zero are all copied, and then one more. -/
theorem watchedStrcpyLoop_past {fuel : Nat} {destination source : UInt32} (count : Nat)
    (noNul : 0 ∉ w.state.mem.read source count)
    (apart : Disjoint (Span source count) (Span destination count)) (wide : count < 2 ^ 32)
    (enough : count < fuel) :
    note ⟨source + UInt32.ofNat count, destination + UInt32.ofNat count⟩ ∈
      (final (watchedStrcpyLoop note fuel destination source w)).trace := by
  induction count generalizing fuel destination source w with
  | zero =>
      obtain ⟨fuel, rfl⟩ : ∃ n, fuel = n + 1 := ⟨fuel - 1, by omega⟩
      have zero : ∀ address : UInt32, address + UInt32.ofNat 0 = address := by
        intro address
        grind
      rw [zero, zero, watchedStrcpyLoop, bind_of_ok (watch_run _ w)]
      have grows : Respects Grows (do
          let c ← (unwatched (getByte source) : Program Halt (Watched Machine τ) UInt8)
          unwatched (putByte destination c)
          if c = 0 then pure ()
          else watchedStrcpyLoop note fuel (destination + 1) (source + 1)) := by
        refine .bind Grows.trans (unwatched_grows _) fun c => .bind Grows.trans (unwatched_grows _)
          fun _ => ?_
        split
        · exact fun w => Grows.refl w
        · exact watchedStrcpyLoop_grows _ _ _ _
      exact (grows _).subset (List.mem_append_right _ (List.mem_singleton.mpr rfl))
  | succ count ih =>
      obtain ⟨fuel, rfl⟩ : ∃ n, fuel = n + 1 := ⟨fuel - 1, by omega⟩
      rw [read_succ, List.mem_cons, not_or] at noNul
      have nonzero : w.state.mem source ≠ 0 := fun zero => noNul.1 zero.symm
      have one : (1 : UInt32).toNat = 1 := rfl
      have sourceTail : Span (source + 1) count ⊆ Span source (count + 1) :=
        Span.shift_subset (by omega)
      have destinationTail : Span (destination + 1) count ⊆ Span destination (count + 1) :=
        Span.shift_subset (by omega)
      have kept : (w.state.mem.write destination [w.state.mem source]).read (source + 1) count =
          w.state.mem.read (source + 1) count := by
        apply Bytes.read_write_of_disjoint
        refine Set.disjoint_of_subset sourceTail (Span.mono ?_) apart
        rw [List.length_singleton]
        omega
      have next : ∀ address : UInt32,
          address + 1 + UInt32.ofNat count = address + UInt32.ofNat (count + 1) := by
        intro address
        rw [UInt32.ofNat_add]
        grind
      rw [watchedStrcpyLoop, bind_of_ok (watch_run _ w),
        bind_of_ok (unwatched_ok (getByte_run _ _)), bind_of_ok (unwatched_ok (putByte_run _ _ _)),
        if_neg nonzero, ← next, ← next]
      refine ih ?_ (Set.disjoint_of_subset sourceTail destinationTail apart) (by omega) (by omega)
      change 0 ∉ (w.state.mem.write destination [w.state.mem source]).read (source + 1) count
      rw [kept]
      exact noNul.2

end Trace

end Watched

end TorchOS.Filesystem
