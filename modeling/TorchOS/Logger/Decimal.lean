import TorchOS.Logger.Printing

/-!
# Decimal printing

`print_serial_unsigned_decimal` with every byte it stores: the digits, the terminator and
the swaps of `strrev` all go into its local array, and what it sends is the numeral.
-/

namespace TorchOS.Logger

open Base Base.Program Lib

/-- Logging code, with the addresses it stores to. -/
abbrev Storing := Program Halt (Watched (Watched Machine SerialEvent) UInt32)

/-- Code that stores nothing of the array. -/
def plainly {α : Type} (program : Kernel α) : Storing α := unwatched (unwatched program)

/-- A byte store. -/
def storingPutByte (address : UInt32) (value : UInt8) : Storing Unit := do
  watch fun _ => [address]
  plainly (putByte address value)

/-- A round of the digit loop. -/
def storingDigit (s : UInt32) (rest : UInt32 × UInt32) : Storing (UInt32 × UInt32) := do
  storingPutByte (s + rest.2) (rest.1 % 10 + 48).toUInt8
  pure (rest.1 / 10, rest.2 + 1)

/-- The digit loop. -/
def storingDigits (s n : UInt32) : Storing UInt32 := do
  let rest ← loop (fun rest _ => rest.1 > 0) (storingDigit s) .endless loopBound (n, 0)
  pure rest.2

/-- A round of `strrev`. -/
def storingSwap (str len i : UInt32) : Storing UInt32 := do
  let temp ← plainly (getByte (str + i))
  storingPutByte (str + i) (← plainly (getByte (str + (len - 1 - i))))
  storingPutByte (str + (len - 1 - i)) temp
  pure (i + 1)

/-- `strrev` -/
def storingStrrev (str : UInt32) : Storing Unit := do
  let len ← plainly (strlen str)
  let _ ← loop (fun i _ => i < len / 2) (storingSwap str len) .endless loopBound 0
  pure ()

/-- `print_serial_unsigned_decimal` -/
def storingUnsignedDecimal (s n : UInt32) : Storing Unit := do
  if n = 0 then
    storingPutByte s '0'.toUInt8
    storingPutByte (s + 1) 0
    unwatched (printSerial s)
  else
    let pos ← storingDigits s n
    storingPutByte (s + pos) 0
    storingStrrev s
    unwatched (printSerial s)

/-! ## Watching changes nothing -/

section Watching

theorem storingPutByte_watches (address : UInt32) (value : UInt8) :
    Watches (storingPutByte address value) (unwatched (putByte address value)) :=
  .after_watch _ (.unwatched _)

theorem storingDigits_watches (s n : UInt32) :
    Watches (storingDigits s n) (unwatched (storeDigits s n)) := by
  have round : ∀ rest, Watches (storingDigit s rest) (unwatched (storeDigit s rest)) := by
    intro rest
    rw [storeDigit, unwatched_bind]
    exact .bind (storingPutByte_watches _ _) fun _ _ => rfl
  have digits : Watches (loop (onState (onState fun rest _ => decide (rest.1 > 0)))
      (storingDigit s) Halt.endless loopBound (n, 0)) _ := .loop round _ _
  rw [storeDigits, unwatched_bind, unwatched_loop]
  exact .bind digits fun _ _ => rfl

theorem storingSwap_watches (str len i : UInt32) :
    Watches (storingSwap str len i) (unwatched (swapChars str len i)) := by
  simp only [swapChars, unwatched_bind]
  exact .bind (.unwatched _) fun _ => .bind (.unwatched _) fun _ =>
    .bind (storingPutByte_watches _ _) fun _ => .bind (storingPutByte_watches _ _) fun _ _ => rfl

theorem storingStrrev_watches (str : UInt32) :
    Watches (storingStrrev str) (unwatched (strrev str)) := by
  have swaps : ∀ len, Watches (loop (onState (onState fun i _ => decide (i < len / 2)))
      (storingSwap str len) Halt.endless loopBound 0) _ :=
    fun len => .loop (fun i => storingSwap_watches str len i) _ _
  simp only [strrev, unwatched_bind, unwatched_loop]
  exact .bind (.unwatched _) fun len => .bind (swaps len) fun _ _ => rfl

theorem storingUnsignedDecimal_watches (s n : UInt32) :
    Watches (storingUnsignedDecimal s n) (printSerialUnsignedDecimal s n) := by
  unfold storingUnsignedDecimal printSerialUnsignedDecimal
  split
  · exact .bind (storingPutByte_watches _ _) fun _ => .bind (storingPutByte_watches _ _)
      fun _ => .unwatched _
  · exact .bind (storingDigits_watches _ _) fun _ => .bind (storingPutByte_watches _ _)
      fun _ => .bind (storingStrrev_watches _) fun _ => .unwatched _

end Watching

/-! ## Where it stores -/

/-- Every store so far went into a region. -/
def StoresIn (region : Set UInt32) (w : Watched (Watched Machine SerialEvent) UInt32) : Prop :=
  ∀ address ∈ w.trace, address ∈ region

section Stores

variable {w : Watched (Watched Machine SerialEvent) UInt32} {region : Set UInt32}
  {state : Watched Machine SerialEvent} {s n str len address : UInt32} {value : UInt8}

theorem storingPutByte_run : storingPutByte address value w =
    .ok () ⟨⟨w.state.state.withMem (w.state.state.mem.write address [value]), w.state.trace⟩,
      w.trace ++ [address]⟩ := rfl

theorem StoresIn.snoc (inside : StoresIn region w) (member : address ∈ region) :
    StoresIn region ⟨state, w.trace ++ [address]⟩ := by
  intro other stored
  rcases List.mem_append.mp stored with old | new
  · exact inside other old
  · rwa [List.mem_singleton.mp new]

theorem plainly_ok {α : Type} {program : Kernel α} {result : α} {after : Machine}
    (returned : program w.state.state = .ok result after) :
    plainly program w = .ok result ⟨⟨after, w.state.trace⟩, w.trace⟩ :=
  unwatched_ok (unwatched_ok returned)

/-- The digits of a 32-bit number take at most ten bytes. -/
theorem storingDigits_stores (inside : StoresIn (Span s 25) w) :
    Yields (storingDigits s n w) (fun _ after => StoresIn (Span s 25) after) fun _ => False := by
  have few := Numeral.length_lowDigits_word n
  have digits := @Yields.loop Halt (Watched (Watched Machine SerialEvent) UInt32)
    (UInt32 × UInt32) (fun rest _ => decide (rest.1 > 0)) (storingDigit s) .endless
    (fun rest after => rest.2.toNat + (Numeral.lowDigits rest.1.toNat).length ≤ 10 ∧
      StoresIn (Span s 25) after)
    (fun rest _ => rest.1.toNat) (fun _ => False) ?_ loopBound (n, 0) w ⟨?_, inside⟩ ?_
  · rw [storingDigits]
    exact digits.bind fun rest after holds => holds.1.2
  · rintro ⟨rest, pos⟩ state ⟨bounded, stored⟩ more
    have room : pos.toNat + (Numeral.lowDigits rest.toNat).length ≤ 10 := bounded
    have positive : 0 < rest.toNat := UInt32.lt_iff_toNat_lt.mp (of_decide_eq_true more)
    have tenth : (rest / 10).toNat = rest.toNat / 10 := UInt32.toNat_div _ _
    have next : (pos + 1).toNat = (pos.toNat + 1) % 2 ^ 32 := UInt32.toNat_add _ _
    have digits := Numeral.lowDigits_pos positive
    rw [digits, List.length_cons] at room
    rw [storingDigit, bind_of_ok storingPutByte_run]
    refine ⟨⟨?_, stored.snoc (Span.add_mem (by omega))⟩, ?_⟩
    · rw [next, tenth]
      omega
    · change (rest / 10).toNat < rest.toNat
      rw [tenth]
      omega
  · change 0 + (Numeral.lowDigits n.toNat).length ≤ 10
    omega
  · have wide := n.toNat_lt
    change n.toNat < loopBound
    unfold loopBound
    omega

/-- The swaps stay within the string. -/
theorem storingStrrev_stores (length : strlen str w.state.state = .ok len w.state.state)
    (fits : len.toNat ≤ 25) (inside : StoresIn (Span str 25) w) :
    Yields (storingStrrev str w) (fun _ after => StoresIn (Span str 25) after) fun _ => False := by
  have half : (len / 2).toNat = len.toNat / 2 := UInt32.toNat_div _ _
  have swaps := @Yields.loop Halt (Watched (Watched Machine SerialEvent) UInt32) UInt32
    (fun i _ => decide (i < len / 2)) (storingSwap str len) .endless
    (fun _ after => StoresIn (Span str 25) after) (fun i _ => len.toNat - i.toNat)
    (fun _ => False) ?_ loopBound 0 w inside ?_
  · rw [storingStrrev, bind_of_ok (plainly_ok length)]
    exact swaps.bind fun _ _ holds => holds.1
  · intro i state stored more
    have below := UInt32.lt_iff_toNat_lt.mp (of_decide_eq_true more)
    rw [half] at below
    have next : (i + 1).toNat = (i.toNat + 1) % 2 ^ 32 := UInt32.toNat_add _ _
    have far : (len - 1 - i).toNat = len.toNat - 1 - i.toNat := by
      have one : (1 : UInt32).toNat = 1 := rfl
      rw [UInt32.toNat_sub, UInt32.toNat_sub, one]
      omega
    rw [storingSwap, bind_of_ok (plainly_ok (getByte_run _ _)),
      bind_of_ok (plainly_ok (getByte_run _ _)), bind_of_ok storingPutByte_run,
      bind_of_ok storingPutByte_run]
    refine ⟨(stored.snoc (Span.add_mem (by omega))).snoc (Span.add_mem (by omega)), ?_⟩
    rw [next]
    omega
  · change len.toNat - 0 < loopBound
    unfold loopBound
    omega

/-- All of it stores in the local array. -/
theorem storingUnsignedDecimal_stores (s n : UInt32) (w : Watched Machine SerialEvent) :
    StoresIn (Span s 25) (final (storingUnsignedDecimal s n ⟨w, []⟩)) := by
  have start : StoresIn (Span s 25) ⟨w, []⟩ := fun _ none => absurd none List.not_mem_nil
  have printed : ∀ after : Watched (Watched Machine SerialEvent) UInt32,
      StoresIn (Span s 25) after → StoresIn (Span s 25) (final (unwatched (printSerial s) after)) :=
    fun after stored address member =>
      stored address (unwatched_trace (printSerial s) after ▸ member)
  rw [storingUnsignedDecimal]
  by_cases zero : n = 0
  · rw [if_pos zero, bind_of_ok storingPutByte_run, bind_of_ok storingPutByte_run]
    have inFirst : s ∈ Span s 25 := Span.start_mem (by decide)
    have inSecond : s + 1 ∈ Span s 25 := Span.add_mem (by decide)
    exact printed _ ((start.snoc inFirst).snoc inSecond)
  · have positive : 0 < n.toNat :=
      UInt32.lt_iff_toNat_lt.mp (UInt32.pos_iff_ne_zero.mpr zero)
    have few := Numeral.length_lowDigits_word n
    have digits := (storingDigits_watches s n).returned (w := ⟨w, []⟩)
      (unwatched_ok (storeDigits_run s n w.state))
    have stored := (storingDigits_stores start).of_ok digits
    have noNul := Numeral.zero_notMem_lowDigits n.toNat
    generalize Numeral.lowDigits n.toNat = low at few noNul digits stored
    have count : (UInt32.ofNat low.length).toNat = low.length :=
      UInt32.toNat_ofNat_of_lt' (Nat.lt_of_le_of_lt few (by decide))
    have string : CString (w.state.mem.write s (low ++ [0])) s low :=
      cString_stored noNul (by omega)
    have joined : (w.state.mem.write s low).write (s + UInt32.ofNat low.length) [0] =
        w.state.mem.write s (low ++ [0]) :=
      Bytes.write_append (by rw [List.length_singleton]; omega)
    have terminates : storingPutByte (s + UInt32.ofNat low.length) 0
        ⟨⟨w.state.withMem (w.state.mem.write s low), w.trace⟩,
          (final (storingDigits s n ⟨w, []⟩)).trace⟩ =
        .ok () ⟨⟨w.state.withMem (w.state.mem.write s (low ++ [0])), w.trace⟩,
          (final (storingDigits s n ⟨w, []⟩)).trace ++ [s + UInt32.ofNat low.length]⟩ := by
      rw [storingPutByte_run, Machine.withMem_mem, Machine.withMem_withMem, joined]
    have terminated : StoresIn (Span s 25)
        ⟨⟨w.state.withMem (w.state.mem.write s (low ++ [0])), w.trace⟩,
          (final (storingDigits s n ⟨w, []⟩)).trace ++ [s + UInt32.ofNat low.length]⟩ :=
      stored.snoc (Span.add_mem (by omega))
    obtain ⟨_, after, reverses, reversed⟩ :=
      (storingStrrev_stores (strlen_run string) (by omega) terminated).returns
    rw [if_neg zero, bind_of_ok digits, bind_of_ok terminates, bind_of_ok reverses]
    exact printed after reversed

/-- How `print_serial_unsigned_decimal` prints a number from its local array at `s`. -/
structure PrintsDecimal (s n : UInt32) (w : Watched Machine SerialEvent) (numeral : List UInt8) :
    Prop where
  /-- It returns and has sent the numeral. -/
  returns : ∃ mem, printSerialUnsignedDecimal s n w =
    .ok () ⟨w.state.withMem mem, w.trace ++ numeral.map .sent⟩
  /-- It stores in its array only. -/
  stores : ∀ address ∈ (final (storingUnsignedDecimal s n ⟨w, []⟩)).trace, address ∈ Span s 25
  /-- Every byte sent is a digit. -/
  digits : ∀ byte ∈ numeral, '0'.toUInt8 ≤ byte ∧ byte ≤ '9'.toUInt8
  /-- Read back in base 10 they give the number. -/
  value : Numeral.readBack 10 numeral = n.toNat
  /-- There is no leading zero. -/
  leading : n ≠ 0 → numeral.head? ≠ some '0'.toUInt8
  /-- Zero is sent as one digit. -/
  zero : n = 0 → numeral = ['0'.toUInt8]
  /-- `strrev` leaves the exact reversal of a string, and changes no other byte. -/
  reverses : ∀ {m : Machine} {str : UInt32} {text : List UInt8}, CString m.mem str text →
    strrev str m = .ok () (m.withMem (m.mem.write str text.reverse)) ∧
      CString (m.mem.write str text.reverse) str text.reverse

/-- Decimal printing is exact, for every number, whatever memory holds. -/
theorem printSerialUnsignedDecimal_exact (s n : UInt32) (w : Watched Machine SerialEvent) :
    PrintsDecimal s n w (Numeral.decimal n.toNat) := by
  obtain ⟨mem, run, _⟩ := printSerialUnsignedDecimal_run s n w
  refine ⟨⟨mem, run⟩, storingUnsignedDecimal_stores s n w, fun byte member =>
    Numeral.mem_decimal member, Numeral.readBack_decimal _, fun nonzero leading => ?_, ?_,
    fun string => ⟨strrev_run string, string.reversed⟩⟩
  · exact nonzero (UInt32.toNat_inj.mp (Numeral.decimal_head_zero leading))
  · rintro rfl
    rfl

end Stores

end TorchOS.Logger
