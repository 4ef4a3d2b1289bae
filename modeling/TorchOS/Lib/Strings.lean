import TorchOS.Lib.Memory

/-!
# `strlen` and `strrev`

`strrev` swaps the bytes of a string pairwise in place, from both ends to the middle.
After any number of rounds memory is described by one function: the bytes within that
many places of either end have come from the mirrored place, the others are as they were.
-/

namespace TorchOS.Lib

open Base Base.Program

/-- `strlen`, over any state that has memory. -/
def strlenIn {σ : Type} (mem : σ → Bytes) (str : UInt32) : Program Halt σ UInt32 :=
  loop (fun len s => mem s (str + len) ≠ 0) (fun len => pure (len + 1)) .endless loopBound 0

/-- `strlen` -/
def strlen (str : UInt32) : Kernel UInt32 := strlenIn Machine.mem str

/-- One round of `strrev`. -/
def swapChars (str len i : UInt32) : Kernel UInt32 := do
  let temp ← getByte (str + i)
  putByte (str + i) (← getByte (str + (len - 1 - i)))
  putByte (str + (len - 1 - i)) temp
  pure (i + 1)

/-- `strrev` -/
def strrev (str : UInt32) : Kernel Unit := do
  let len ← strlen str
  let _ ← loop (fun i _ => i < len / 2) (swapChars str len) .endless loopBound 0
  pure ()

section Length

variable {σ : Type} {mem : σ → Bytes} {s : σ} {str : UInt32} {text : List UInt8}

theorem strlen_from {fuel : Nat} {len : UInt32} (string : CString (mem s) (str + len) text)
    (enough : text.length < fuel) :
    loop (fun len s => decide (mem s (str + len) ≠ 0)) (fun len => pure (len + 1))
      Halt.endless fuel len s = .ok (len + UInt32.ofNat text.length) s := by
  induction text generalizing fuel len with
  | nil =>
      obtain ⟨fuel, rfl⟩ : ∃ n, fuel = n + 1 := ⟨fuel - 1, by simp at enough; omega⟩
      refine (loop_done ?_).trans ?_
      · simpa using CString.nil_iff.mp string
      · rw [List.length_nil]
        simp
  | cons c rest ih =>
      obtain ⟨fuel, rfl⟩ : ∃ n, fuel = n + 1 := ⟨fuel - 1, by simp at enough; omega⟩
      obtain ⟨here, nonzero, tail⟩ := CString.cons_iff.mp string
      rw [List.length_cons] at enough
      rw [UInt32.add_assoc] at tail
      have shorter : rest.length < fuel := by omega
      refine (loop_again ?_).trans ((bind_of_ok (pure_run _ s)).trans ((ih tail shorter).trans ?_))
      · simpa [here] using nonzero
      · rw [List.length_cons, Nat.add_comm rest.length 1, UInt32.ofNat_add, UInt32.add_assoc]
        rfl

/-- `strlen` counts the bytes before the terminator. -/
theorem strlenIn_run (string : CString (mem s) str text) :
    strlenIn mem str s = .ok (UInt32.ofNat text.length) s := by
  have short := string.length_lt
  have start : CString (mem s) (str + 0) text := by rwa [UInt32.add_zero]
  have run := strlen_from start (by unfold loopBound; omega : text.length < loopBound)
  rwa [UInt32.zero_add] at run

end Length

section Runs

variable {s : Machine} {mem : Bytes} {str address : UInt32} {text : List UInt8}

theorem strlen_run (string : CString s.mem str text) :
    strlen str s = .ok (UInt32.ofNat text.length) s :=
  strlenIn_run string

/-! ## Reversal -/

/-- Memory with the outermost `rounds` pairs of `length` bytes exchanged. -/
def mirrored (mem : Bytes) (str : UInt32) (length rounds : Nat) : Bytes := fun address =>
  if (address - str).toNat < length ∧
      ((address - str).toNat < rounds ∨ length ≤ (address - str).toNat + rounds) then
    mem (str + UInt32.ofNat (length - 1 - (address - str).toNat))
  else mem address

theorem mirrored_zero (length : Nat) : mirrored mem str length 0 = mem := by
  funext address
  rw [mirrored, if_neg]
  omega

/-- A byte of the string after some rounds. -/
theorem mirrored_at {length rounds index : Nat} (inside : index < length)
    (short : length < 2 ^ 32) :
    mirrored mem str length rounds (str + UInt32.ofNat index) =
      if index < rounds ∨ length ≤ index + rounds then
        mem (str + UInt32.ofNat (length - 1 - index))
      else mem (str + UInt32.ofNat index) := by
  have offset : (str + UInt32.ofNat index - str).toNat = index := by
    have same : str + UInt32.ofNat index - str = UInt32.ofNat index := by grind
    rw [same]
    exact UInt32.toNat_ofNat_of_lt' (by unfold UInt32.size; omega)
  rw [mirrored, offset]
  by_cases near : index < rounds ∨ length ≤ index + rounds
  · rw [if_pos ⟨inside, near⟩, if_pos near]
  · rw [if_neg fun both => near both.2, if_neg near]

/-- A round exchanges the next pair. -/
theorem swapChars_run {length rounds : Nat} (short : length < 2 ^ 32) (half : rounds < length / 2) :
    swapChars str (UInt32.ofNat length) (UInt32.ofNat rounds)
        (s.withMem (mirrored s.mem str length rounds)) =
      .ok (UInt32.ofNat (rounds + 1))
        (s.withMem (mirrored s.mem str length (rounds + 1))) := by
  have far : UInt32.ofNat length - 1 - UInt32.ofNat rounds = UInt32.ofNat (length - 1 - rounds) := by
    rw [← UInt32.toNat_inj, UInt32.toNat_sub, UInt32.toNat_sub, UInt32.toNat_ofNat',
      UInt32.toNat_ofNat', UInt32.toNat_ofNat']
    have one : (1 : UInt32).toNat = 1 := rfl
    rw [one]
    omega
  have next : UInt32.ofNat rounds + 1 = UInt32.ofNat (rounds + 1) := by
    rw [UInt32.ofNat_add]
    rfl
  have nearByte := @mirrored_at s.mem str length rounds rounds (by omega) short
  have farByte := @mirrored_at s.mem str length rounds (length - 1 - rounds) (by omega) short
  rw [if_neg (by omega)] at nearByte farByte
  have swapped : ((mirrored s.mem str length rounds).write (str + UInt32.ofNat rounds)
      [s.mem (str + UInt32.ofNat (length - 1 - rounds))]).write
        (str + UInt32.ofNat (length - 1 - rounds)) [s.mem (str + UInt32.ofNat rounds)] =
      mirrored s.mem str length (rounds + 1) := by
    funext address
    rw [Bytes.write_singleton, Bytes.write_singleton]
    by_cases atFar : address = str + UInt32.ofNat (length - 1 - rounds)
    · have back : length - 1 - (length - 1 - rounds) = rounds := by omega
      rw [if_pos atFar, atFar, mirrored_at (by omega) short, if_pos (by omega), back]
    · rw [if_neg atFar]
      by_cases atNear : address = str + UInt32.ofNat rounds
      · rw [if_pos atNear, atNear, mirrored_at (by omega) short, if_pos (by omega)]
      · rw [if_neg atNear]
        have place : address = str + UInt32.ofNat (address - str).toNat := by
          rw [UInt32.ofNat_toNat]
          grind
        have notNear : (address - str).toNat ≠ rounds := fun same => atNear (same ▸ place)
        have notFar : (address - str).toNat ≠ length - 1 - rounds := fun same =>
          atFar (same ▸ place)
        unfold mirrored
        congr 1
        rw [eq_iff_iff]
        omega
  unfold swapChars
  rw [far, next]
  refine (bind_of_ok (getByte_run _ _)).trans ((bind_of_ok (getByte_run _ _)).trans ?_)
  refine (bind_of_ok (putByte_run _ _ _)).trans ((bind_of_ok (putByte_run _ _ _)).trans ?_)
  rw [Machine.withMem_mem, Machine.withMem_mem, nearByte, farByte, Machine.withMem_withMem,
    Machine.withMem_withMem, swapped]
  rfl

/-- The rounds go on to the middle. -/
theorem swaps_run {length rounds fuel : Nat} (short : length < 2 ^ 32)
    (half : rounds ≤ length / 2) (enough : length / 2 - rounds < fuel) :
    loop (fun i (_ : Machine) => decide (i < UInt32.ofNat length / 2))
        (swapChars str (UInt32.ofNat length)) Halt.endless fuel (UInt32.ofNat rounds)
        (s.withMem (mirrored s.mem str length rounds)) =
      .ok (UInt32.ofNat (length / 2)) (s.withMem (mirrored s.mem str length (length / 2))) := by
  have middle : (UInt32.ofNat length / 2).toNat = length / 2 := by
    rw [UInt32.toNat_div, UInt32.toNat_ofNat', Nat.mod_eq_of_lt short]
    rfl
  induction fuel generalizing rounds with
  | zero => omega
  | succ fuel ih =>
      have position : (UInt32.ofNat rounds).toNat = rounds :=
        UInt32.toNat_ofNat_of_lt' (by unfold UInt32.size; omega)
      by_cases more : rounds < length / 2
      · refine (loop_again ?_).trans ((bind_of_ok (swapChars_run short more)).trans
          (ih (by omega) (by omega)))
        rw [decide_eq_true_eq, UInt32.lt_iff_toNat_lt, middle, position]
        exact more
      · have done : rounds = length / 2 := by omega
        subst done
        refine loop_done ?_
        rw [decide_eq_false_iff_not, UInt32.lt_iff_toNat_lt, middle, position]
        omega

/-- With all pairs exchanged, memory holds the reversed text. -/
theorem mirrored_half (string : CString mem str text) :
    mirrored mem str text.length (text.length / 2) = mem.write str text.reverse := by
  have short := string.length_lt
  funext address
  by_cases inside : address ∈ Span str text.length
  · obtain ⟨index, below, bound, rfl⟩ := Span.exists_index inside
    have position : index < text.reverse.length := by
      rwa [List.length_reverse]
    rw [mirrored_at below short, Bytes.write_at position bound, List.getElem_reverse]
    split
    · exact string.at_index (by omega)
    next middle =>
      have same : index = text.length - 1 - index := by omega
      rw [string.at_index below]
      congr 1
  · have outside : address ∉ Span str text.reverse.length := by
      rwa [List.length_reverse]
    rw [Bytes.write_of_notMem outside, mirrored, if_neg fun both => inside both.1]

/-- `strrev` leaves the reversed text. -/
theorem strrev_run (string : CString s.mem str text) :
    strrev str s = .ok () (s.withMem (s.mem.write str text.reverse)) := by
  have short := string.length_lt
  have start : s = s.withMem (mirrored s.mem str text.length 0) := by
    rw [mirrored_zero]
    rfl
  have swaps := @swaps_run s str text.length 0 loopBound short (Nat.zero_le _)
    (by unfold loopBound; omega)
  rw [← start, mirrored_half string] at swaps
  refine (bind_of_ok (strlen_run string)).trans ?_
  exact bind_of_ok swaps

/-- A text written in front of a zero byte is a string. -/
theorem CString.written (noNul : 0 ∉ text) (short : text.length < 2 ^ 32)
    (ends : mem (str + UInt32.ofNat text.length) = 0) : CString (mem.write str text) str text := by
  refine ⟨?_, noNul⟩
  have behind : str + UInt32.ofNat text.length ∉ Span str text.length := by
    have offset : str + UInt32.ofNat text.length - str = UInt32.ofNat text.length := by grind
    rw [Span.mem_def, offset, UInt32.toNat_ofNat_of_lt' short]
    omega
  have last : (mem.write str text).read (str + UInt32.ofNat text.length) 1 = [0] := by
    simp [Bytes.read, Bytes.write_of_notMem behind, ends]
  rw [Bytes.read_add, Bytes.read_write_same (by omega), last]

/-- What `strrev` leaves is a string again. -/
theorem CString.reversed (string : CString mem str text) :
    CString (mem.write str text.reverse) str text.reverse := by
  refine .written ?_ ?_ ?_
  · rw [List.mem_reverse]
    exact string.noNul
  · rw [List.length_reverse]
    exact string.length_lt
  · rw [List.length_reverse]
    exact string.terminator

end Runs

end TorchOS.Lib
