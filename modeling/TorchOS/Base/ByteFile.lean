import TorchOS.Base.Bytes

/-!
# Files as byte strings with a cursor

A file holds a byte string and a cursor. A write goes to the cursor, which may not
lie past the end, and overwrites or extends the string within a limit; a read
takes bytes from the cursor on, up to the end; both move the cursor past what
they touched, and a seek sets it within the limit.
-/

namespace Base

/-- `bytes` with the part from `position` on replaced by `data`, extended when needed. -/
def splice (bytes : List UInt8) (position : Nat) (data : List UInt8) : List UInt8 :=
  bytes.take position ++ data ++ bytes.drop (position + data.length)

section Splice

variable {bytes data : List UInt8} {position : Nat}

theorem length_splice (inside : position ≤ bytes.length) :
    (splice bytes position data).length = max bytes.length (position + data.length) := by
  simp only [splice, List.length_append, List.length_take, List.length_drop]
  omega

/-- Each byte of a splice comes from the data inside its range, and from the old
string elsewhere. -/
theorem getElem_splice (inside : position ≤ bytes.length) {index : Nat}
    (bound : index < (splice bytes position data).length) :
    (splice bytes position data)[index] =
      if position ≤ index ∧ index < position + data.length then
        data.getD (index - position) 0
      else bytes.getD index 0 := by
  rw [length_splice inside] at bound
  have start : (bytes.take position).length = position := by
    rw [List.length_take]
    omega
  simp only [splice, List.append_assoc]
  by_cases before : index < position
  · rw [List.getElem_append_left (by omega), List.getElem_take, if_neg (by omega),
      List.getD_eq_getElem _ _ (by omega)]
  · rw [List.getElem_append_right (by omega)]
    simp only [start]
    by_cases within : index < position + data.length
    · rw [List.getElem_append_left (by omega), if_pos (by omega),
        List.getD_eq_getElem _ _ (by omega)]
    · rw [List.getElem_append_right (by omega), List.getElem_drop, if_neg (by omega),
        List.getD_eq_getElem _ _ (by omega)]
      congr 1
      omega

/-- What was spliced in is read back. -/
theorem take_drop_splice (inside : position ≤ bytes.length) :
    ((splice bytes position data).drop position).take data.length = data := by
  have start : (bytes.take position).length = position := by
    rw [List.length_take]
    omega
  rw [splice, List.append_assoc, List.drop_append, start, Nat.sub_self, List.drop_zero,
    List.drop_eq_nil_of_le (by omega), List.nil_append, List.take_left]

theorem splice_nil : splice [] 0 data = data := by simp [splice]

/-- Writing inside a stored string, or just past its end, stores the splice. -/
theorem Bytes.read_write_splice {memory : Bytes} {start : UInt32} {count : Nat}
    (inside : position ≤ count) (countFits : count < 2 ^ 32)
    (dataFits : position + data.length < 2 ^ 32) :
    (memory.write (start + UInt32.ofNat position) data).read start
        (max count (position + data.length)) =
      splice (memory.read start count) position data := by
  have length : (splice (memory.read start count) position data).length =
      max count (position + data.length) := by
    rw [length_splice (by rwa [Bytes.length_read]), Bytes.length_read]
  apply List.ext_getElem (by rw [Bytes.length_read, length])
  intro index left right
  rw [length] at right
  rw [Bytes.getElem_read, getElem_splice (by rwa [Bytes.length_read])]
  have offset : start + UInt32.ofNat index - (start + UInt32.ofNat position) =
      UInt32.ofNat index - UInt32.ofNat position := by grind
  by_cases within : position ≤ index ∧ index < position + data.length
  · have place : start + UInt32.ofNat index =
        start + UInt32.ofNat position + UInt32.ofNat (index - position) := by
      have split : index = position + (index - position) := by omega
      rw [split, UInt32.ofNat_add, Nat.add_sub_cancel_left]
      grind
    rw [if_pos within, place, Bytes.write_at (by omega) (by omega), List.getD_eq_getElem]
  · have outside : start + UInt32.ofNat index ∉
        Span (start + UInt32.ofNat position) data.length := by
      rw [Span.mem_def, offset, UInt32.toNat_sub, UInt32.toNat_ofNat', UInt32.toNat_ofNat']
      omega
    rw [if_neg within, Bytes.write_of_notMem outside,
      List.getD_eq_getElem _ _ (by rw [Bytes.length_read]; omega), Bytes.getElem_read]

end Splice

/-- A byte string and a cursor into it. -/
structure ByteFile where
  bytes : List UInt8
  cursor : Nat
  deriving DecidableEq

namespace ByteFile

/-- The file of no bytes. -/
def empty : ByteFile := ⟨[], 0⟩

/-- What is asked of a file. -/
inductive Request where
  | seek (position : Nat)
  | write (data : List UInt8)
  | read (count : Nat)
  deriving DecidableEq

/-- The file after a request, or nothing when the request is refused. -/
def answer (limit : Nat) (file : ByteFile) : Request → Option ByteFile
  | .seek position =>
      if position ≤ limit then some { file with cursor := position } else none
  | .write data =>
      if file.cursor ≤ file.bytes.length ∧ file.cursor + data.length ≤ limit then
        some ⟨splice file.bytes file.cursor data, file.cursor + data.length⟩
      else none
  | .read count =>
      if file.cursor + count ≤ file.bytes.length then
        some { file with cursor := file.cursor + count }
      else none

/-- The bytes a read delivers. -/
def contents (file : ByteFile) (count : Nat) : List UInt8 :=
  (file.bytes.drop file.cursor).take count

variable {limit : Nat} {file sought written again : ByteFile} {data : List UInt8} {position : Nat}

/-- After seeking to a position, writing there and seeking back, a read of as many
bytes succeeds and delivers the data written. -/
theorem read_after_write (seek : answer limit file (.seek position) = some sought)
    (write : answer limit sought (.write data) = some written)
    (back : answer limit written (.seek position) = some again) :
    again.cursor + data.length ≤ again.bytes.length ∧ again.contents data.length = data := by
  simp only [answer, Option.ite_none_right_eq_some, Option.some.injEq] at seek write back
  obtain ⟨-, rfl⟩ := seek
  obtain ⟨⟨inside, -⟩, rfl⟩ := write
  obtain ⟨-, rfl⟩ := back
  refine ⟨?_, take_drop_splice inside⟩
  rw [length_splice inside]
  exact Nat.le_max_right _ _

end ByteFile

end Base
