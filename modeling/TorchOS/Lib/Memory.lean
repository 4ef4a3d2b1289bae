import TorchOS.Machine

/-!
# The string library and the logger

`memset`, `memcpy`, `strcpy` and `strncmp` of `src/lib/string`, byte by byte as
they run, over memory addressed as C does, and `logf`, which records the lines
it prints. Each copy is then shown to be one `write` of the bytes it copies.
-/

namespace TorchOS.Lib

open Base Base.Program

/-! ## Loads and stores -/

/-- A byte load. -/
def getByte (address : UInt32) : Kernel UInt8 := read fun s => s.mem address

/-- A byte store. -/
def putByte (address : UInt32) (value : UInt8) : Kernel Unit :=
  update fun s => s.withMem (s.mem.write address [value])

/-- A word load. -/
def getWord (address : UInt32) : Kernel UInt32 := read fun s => s.mem.load32 address

/-- A word store. -/
def putWord (address value : UInt32) : Kernel Unit :=
  update fun s => s.withMem (s.mem.store32 address value)

@[simp] theorem getByte_run (address : UInt32) (s : Machine) :
    getByte address s = .ok (s.mem address) s := rfl

@[simp] theorem putByte_run (address : UInt32) (value : UInt8) (s : Machine) :
    putByte address value s = .ok () (s.withMem (s.mem.write address [value])) := rfl

@[simp] theorem getWord_run (address : UInt32) (s : Machine) :
    getWord address s = .ok (s.mem.load32 address) s := rfl

@[simp] theorem putWord_run (address value : UInt32) (s : Machine) :
    putWord address value s = .ok () (s.withMem (s.mem.store32 address value)) := rfl

/-! ## Block operations -/

/-- The loop of `memset` over the byte store in use. -/
def memsetBy (store : UInt32 → UInt8 → Kernel Unit) (bufptr : UInt32) (value : UInt8)
    (size : UInt32) : Kernel Unit :=
  times (fun i => store (bufptr + UInt32.ofNat i) value) size.toNat

/-- `memset` -/
def memset (bufptr : UInt32) (value : UInt8) (size : UInt32) : Kernel Unit :=
  memsetBy putByte bufptr value size

/-- `memcpy`, from the first byte up. -/
def memcpy (destination source num : UInt32) : Kernel Unit :=
  times (fun i => do
    putByte (destination + UInt32.ofNat i) (← getByte (source + UInt32.ofNat i))) num.toNat

/-- The loop of `strcpy`: it copies up to and including the first zero byte. -/
def strcpyLoop : Nat → UInt32 → UInt32 → Kernel Unit
  | 0, _, _ => halt .endless
  | fuel + 1, destination, source => do
      let c ← getByte source
      putByte destination c
      if c = 0 then pure () else strcpyLoop fuel (destination + 1) (source + 1)

/-- `strcpy`. A copy that has gone through all of memory has overwritten every
zero byte, and never ends. -/
def strcpy (destination source : UInt32) : Kernel Unit :=
  strcpyLoop loopBound destination source

/-- The loop of `strncmp`: the first difference among `n` bytes, not stopping at zero. -/
def strncmpLoop : Nat → UInt32 → UInt32 → Kernel Int
  | 0, _, _ => pure 0
  | n + 1, s1, s2 => do
      let left ← getByte s1
      let right ← getByte s2
      if left ≠ right then pure ((left.toNat : Int) - right.toNat)
      else strncmpLoop n (s1 + 1) (s2 + 1)

/-- `strncmp` -/
def strncmp (s1 s2 n : UInt32) : Kernel Int := strncmpLoop n.toNat s1 s2

/-! ## The logger -/

/-- The bytes at an address up to the first zero byte, or nothing when there is
none within `fuel` bytes. -/
def cString (mem : Bytes) : Nat → UInt32 → Option (List UInt8)
  | 0, _ => none
  | fuel + 1, address =>
      if mem address = 0 then some []
      else (cString mem fuel (address + 1)).map fun rest => mem address :: rest

/-- What a call of `logf` passes: a `%s` or a number. -/
inductive Argument where
  | str (address : UInt32)
  | number (value : UInt32)
  deriving DecidableEq

/-- An argument as it is printed. `strlen` does not end when memory holds no zero byte. -/
def Argument.fetch (mem : Bytes) : Argument → Option LogArgument
  | .str address => (cString mem loopBound address).map .str
  | .number value => some (.number value)

/-- `logf` -/
def logf (format : String) (arguments : List Argument) : Kernel Unit := fun s =>
  match arguments.mapM (Argument.fetch s.mem) with
  | some printed => .ok () (s.withSerial (s.serial ++ [⟨format, printed⟩]))
  | none => .error .endless s

/-! ## What the copies do -/

section Copies

variable {s : Machine}

/-- Over a store that writes its byte, `memset` writes its span. -/
theorem memsetBy_run {store : UInt32 → UInt8 → Kernel Unit} (Usable : Machine → Prop)
    {value : UInt8}
    (stores : ∀ address s, Usable s →
      store address value s = .ok () (s.withMem (s.mem.write address [value])))
    (usable : ∀ mem, Usable (s.withMem mem)) (bufptr size : UInt32) :
    memsetBy store bufptr value size s =
      .ok () (s.withMem (s.mem.write bufptr (List.replicate size.toNat value))) := by
  have wide := size.toNat_lt
  unfold memsetBy
  generalize size.toNat = count at wide
  induction count with
  | zero => simp [times]
  | succ count ih =>
      rw [times, bind_of_ok (ih (by omega)), stores _ _ (usable _), Machine.withMem_mem,
        Machine.withMem_withMem, Bytes.write_replicate_succ (by omega)]

theorem memset_run (bufptr : UInt32) (value : UInt8) (size : UInt32) :
    memset bufptr value size s =
      .ok () (s.withMem (s.mem.write bufptr (List.replicate size.toNat value))) :=
  memsetBy_run (fun _ => True) (fun _ _ _ => rfl) (fun _ => trivial) bufptr size

/-- Between spans that do not overlap, `memcpy` writes what the source holds. -/
theorem memcpy_run {destination source num : UInt32}
    (apart : Disjoint (Span source num.toNat) (Span destination num.toNat)) :
    memcpy destination source num s =
      .ok () (s.withMem (s.mem.write destination (s.mem.read source num.toNat))) := by
  have wide := num.toNat_lt
  unfold memcpy
  generalize num.toNat = count at wide apart
  induction count with
  | zero => simp [times, Bytes.read]
  | succ count ih =>
      have shorter : Disjoint (Span source count) (Span destination count) :=
        Set.disjoint_of_subset (Span.mono (by omega)) (Span.mono (by omega)) apart
      have inSource : source + UInt32.ofNat count ∈ Span source (count + 1) :=
        Span.add_ofNat_mem (by omega)
      have untouched : source + UInt32.ofNat count ∉
          Span destination (s.mem.read source count).length := by
        rw [Bytes.length_read]
        exact fun member => Set.disjoint_left.mp apart inSource (Span.mono (by omega) member)
      have bound : (s.mem.read source count).length +
          [s.mem (source + UInt32.ofNat count)].length ≤ 2 ^ 32 := by
        simp only [Bytes.length_read, List.length_singleton]
        omega
      have appended : (s.mem.write destination (s.mem.read source count)).write
          (destination + UInt32.ofNat (s.mem.read source count).length)
          [s.mem (source + UInt32.ofNat count)] =
          s.mem.write destination
            (s.mem.read source count ++ [s.mem (source + UInt32.ofNat count)]) :=
        Bytes.write_append bound
      rw [Bytes.length_read] at appended
      have last : s.mem.read (source + UInt32.ofNat count) 1 =
          [s.mem (source + UInt32.ofNat count)] := by simp [Bytes.read]
      rw [times, bind_of_ok (ih (by omega) shorter), bind_of_ok (getByte_run _ _), putByte_run,
        Machine.withMem_mem, Machine.withMem_withMem, Bytes.write_of_notMem untouched, appended,
        Bytes.read_add, last]

/-- Whatever it reads on the way, `memcpy` writes as many bytes as it is asked to. -/
theorem memcpy_writes (destination source num : UInt32) (s : Machine) :
    ∃ data : List UInt8, data.length = num.toNat ∧
      memcpy destination source num s = .ok () (s.withMem (s.mem.write destination data)) := by
  have wide := num.toNat_lt
  unfold memcpy
  generalize num.toNat = count at wide
  induction count with
  | zero => exact ⟨[], rfl, by simp [times]⟩
  | succ count ih =>
      obtain ⟨data, length, copied⟩ := ih (by omega)
      have bound : ∀ byte : UInt8, data.length + [byte].length ≤ 2 ^ 32 := by
        intro byte
        rw [List.length_singleton]
        omega
      have next : ∀ byte, (s.mem.write destination data).write
          (destination + UInt32.ofNat count) [byte] = s.mem.write destination (data ++ [byte]) := by
        intro byte
        rw [← length]
        exact Bytes.write_append (bound byte)
      refine ⟨data ++ [s.mem.write destination data (source + UInt32.ofNat count)], ?_, ?_⟩
      · rw [List.length_append, List.length_singleton, length]
      · rw [times, bind_of_ok copied, bind_of_ok (getByte_run _ _), putByte_run,
          Machine.withMem_mem, Machine.withMem_withMem, next]

/-- A zero-terminated text at an address. -/
structure CString (mem : Bytes) (address : UInt32) (text : List UInt8) : Prop where
  bytes : mem.read address (text.length + 1) = text ++ [0]
  noNul : 0 ∉ text

theorem read_succ (mem : Bytes) (address : UInt32) (count : Nat) :
    mem.read address (count + 1) = mem address :: mem.read (address + 1) count := by
  rw [Nat.add_comm count 1, Bytes.read_add]
  simp [Bytes.read]

namespace CString

variable {mem mem' : Bytes} {address : UInt32} {c : UInt8} {text rest : List UInt8}

theorem nil_iff : CString mem address [] ↔ mem address = 0 := by
  constructor
  · intro string
    have first := string.bytes
    rw [List.length_nil, read_succ] at first
    exact (List.cons_eq_cons.mp first).1
  · intro zero
    exact ⟨by simp [Bytes.read, zero], List.not_mem_nil⟩

theorem cons_iff : CString mem address (c :: rest) ↔
    mem address = c ∧ c ≠ 0 ∧ CString mem (address + 1) rest := by
  constructor
  · intro string
    have first := string.bytes
    rw [List.length_cons, read_succ] at first
    obtain ⟨here, tail⟩ := List.cons_eq_cons.mp first
    refine ⟨here, fun zero => string.noNul (by simp [zero]), tail, fun member => ?_⟩
    exact string.noNul (List.mem_cons_of_mem _ member)
  · rintro ⟨here, nonzero, string⟩
    constructor
    · rw [List.length_cons, read_succ, here, string.bytes]
      rfl
    · rw [List.mem_cons, not_or]
      exact ⟨Ne.symm nonzero, string.noNul⟩

/-- A text is still there where its bytes and its zero byte are. -/
theorem congr (string : CString mem address text)
    (same : ∀ other ∈ Span address (text.length + 1), mem' other = mem other) :
    CString mem' address text :=
  ⟨(Bytes.read_congr same).trans string.bytes, string.noNul⟩

/-- The bytes before the terminator are the text. -/
theorem read (string : CString mem address text) : mem.read address text.length = text := by
  have whole := string.bytes
  rw [Bytes.read_add] at whole
  exact (List.append_inj' whole (by simp)).1

theorem terminator (string : CString mem address text) :
    mem (address + UInt32.ofNat text.length) = 0 := by
  have whole := string.bytes
  rw [Bytes.read_add] at whole
  have last := (List.append_inj' whole (by simp)).2
  simpa [Bytes.read] using last

theorem at_index (string : CString mem address text) {index : Nat} (inside : index < text.length) :
    mem (address + UInt32.ofNat index) = text[index] := by
  have bound : index < (mem.read address text.length).length := by simpa using inside
  rw [← Bytes.getElem_read bound]
  simp only [string.read]

/-- A text is shorter than memory, or its terminator would be one of its bytes. -/
theorem length_lt (string : CString mem address text) : text.length < 2 ^ 32 := by
  by_contra long
  have inside : text.length - 2 ^ 32 < text.length := by omega
  have wraps : UInt32.ofNat (text.length - 2 ^ 32) = UInt32.ofNat text.length := by
    rw [← UInt32.toNat_inj, UInt32.toNat_ofNat', UInt32.toNat_ofNat']
    omega
  have again := string.at_index inside
  rw [wraps, string.terminator] at again
  exact string.noNul (again ▸ List.getElem_mem inside)

/-- A text has its zero byte. -/
theorem zero (string : CString mem address text) : ∃ zero, mem zero = 0 := by
  induction text generalizing address with
  | nil => exact ⟨address, nil_iff.mp string⟩
  | cons c rest ih => exact ih (cons_iff.mp string).2.2

end CString

theorem strcpyLoop_run {fuel : Nat} {destination source : UInt32} {text : List UInt8}
    (string : CString s.mem source text) (enough : text.length < fuel)
    (short : text.length < 2 ^ 32)
    (apart : Disjoint (Span source (text.length + 1)) (Span destination (text.length + 1))) :
    strcpyLoop fuel destination source s =
      .ok () (s.withMem (s.mem.write destination (text ++ [0]))) := by
  induction text generalizing fuel destination source s with
  | nil =>
      obtain ⟨fuel, rfl⟩ : ∃ n, fuel = n + 1 := ⟨fuel - 1, by simp at enough; omega⟩
      have zero := CString.nil_iff.mp string
      rw [strcpyLoop, bind_of_ok (getByte_run _ _), bind_of_ok (putByte_run _ _ _), zero]
      rfl
  | cons c rest ih =>
      obtain ⟨fuel, rfl⟩ : ∃ n, fuel = n + 1 := ⟨fuel - 1, by simp at enough; omega⟩
      obtain ⟨here, nonzero, tail⟩ := CString.cons_iff.mp string
      simp only [List.length_cons] at enough short apart
      have one : (1 : UInt32).toNat = 1 := rfl
      have sourceTail : Span (source + 1) (rest.length + 1) ⊆ Span source (rest.length + 1 + 1) :=
        Span.shift_subset (by omega)
      have destinationTail :
          Span (destination + 1) (rest.length + 1) ⊆ Span destination (rest.length + 1 + 1) :=
        Span.shift_subset (by omega)
      have kept : CString (s.withMem (s.mem.write destination [c])).mem (source + 1) rest := by
        refine tail.congr fun other inTail => Bytes.write_of_notMem fun inFirst => ?_
        have first : other ∈ Span destination (rest.length + 1 + 1) :=
          Span.mono (by rw [List.length_singleton]; omega) inFirst
        exact Set.disjoint_left.mp apart (sourceTail inTail) first
      have bound : [c].length + (rest ++ [0]).length ≤ 2 ^ 32 := by
        rw [List.length_append, List.length_singleton, List.length_singleton]
        omega
      have joined : (s.mem.write destination [c]).write (destination + 1) (rest ++ [0]) =
          s.mem.write destination (c :: rest ++ [0]) := Bytes.write_append bound
      have step := ih kept
        (by omega : rest.length < fuel) (by omega)
        (Set.disjoint_of_subset sourceTail destinationTail apart)
      rw [strcpyLoop, bind_of_ok (getByte_run _ _), bind_of_ok (putByte_run _ _ _), here,
        if_neg nonzero, step, Machine.withMem_mem, Machine.withMem_withMem, ← joined]

/-- Between places that do not overlap, `strcpy` writes the text and its zero byte. -/
theorem strcpy_run {destination source : UInt32} {text : List UInt8}
    (string : CString s.mem source text) (short : text.length < 2 ^ 32)
    (apart : Disjoint (Span source (text.length + 1)) (Span destination (text.length + 1))) :
    strcpy destination source s =
      .ok () (s.withMem (s.mem.write destination (text ++ [0]))) :=
  strcpyLoop_run string (by unfold loopBound; omega) short apart

/-- Where memory holds a zero byte, the bytes from any address on end. -/
theorem cString_isSome {mem : Bytes} {zero : UInt32} (ends : mem zero = 0) {fuel : Nat}
    {address : UInt32} (enough : (zero - address).toNat < fuel) :
    (cString mem fuel address).isSome := by
  induction fuel generalizing address with
  | zero => omega
  | succ fuel ih =>
      rw [cString]
      by_cases here : mem address = 0
      · rw [if_pos here]
        rfl
      · rw [if_neg here, Option.isSome_map]
        apply ih
        have other : zero ≠ address := fun same => here (same ▸ ends)
        have positive : (zero - address).toNat ≠ 0 := by
          intro none
          apply other
          have same : zero - address = 0 := UInt32.toNat_inj.mp none
          grind
        have shift : zero - (address + 1) = (zero - address) - 1 := by grind
        have one : (1 : UInt32).toNat = 1 := rfl
        rw [shift, UInt32.toNat_sub, one]
        omega

/-- `strlen` finds the text at an address. -/
theorem CString.cString_eq {mem : Bytes} {address : UInt32} {text : List UInt8} {fuel : Nat}
    (string : CString mem address text) (enough : text.length < fuel) :
    cString mem fuel address = some text := by
  induction text generalizing fuel address with
  | nil =>
      obtain ⟨fuel, rfl⟩ : ∃ n, fuel = n + 1 := ⟨fuel - 1, by simp at enough; omega⟩
      rw [cString, if_pos (CString.nil_iff.mp string)]
  | cons c rest ih =>
      obtain ⟨fuel, rfl⟩ : ∃ n, fuel = n + 1 := ⟨fuel - 1, by simp at enough; omega⟩
      obtain ⟨here, nonzero, tail⟩ := CString.cons_iff.mp string
      rw [List.length_cons] at enough
      rw [cString, here, if_neg nonzero, ih tail (by omega)]
      rfl

/-- There is one text at an address. -/
theorem CString.unique {mem : Bytes} {address : UInt32} {left right : List UInt8}
    (string : CString mem address left) (other : CString mem address right) : left = right :=
  Option.some.inj ((string.cString_eq string.length_lt).symm.trans
    (other.cString_eq other.length_lt))

/-- A text ends at the first zero byte, no later than at any other. -/
theorem CString.length_le {mem : Bytes} {address zero : UInt32} {text : List UInt8}
    (string : CString mem address text) (ends : mem zero = 0) :
    text.length ≤ (zero - address).toNat := by
  by_contra longer
  have inside : (zero - address).toNat < text.length := by omega
  have place : address + UInt32.ofNat (zero - address).toNat = zero := by
    rw [UInt32.ofNat_toNat]
    grind
  have byte := string.at_index inside
  rw [place, ends] at byte
  exact string.noNul (byte ▸ List.getElem_mem inside)

/-- A log line is printed where memory holds a zero byte. -/
theorem logf_run {zero : UInt32} (ends : s.mem zero = 0) (format : String)
    (arguments : List Argument) :
    ∃ serial, logf format arguments s = .ok () (s.withSerial serial) := by
  have fetched : ∀ argument, ∃ value, Argument.fetch s.mem argument = some value := by
    rintro (address | value)
    · have enough : (zero - address).toNat < loopBound := by
        have wide := (zero - address).toNat_lt
        unfold loopBound
        omega
      obtain ⟨text, found⟩ := Option.isSome_iff_exists.mp (cString_isSome ends enough)
      exact ⟨.str text, by rw [Argument.fetch, found]; rfl⟩
    · exact ⟨.number value, rfl⟩
  have all : ∃ printed, arguments.mapM (Argument.fetch s.mem) = some printed := by
    induction arguments with
    | nil => exact ⟨[], rfl⟩
    | cons argument rest ih =>
        obtain ⟨value, first⟩ := fetched argument
        obtain ⟨printed, others⟩ := ih
        exact ⟨value :: printed, by simp [List.mapM_cons, first, others]⟩
  obtain ⟨printed, all⟩ := all
  exact ⟨s.serial ++ [⟨format, printed⟩], by simp only [logf, all]⟩

/-- Lines printed before make no difference. -/
theorem logf_again {zero : UInt32} (ends : s.mem zero = 0) (serial : List LogLine)
    (format : String) (arguments : List Argument) :
    ∃ serial', logf format arguments (s.withSerial serial) = .ok () (s.withSerial serial') := by
  have printed : (s.withSerial serial).mem zero = 0 := ends
  exact logf_run printed format arguments

/-- A log line without strings is always printed. -/
theorem logf_numbers (format : String) (values : List UInt32) :
    logf format (values.map .number) s =
      .ok () (s.withSerial (s.serial ++ [⟨format, values.map .number⟩])) := by
  have all : (values.map Argument.number).mapM (Argument.fetch s.mem) =
      some (values.map LogArgument.number) := by
    induction values with
    | nil => rfl
    | cons value rest ih => simp [List.mapM_cons, Argument.fetch, ih]
  simp only [logf, all]

end Copies

end TorchOS.Lib
