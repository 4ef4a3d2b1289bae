import TorchOS.Logger.Printing

/-!
# Formats

`logf` sends a format to the serial port byte by byte. A `%` is dropped, and the byte
after it either is a directive, which consumes an argument, or is read again as if no
`%` had been there.
-/

namespace TorchOS.Logger

open Base Base.Program Lib

/-! ## `logf` -/

/-- A read of the format. -/
def fetch (format : UInt32) : Logging UInt8 := do
  watch fun _ => [.fetched format]
  unwatched (getByte format)

/-- `va_arg`: the word the argument list is at. -/
def vaArg (parameters : UInt32) : Logging UInt32 := unwatched (getWord parameters)

/-- What `logf` does behind a `%`: where its format and its argument list go on. The
local array of `print_serial_unsigned_decimal` is at `digits`. -/
def logfDirective (digits format parameters : UInt32) : Logging (UInt32 × UInt32) := do
  if (← fetch format) = 's'.toUInt8 then
    let str ← vaArg parameters
    let _ ← unwatched (strlen str)
    printSerial str
    pure (format + 1, parameters + 4)
  else if (← fetch format) = 'c'.toUInt8 then
    let c ← vaArg parameters
    putSerial c.toUInt8
    pure (format + 1, parameters + 4)
  else if (← fetch format) = 'x'.toUInt8 then
    let num ← vaArg parameters
    putSerial '0'.toUInt8
    putSerial 'x'.toUInt8
    printSerialHex num
    pure (format + 1, parameters + 4)
  else if (← fetch format) = 'u'.toUInt8 then
    let num ← vaArg parameters
    printSerialUnsignedDecimal digits num
    pure (format + 1, parameters + 4)
  else
    pure (format, parameters)

/-- The loop of `logf`. -/
def logfLoop (digits : UInt32) : Nat → UInt32 → UInt32 → Logging (UInt32 × UInt32)
  | 0, _, _ => halt .endless
  | fuel + 1, format, parameters => do
      if (← fetch format) ≠ 0 then
        if (← fetch format) ≠ '%'.toUInt8 then
          putSerial (← fetch format)
          logfLoop digits fuel (format + 1) parameters
        else
          let next ← logfDirective digits (format + 1) parameters
          logfLoop digits fuel next.1 next.2
      else
        pure (format, parameters)

/-- `logf`: where it leaves its format and its argument list. -/
def logf (digits format parameters : UInt32) : Logging (UInt32 × UInt32) :=
  logfLoop digits loopBound format parameters

/-! ## What a format says -/

/-- A directive of a format. -/
inductive Directive where
  | string
  | character
  | hexadecimal
  | decimal
  deriving DecidableEq

/-- The directive that a byte behind a `%` stands for. -/
def Directive.ofByte (byte : UInt8) : Option Directive :=
  if byte = 's'.toUInt8 then some .string
  else if byte = 'c'.toUInt8 then some .character
  else if byte = 'x'.toUInt8 then some .hexadecimal
  else if byte = 'u'.toUInt8 then some .decimal
  else none

/-- A part of a format: a byte to send, or a directive. -/
inductive Item where
  | byte (value : UInt8)
  | directive (kind : Directive)
  deriving DecidableEq

/-- The parts of a format, behind a `%` or not. -/
def items (percent : Bool) : List UInt8 → List Item
  | [] => []
  | c :: rest =>
      match percent, Directive.ofByte c with
      | true, some kind => .directive kind :: items false rest
      | _, _ => if c = '%'.toUInt8 then items true rest else .byte c :: items false rest

/-- The directives among the parts. -/
def kinds (parts : List Item) : List Directive :=
  parts.filterMap fun
    | .byte _ => none
    | .directive kind => some kind

/-- The directives of a format, in order. -/
def directives (text : List UInt8) : List Directive := kinds (items false text)

/-- An argument. -/
inductive Value where
  | str (text : List UInt8)
  | char (value : UInt8)
  | number (value : UInt32)
  deriving DecidableEq

/-- The kind of argument a directive takes. -/
def Directive.Takes : Directive → Value → Prop
  | .string, .str _ => True
  | .character, .char _ => True
  | .hexadecimal, .number _ => True
  | .decimal, .number _ => True
  | _, _ => False

/-- What a directive prints for its argument. -/
def Directive.prints : Directive → Value → List UInt8
  | .string, .str text => text
  | .character, .char value => [value]
  | .hexadecimal, .number value => '0'.toUInt8 :: 'x'.toUInt8 :: Numeral.hex 8 value.toNat
  | .decimal, .number value => Numeral.decimal value.toNat
  | _, _ => []

/-- What the parts of a format print, each directive with the next argument. -/
def render : List Item → List Value → List UInt8
  | [], _ => []
  | .byte c :: rest, arguments => c :: render rest arguments
  | .directive kind :: rest, value :: arguments => kind.prints value ++ render rest arguments
  | .directive _ :: _, [] => []

/-! ## The scan of a format -/

section Items

variable {c : UInt8} {rest : List UInt8} {kind : Directive}

theorem items_percent : items false ('%'.toUInt8 :: rest) = items true rest := rfl

theorem items_byte (plain : c ≠ '%'.toUInt8) :
    items false (c :: rest) = .byte c :: items false rest :=
  if_neg plain

theorem items_directive (recognised : Directive.ofByte c = some kind) :
    items true (c :: rest) = .directive kind :: items false rest := by
  simp only [items, recognised]

/-- A byte that is no directive is read as if no `%` had been there. -/
theorem items_other (unknown : Directive.ofByte c = none) :
    items true (c :: rest) = items false (c :: rest) := by
  simp only [items, unknown]

/-- Parts of a format that does not end in a `%` come before those of what follows. -/
theorem items_append {f g : List UInt8} (closed : f.getLast? ≠ some '%'.toUInt8) {percent : Bool}
    (started : percent = false ∨ f ≠ []) :
    items percent (f ++ g) = items percent f ++ items false g := by
  induction f generalizing percent with
  | nil =>
      have fresh : percent = false := started.elim id fun nonempty => absurd rfl nonempty
      rw [fresh]
      rfl
  | cons c rest ih =>
      have later : ∀ percent, (percent = false ∨ rest ≠ []) →
          items percent (rest ++ g) = items percent rest ++ items false g := by
        intro percent started
        refine ih (fun last => closed ?_) started
        rw [List.getLast?_cons, last]
        rfl
      have fresh := later false (.inl rfl)
      have pending : c = '%'.toUInt8 → items true (rest ++ g) = items true rest ++ items false g := by
        intro isPercent
        refine later true (.inr fun empty => closed ?_)
        rw [isPercent, empty]
        rfl
      have scan : (if c = '%'.toUInt8 then items true (rest ++ g)
          else .byte c :: items false (rest ++ g)) =
          (if c = '%'.toUInt8 then items true rest else .byte c :: items false rest) ++
            items false g := by
        split
        next isPercent => exact pending isPercent
        next _ => rw [fresh, List.cons_append]
      cases percent with
      | false => exact scan
      | true =>
          cases found : Directive.ofByte c with
          | some kind => rw [List.cons_append, items_directive found, items_directive found, fresh,
              List.cons_append]
          | none => rw [List.cons_append, items_other found, items_other found]; exact scan

/-- A format without a `%` is bytes only. -/
theorem items_plain {text : List UInt8} (plain : '%'.toUInt8 ∉ text) :
    items false text = text.map .byte := by
  induction text with
  | nil => rfl
  | cons c rest ih =>
      rw [List.mem_cons, not_or] at plain
      rw [items_byte (Ne.symm plain.1), ih plain.2]
      rfl

theorem render_bytes (text : List UInt8) (values : List Value) :
    render (text.map .byte) values = text := by
  induction text with
  | nil => rfl
  | cons c rest ih => exact congrArg (c :: ·) ih

/-- Parts that have used up their arguments leave the others to the rest. -/
theorem render_append {parts later : List Item} {values others : List Value}
    (fits : List.Forall₂ Directive.Takes (kinds parts) values) :
    render (parts ++ later) (values ++ others) = render parts values ++ render later others := by
  induction parts generalizing values with
  | nil =>
      cases fits
      rfl
  | cons part rest ih =>
      cases part with
      | byte c => exact congrArg (c :: ·) (ih fits)
      | directive kind =>
          cases fits with
          | cons takes fits' =>
              rw [List.cons_append, List.cons_append, render, render, ih fits', List.append_assoc]

end Items

/-- What an argument word stands for. -/
def Value.Denotes (mem : Bytes) (digits word : UInt32) : Value → Prop
  | .str text => CString mem word text ∧ Disjoint (Span word (text.length + 1)) (Span digits 25)
  | .char value => word.toUInt8 = value
  | .number value => word = value

/-- The words of an argument list stand for its values, apart from the local array. -/
def Passes (mem : Bytes) (digits parameters : UInt32) : List Value → Prop
  | [] => True
  | value :: rest => Disjoint (Span parameters 4) (Span digits 25) ∧
      value.Denotes mem digits (mem.load32 parameters) ∧ Passes mem digits (parameters + 4) rest

theorem Value.Denotes.congr {mem mem' : Bytes} {digits word : UInt32} {value : Value}
    (same : ∀ address ∉ Span digits 25, mem' address = mem address)
    (denotes : value.Denotes mem digits word) : value.Denotes mem' digits word := by
  cases value with
  | str text =>
      exact ⟨denotes.1.congr fun address member =>
        same address (Set.disjoint_left.mp denotes.2 member), denotes.2⟩
  | char value => exact denotes
  | number value => exact denotes

theorem Passes.congr {mem mem' : Bytes} {digits parameters : UInt32} {values : List Value}
    (same : ∀ address ∉ Span digits 25, mem' address = mem address)
    (passes : Passes mem digits parameters values) : Passes mem' digits parameters values := by
  induction values generalizing parameters with
  | nil => trivial
  | cons value rest ih =>
      obtain ⟨apart, denotes, later⟩ := passes
      have word : mem'.load32 parameters = mem.load32 parameters :=
        Bytes.load32_congr fun address member =>
          same address (Set.disjoint_left.mp apart member)
      exact ⟨apart, word ▸ denotes.congr same, ih later⟩

/-! ## One step of the scan -/

/-- Logging that sends some bytes, reads the format in some places, and stores in the
local array only. -/
structure Prints (digits : UInt32) (reads : Set UInt32) (bytes : List UInt8)
    (w after : Watched Machine SerialEvent) : Prop where
  kept : ∀ address ∉ Span digits 25, after.state.mem address = w.state.mem address
  traced : ∃ events, after.trace = w.trace ++ events ∧ sentBytes events = bytes ∧
    ∀ address, .fetched address ∈ events → address ∈ reads

theorem sentBytes_append (events later : List SerialEvent) :
    sentBytes (events ++ later) = sentBytes events ++ sentBytes later :=
  List.filterMap_append

theorem sentBytes_sent (text : List UInt8) : sentBytes (text.map .sent) = text := by
  rw [sentBytes, List.filterMap_map]
  exact List.filterMap_some

section Steps

variable {w middle after : Watched Machine SerialEvent} {digits format parameters : UInt32}
  {reads more : Set UInt32} {bytes later : List UInt8} {c : UInt8} {kind : Directive}
  {value : Value}

theorem Prints.trans (first : Prints digits reads bytes w middle)
    (second : Prints digits reads later middle after) :
    Prints digits reads (bytes ++ later) w after := by
  obtain ⟨events, trace, sent, fetched⟩ := first.traced
  obtain ⟨events', trace', sent', fetched'⟩ := second.traced
  refine ⟨fun address outside => (second.kept address outside).trans (first.kept address outside),
    events ++ events', ?_, ?_, fun address member => ?_⟩
  · rw [trace', trace, List.append_assoc]
  · rw [sentBytes_append, sent, sent']
  · exact (List.mem_append.mp member).elim (fetched address) (fetched' address)

theorem Prints.mono (prints : Prints digits reads bytes w after) (subset : reads ⊆ more) :
    Prints digits more bytes w after := by
  obtain ⟨events, trace, sent, fetched⟩ := prints.traced
  exact ⟨prints.kept, events, trace, sent, fun address member => subset (fetched address member)⟩

/-- Doing nothing. -/
theorem Prints.nothing : Prints digits reads [] w w :=
  ⟨fun _ _ => rfl, [], (List.append_nil _).symm, rfl, fun _ member => absurd member List.not_mem_nil⟩

/-- Sending a text. -/
theorem prints_text (text : List UInt8) :
    Prints digits reads text w ⟨w.state, w.trace ++ text.map .sent⟩ := by
  refine ⟨fun _ _ => rfl, text.map .sent, rfl, sentBytes_sent text, fun address member => ?_⟩
  obtain ⟨_, _, same⟩ := List.mem_map.mp member
  cases same

/-- The format has been looked at. -/
def looked (w : Watched Machine SerialEvent) (format : UInt32) : Watched Machine SerialEvent :=
  ⟨w.state, w.trace ++ [.fetched format]⟩

theorem fetch_run (here : w.state.mem format = c) : fetch format w = .ok c (looked w format) := by
  rw [← here]
  rfl

/-- Looking at the format sends nothing. -/
theorem Prints.look (prints : Prints digits reads bytes (looked w format) after)
    (inside : format ∈ reads) : Prints digits reads bytes w after := by
  have first : Prints digits reads [] w (looked w format) := by
    refine ⟨fun _ _ => rfl, [.fetched format], rfl, rfl, fun address member => ?_⟩
    cases List.mem_singleton.mp member
    exact inside
  exact first.trans prints

theorem vaArg_run (parameters : UInt32) (w : Watched Machine SerialEvent) :
    vaArg parameters w = .ok (w.state.mem.load32 parameters) w := rfl

/-! ### The four directives -/

theorem printString {text : List UInt8}
    (denotes : (Value.str text).Denotes w.state.mem digits (w.state.mem.load32 parameters)) :
    ∃ after, (do
        let str ← vaArg parameters
        let _ ← unwatched (strlen str)
        printSerial str
        pure (format + 1, parameters + 4)) w = .ok (format + 1, parameters + 4) after ∧
      Prints digits reads text w after := by
  refine ⟨_, ?_, prints_text text⟩
  rw [bind_of_ok (vaArg_run parameters w), bind_of_ok (unwatched_ok (strlen_run denotes.1)),
    bind_of_ok (printSerial_run denotes.1)]
  rfl

theorem printCharacter {byte : UInt8}
    (denotes : (Value.char byte).Denotes w.state.mem digits (w.state.mem.load32 parameters)) :
    ∃ after, (do
        let c ← vaArg parameters
        putSerial c.toUInt8
        pure (format + 1, parameters + 4)) w = .ok (format + 1, parameters + 4) after ∧
      Prints digits reads [byte] w after := by
  refine ⟨_, ?_, prints_text [byte]⟩
  have same : (w.state.mem.load32 parameters).toUInt8 = byte := denotes
  rw [bind_of_ok (vaArg_run parameters w), bind_of_ok (putSerial_run _), same]
  rfl

theorem printHexadecimal {n : UInt32}
    (denotes : (Value.number n).Denotes w.state.mem digits (w.state.mem.load32 parameters)) :
    ∃ after, (do
        let num ← vaArg parameters
        putSerial '0'.toUInt8
        putSerial 'x'.toUInt8
        printSerialHex num
        pure (format + 1, parameters + 4)) w = .ok (format + 1, parameters + 4) after ∧
      Prints digits reads ('0'.toUInt8 :: 'x'.toUInt8 :: Numeral.hex 8 n.toNat) w after := by
  refine ⟨_, ?_, prints_text _⟩
  have same : w.state.mem.load32 parameters = n := denotes
  rw [bind_of_ok (vaArg_run parameters w), bind_of_ok (putSerial_run _),
    bind_of_ok (putSerial_run _), bind_of_ok (printSerialHex_run _), same, pure_run]
  simp

theorem printDecimal {n : UInt32}
    (denotes : (Value.number n).Denotes w.state.mem digits (w.state.mem.load32 parameters)) :
    ∃ after, (do
        let num ← vaArg parameters
        printSerialUnsignedDecimal digits num
        pure (format + 1, parameters + 4)) w = .ok (format + 1, parameters + 4) after ∧
      Prints digits reads (Numeral.decimal n.toNat) w after := by
  have same : w.state.mem.load32 parameters = n := denotes
  obtain ⟨mem, run, kept⟩ := printSerialUnsignedDecimal_run digits n w
  have text : Prints digits reads (Numeral.decimal n.toNat) w
      ⟨w.state, w.trace ++ (Numeral.decimal n.toNat).map .sent⟩ := prints_text _
  refine ⟨⟨w.state.withMem mem, w.trace ++ (Numeral.decimal n.toNat).map .sent⟩, ?_, kept,
    text.traced⟩
  rw [bind_of_ok (vaArg_run parameters w), same, bind_of_ok run]
  rfl

/-- Behind a `%`, a directive prints its argument. -/
theorem logfDirective_takes (here : w.state.mem format = c)
    (recognised : Directive.ofByte c = some kind) (takes : kind.Takes value)
    (denotes : value.Denotes w.state.mem digits (w.state.mem.load32 parameters)) :
    ∃ after, logfDirective digits format parameters w = .ok (format + 1, parameters + 4) after ∧
      Prints digits {format} (kind.prints value) w after := by
  have own : format ∈ ({format} : Set UInt32) := rfl
  have look : ∀ w' : Watched Machine SerialEvent, w'.state = w.state →
      fetch format w' = .ok c (looked w' format) := fun w' same => fetch_run (same ▸ here)
  unfold Directive.ofByte at recognised
  unfold logfDirective
  rw [bind_of_ok (look w rfl)]
  split at recognised
  next isS =>
    cases recognised
    cases value with
    | str text =>
        obtain ⟨after, run, prints⟩ := printString (w := looked w format) denotes
        rw [if_pos isS]
        exact ⟨after, run, prints.look own⟩
    | char _ => exact takes.elim
    | number _ => exact takes.elim
  next notS =>
    rw [if_neg notS, bind_of_ok (look (looked w format) rfl)]
    split at recognised
    next isC =>
      cases recognised
      cases value with
      | str _ => exact takes.elim
      | char byte =>
          obtain ⟨after, run, prints⟩ := printCharacter (w := looked (looked w format) format)
            denotes
          rw [if_pos isC]
          exact ⟨after, run, (prints.look own).look own⟩
      | number _ => exact takes.elim
    next notC =>
      rw [if_neg notC, bind_of_ok (look (looked (looked w format) format) rfl)]
      split at recognised
      next isX =>
        cases recognised
        cases value with
        | str _ => exact takes.elim
        | char _ => exact takes.elim
        | number n =>
            obtain ⟨after, run, prints⟩ := printHexadecimal
              (w := looked (looked (looked w format) format) format) denotes
            rw [if_pos isX]
            exact ⟨after, run, ((prints.look own).look own).look own⟩
      next notX =>
        rw [if_neg notX, bind_of_ok (look (looked (looked (looked w format) format) format) rfl)]
        split at recognised
        next isU =>
          cases recognised
          cases value with
          | str _ => exact takes.elim
          | char _ => exact takes.elim
          | number n =>
              obtain ⟨after, run, prints⟩ := printDecimal
                (w := looked (looked (looked (looked w format) format) format) format) denotes
              rw [if_pos isU]
              exact ⟨after, run, (((prints.look own).look own).look own).look own⟩
        next notU => cases recognised

/-- Behind a `%`, any other byte is left to the next round. -/
theorem logfDirective_skips (here : w.state.mem format = c)
    (unknown : Directive.ofByte c = none) :
    ∃ after, logfDirective digits format parameters w = .ok (format, parameters) after ∧
      Prints digits {format} [] w after := by
  have own : format ∈ ({format} : Set UInt32) := rfl
  have look : ∀ w' : Watched Machine SerialEvent, w'.state = w.state →
      fetch format w' = .ok c (looked w' format) := fun w' same => fetch_run (same ▸ here)
  have notS : c ≠ 's'.toUInt8 := by
    rintro rfl
    cases unknown
  have notC : c ≠ 'c'.toUInt8 := by
    rintro rfl
    cases unknown
  have notX : c ≠ 'x'.toUInt8 := by
    rintro rfl
    cases unknown
  have notU : c ≠ 'u'.toUInt8 := by
    rintro rfl
    cases unknown
  refine ⟨looked (looked (looked (looked w format) format) format) format, ?_,
    (((Prints.nothing.look own).look own).look own).look own⟩
  rw [logfDirective, bind_of_ok (look w rfl), if_neg notS, bind_of_ok (look (looked w format) rfl),
    if_neg notC, bind_of_ok (look (looked (looked w format) format) rfl), if_neg notX,
    bind_of_ok (look (looked (looked (looked w format) format) format) rfl), if_neg notU]
  rfl

/-! ## The whole scan -/

/-- What stays true of the rest of a call while it prints. -/
theorem Prints.keeps {text : List UInt8} {values : List Value}
    (prints : Prints digits reads bytes w after)
    (apart : Disjoint (Span format (text.length + 1)) (Span digits 25))
    (string : CString w.state.mem format text)
    (passes : Passes w.state.mem digits parameters values) :
    CString after.state.mem format text ∧ Passes after.state.mem digits parameters values :=
  ⟨string.congr fun address member => prints.kept address (Set.disjoint_left.mp apart member),
    passes.congr prints.kept⟩

theorem span_tail (format : UInt32) (length : Nat) :
    Span (format + 1) length ⊆ Span format (length + 1) :=
  Span.shift_subset (by
    change 1 + length ≤ length + 1
    omega)

theorem format_next (format : UInt32) (length : Nat) :
    format + 1 + UInt32.ofNat length = format + UInt32.ofNat (length + 1) := by
  rw [UInt32.ofNat_add, UInt32.add_assoc, UInt32.add_comm 1]
  rfl

theorem parameters_next (parameters : UInt32) (count : Nat) :
    parameters + 4 + 4 * UInt32.ofNat count = parameters + 4 * UInt32.ofNat (count + 1) := by
  have one : UInt32.ofNat 1 = 1 := rfl
  rw [UInt32.ofNat_add, one]
  grind

/-- A round at a byte that is no `%` sends it. -/
theorem logfLoop_byte {fuel : Nat} (here : w.state.mem format = c) (nonzero : c ≠ 0)
    (plain : c ≠ '%'.toUInt8) : ∃ after,
    logfLoop digits (fuel + 1) format parameters w =
        logfLoop digits fuel (format + 1) parameters after ∧
      after.state = w.state ∧ Prints digits {format} [c] w after := by
  have own : format ∈ ({format} : Set UInt32) := rfl
  have first : fetch format w = .ok c (looked w format) := fetch_run here
  have second : fetch format (looked w format) = .ok c (looked (looked w format) format) :=
    fetch_run here
  have third : fetch format (looked (looked w format) format) =
      .ok c (looked (looked (looked w format) format) format) := fetch_run here
  refine ⟨⟨w.state, (looked (looked (looked w format) format) format).trace ++ [.sent c]⟩, ?_,
    rfl, (((prints_text [c]).look own).look own).look own⟩
  rw [logfLoop, bind_of_ok first, if_pos nonzero, bind_of_ok second, if_pos plain,
    bind_of_ok third, bind_of_ok (putSerial_run c)]
  rfl

/-- A round at a `%` goes on where `logfDirective` leaves the format. -/
theorem logfLoop_percent {fuel : Nat} {next : UInt32 × UInt32}
    (here : w.state.mem format = '%'.toUInt8)
    (directive : logfDirective digits (format + 1) parameters (looked (looked w format) format) =
      .ok next middle) :
    logfLoop digits (fuel + 1) format parameters w = logfLoop digits fuel next.1 next.2 middle := by
  have first : fetch format w = .ok '%'.toUInt8 (looked w format) := fetch_run here
  have second : fetch format (looked w format) =
      .ok '%'.toUInt8 (looked (looked w format) format) := fetch_run here
  rw [logfLoop, bind_of_ok first, if_pos (by decide), bind_of_ok second, if_neg (by decide),
    bind_of_ok directive]

/-- The loop of `logf` prints a format with its arguments, and ends at its terminator. -/
theorem logfLoop_run {fuel : Nat} {text : List UInt8} {values : List Value}
    (string : CString w.state.mem format text)
    (apart : Disjoint (Span format (text.length + 1)) (Span digits 25))
    (fits : List.Forall₂ Directive.Takes (directives text) values)
    (passes : Passes w.state.mem digits parameters values) (enough : text.length < fuel) :
    ∃ after, logfLoop digits fuel format parameters w =
        .ok (format + UInt32.ofNat text.length, parameters + 4 * UInt32.ofNat values.length) after ∧
      Prints digits (Span format (text.length + 1)) (render (items false text) values) w after := by
  induction fuel generalizing text values format parameters w with
  | zero => omega
  | succ fuel ih =>
      have own : format ∈ Span format (text.length + 1) := Span.start_mem (Nat.succ_pos _)
      cases text with
      | nil =>
          have zero := CString.nil_iff.mp string
          cases fits
          refine ⟨looked w format, ?_, Prints.nothing.look own⟩
          rw [logfLoop, bind_of_ok (fetch_run zero), if_neg (by decide)]
          simp
      | cons c rest =>
          obtain ⟨here, nonzero, tail⟩ := CString.cons_iff.mp string
          have apartTail : Disjoint (Span (format + 1) (rest.length + 1)) (Span digits 25) :=
            apart.mono_left (span_tail format _)
          rw [List.length_cons] at enough
          by_cases percent : c = '%'.toUInt8
          · subst percent
            have scanned : items false ('%'.toUInt8 :: rest) = items true rest := items_percent
            have behind : ({format + 1} : Set UInt32) ⊆ Span format (rest.length + 1 + 1) := by
              intro address same
              rw [Set.mem_singleton_iff.mp same]
              exact Span.add_ofNat_mem (by omega : 1 < rest.length + 1 + 1)
            cases found : Directive.ofByte (w.state.mem (format + 1)) with
            | none =>
                -- No directive: the byte behind the `%` starts the next round.
                have again : items true rest = items false rest := by
                  cases rest with
                  | nil => rfl
                  | cons d later =>
                      rw [(CString.cons_iff.mp tail).1] at found
                      exact items_other found
                have sameKinds : directives ('%'.toUInt8 :: rest) = directives rest := by
                  rw [directives, scanned, again]
                  rfl
                rw [sameKinds] at fits
                obtain ⟨middle, skips, silent⟩ := @logfDirective_skips
                  (looked (looked w format) format) digits (format + 1) parameters _ rfl found
                obtain ⟨tail', passes'⟩ := silent.keeps apartTail tail passes
                obtain ⟨after, run, prints⟩ := @ih middle (format + 1) parameters rest values
                  tail' apartTail fits passes' (by omega)
                rw [format_next] at run
                refine ⟨after, (logfLoop_percent here skips).trans run, ?_⟩
                rw [scanned, again]
                exact (((silent.mono behind).trans
                  (prints.mono (span_tail format _))).look own).look own
            | some kind =>
                cases rest with
                | nil =>
                    rw [CString.nil_iff.mp tail] at found
                    cases found
                | cons d later =>
                    obtain ⟨here', _, tail'⟩ := CString.cons_iff.mp tail
                    rw [here'] at found
                    have parts := scanned.trans (items_directive found)
                    have kinds : directives ('%'.toUInt8 :: d :: later) =
                        kind :: directives later := by
                      rw [directives, parts]
                      rfl
                    rw [kinds] at fits
                    cases fits with
                    | cons takes fits' =>
                        rename_i value others
                        obtain ⟨wordApart, denotes, passes'⟩ := passes
                        have apartLater : Disjoint (Span (format + 1 + 1) (later.length + 1))
                            (Span digits 25) := apartTail.mono_left (span_tail _ _)
                        obtain ⟨middle, ran, printed⟩ := @logfDirective_takes
                          (looked (looked w format) format) digits (format + 1) parameters d kind
                          value here' found takes denotes
                        obtain ⟨string', passes''⟩ := printed.keeps apartLater tail' passes'
                        rw [List.length_cons] at enough
                        obtain ⟨after, run, prints⟩ := @ih middle (format + 1 + 1) (parameters + 4)
                          later others string' apartLater fits' passes'' (by omega)
                        rw [format_next, format_next, parameters_next] at run
                        refine ⟨after, (logfLoop_percent here ran).trans run, ?_⟩
                        rw [parts]
                        exact (((printed.mono behind).trans (prints.mono
                          ((span_tail _ _).trans (span_tail format _)))).look own).look own
          · have plain : items false (c :: rest) = .byte c :: items false rest := items_byte percent
            have sameKinds : directives (c :: rest) = directives rest := by
              rw [directives, plain]
              rfl
            rw [sameKinds] at fits
            obtain ⟨middle, round, same, sent⟩ :=
              @logfLoop_byte w digits format parameters c fuel here nonzero percent
            obtain ⟨after, run, prints⟩ := @ih middle (format + 1) parameters rest values
              (same ▸ tail) apartTail fits (same ▸ passes) (by omega)
            rw [format_next] at run
            refine ⟨after, round.trans run, ?_⟩
            rw [plain]
            exact (sent.mono (Set.singleton_subset_iff.mpr own)).trans
              (prints.mono (span_tail format _))

end Steps

/-! ## Log lines

The line logger of the other modules records the arguments of a call instead of sending
bytes. The bytes sent are those that its lines stand for. -/

/-- The value that a recorded argument has under a directive. -/
def Directive.value : Directive → LogArgument → Value
  | .character, .number word => .char word.toUInt8
  | _, .number word => .number word
  | _, .str text => .str text

/-- The bytes that a line stands for, its format being `text`. -/
def lineBytes (text : List UInt8) (line : LogLine) : List UInt8 :=
  render (items false text) (List.zipWith Directive.value (directives text) line.arguments)

/-- The words of an argument list, as the line logger takes them. -/
def lineArguments (mem : Bytes) : UInt32 → List Value → List Argument
  | _, [] => []
  | parameters, .str _ :: rest =>
      .str (mem.load32 parameters) :: lineArguments mem (parameters + 4) rest
  | parameters, _ :: rest =>
      .number (mem.load32 parameters) :: lineArguments mem (parameters + 4) rest

/-- The line logger records each value. -/
theorem lineArguments_fetch {mem : Bytes} {digits parameters : UInt32} {kinds : List Directive}
    {values : List Value} (fits : List.Forall₂ Directive.Takes kinds values)
    (passes : Passes mem digits parameters values) :
    ∃ printed, (lineArguments mem parameters values).mapM (Argument.fetch mem) = some printed ∧
      List.zipWith Directive.value kinds printed = values := by
  induction fits generalizing parameters with
  | nil => exact ⟨[], rfl, rfl⟩
  | @cons kind value kinds rest takes fits ih =>
      obtain ⟨_, denotes, later⟩ := passes
      obtain ⟨printed, fetched, same⟩ := ih later
      cases value with
      | str text =>
          have found := denotes.1.cString_eq
            (by have := denotes.1.length_lt; unfold loopBound; omega : text.length < loopBound)
          refine ⟨.str text :: printed, ?_, ?_⟩
          · simp [lineArguments, List.mapM_cons, Argument.fetch, found, fetched]
          · rw [List.zipWith_cons_cons, same]
            cases kind with
            | string => rfl
            | character => exact takes.elim
            | hexadecimal => exact takes.elim
            | decimal => exact takes.elim
      | char byte =>
          refine ⟨.number (mem.load32 parameters) :: printed, ?_, ?_⟩
          · simp [lineArguments, List.mapM_cons, Argument.fetch, fetched]
          · cases kind with
            | character =>
                have low : (mem.load32 parameters).toUInt8 = byte := denotes
                rw [List.zipWith_cons_cons, same, Directive.value, low]
            | string => exact takes.elim
            | hexadecimal => exact takes.elim
            | decimal => exact takes.elim
      | number n =>
          have word : mem.load32 parameters = n := denotes
          refine ⟨.number n :: printed, ?_, ?_⟩
          · simp [lineArguments, List.mapM_cons, Argument.fetch, fetched, word]
          · rw [List.zipWith_cons_cons, same]
            cases kind with
            | string => exact takes.elim
            | character => exact takes.elim
            | hexadecimal => rfl
            | decimal => rfl

/-! ## Calls -/

/-- A call of `logf`: memory holds a format, and a word for each of its directives that
stands for a value of the right kind, all apart from the local array at `digits`. -/
structure Call where
  machine : Machine
  digits : UInt32
  format : UInt32
  parameters : UInt32
  text : List UInt8
  values : List Value
  stored : CString machine.mem format text
  apart : Disjoint (Span format (text.length + 1)) (Span digits 25)
  fits : List.Forall₂ Directive.Takes (directives text) values
  passed : Passes machine.mem digits parameters values

namespace Call

variable (call : Call)

/-- How the call ends. -/
def result : EStateM.Result Halt (Watched Machine SerialEvent) (UInt32 × UInt32) :=
  logf call.digits call.format call.parameters ⟨call.machine, []⟩

/-- The bytes it sends. -/
def sent : List UInt8 := sentBytes (final call.result).trace

/-- The run of a call. -/
theorem runs : ∃ after, call.result =
      .ok (call.format + UInt32.ofNat call.text.length,
        call.parameters + 4 * UInt32.ofNat call.values.length) after ∧
    Prints call.digits (Span call.format (call.text.length + 1))
      (render (items false call.text) call.values) ⟨call.machine, []⟩ after := by
  have short := call.stored.length_lt
  exact @logfLoop_run ⟨call.machine, []⟩ call.digits call.format call.parameters loopBound
    call.text call.values call.stored call.apart call.fits call.passed (by unfold loopBound; omega)

theorem sent_eq : call.sent = render (items false call.text) call.values := by
  obtain ⟨after, run, prints⟩ := call.runs
  obtain ⟨events, trace, bytes, _⟩ := prints.traced
  rw [sent, run, final_ok, trace, List.nil_append, bytes]

/-- The line logger returns for this call, and its line stands for the bytes sent. -/
theorem sent_line (format : String) : ∃ line,
    Lib.logf format (lineArguments call.machine.mem call.parameters call.values) call.machine =
        .ok () (call.machine.withSerial (call.machine.serial ++ [line])) ∧
      call.sent = lineBytes call.text line := by
  obtain ⟨printed, fetched, same⟩ := lineArguments_fetch call.fits call.passed
  refine ⟨⟨format, printed⟩, ?_, ?_⟩
  · rw [Lib.logf, fetched]
  · rw [call.sent_eq, lineBytes, same]

/-- How `logf` scans a format. -/
structure Scans : Prop where
  /-- It returns from the terminator, with one argument consumed for each directive. -/
  returns : ∃ after, call.result =
    .ok (call.format + UInt32.ofNat call.text.length,
      call.parameters + 4 * UInt32.ofNat (directives call.text).length) after
  /-- It reads the format up to the terminator only. -/
  reads : ∀ address, .fetched address ∈ (final call.result).trace →
    address ∈ Span call.format (call.text.length + 1)
  /-- Each directive prints the next argument. -/
  sends : call.sent = render (items false call.text) call.values
  /-- Text without a `%` is sent as it is. -/
  plain : '%'.toUInt8 ∉ call.text → call.sent = call.text
  /-- A format that goes on after one that does not end in a `%` is sent after it. -/
  appends : ∀ f g : Call, call.text = f.text ++ g.text → call.values = f.values ++ g.values →
    f.text.getLast? ≠ some '%'.toUInt8 → call.sent = f.sent ++ g.sent

/-- `logf` ends at its terminator, with one argument for each directive, and sends what
the parts of its format say, in order. -/
theorem logf_scans : call.Scans := by
  obtain ⟨after, run, prints⟩ := call.runs
  refine ⟨⟨after, ?_⟩, fun address member => ?_, call.sent_eq, fun plain => ?_,
    fun f g text values closed => ?_⟩
  · rw [call.fits.length_eq]
    exact run
  · obtain ⟨events, trace, _, fetched⟩ := prints.traced
    rw [run, final_ok, trace, List.nil_append] at member
    exact fetched address member
  · rw [call.sent_eq, items_plain plain, render_bytes]
  · rw [call.sent_eq, f.sent_eq, g.sent_eq, text, values, items_append closed (.inl rfl)]
    exact render_append f.fits

/-- Memory with the format `%%d%u` and the word 7. -/
def sampleMem : Bytes :=
  Bytes.store32 (Bytes.write (fun _ => 0) 0x1000
    ['%'.toUInt8, '%'.toUInt8, 'd'.toUInt8, '%'.toUInt8, 'u'.toUInt8, 0]) 0x2000 7

/-- A call with them: both the first `%` and the `d` take no argument. -/
def sample : Call where
  machine := Machine.boot sampleMem
  digits := 0x3000
  format := 0x1000
  parameters := 0x2000
  text := ['%'.toUInt8, '%'.toUInt8, 'd'.toUInt8, '%'.toUInt8, 'u'.toUInt8]
  values := [.number 7]
  stored := ⟨by decide, by decide⟩
  apart := Span.disjoint_of_le (by decide) (by decide)
  fits := .cons trivial .nil
  passed := by
    refine ⟨Span.disjoint_of_le (by decide) (by decide), ?_, trivial⟩
    exact Bytes.load32_store32 7

theorem logf_scans_sample : sample.sent = ['d'.toUInt8, '7'.toUInt8] := by
  rw [(logf_scans sample).sends]
  decide

end Call

end TorchOS.Logger
