import TorchOS.Lib.Memory
import TorchOS.Base.Watch

/-!
# `strncmp`

The loop of `strncmp` stops at a difference or after `n` bytes, and at nothing else. On
two strings that is what the C standard asks for as long as they differ or `n` does not
go past their terminators; equal strings are read on behind them.
-/

namespace TorchOS.Lib

open Base Base.Program

/-- A byte read through the first or through the second pointer. -/
inductive ByteRead where
  | first (address : UInt32)
  | second (address : UInt32)
  deriving DecidableEq

/-- Comparing code. -/
abbrev Comparing := Program Halt (Watched Machine ByteRead)

/-- The loop of `strncmp` with its reads. The bytes that differ are read once more. -/
def watchedStrncmpLoop : Nat → UInt32 → UInt32 → Comparing Int
  | 0, _, _ => pure 0
  | n + 1, s1, s2 => do
      watch fun _ => [.first s1, .second s2]
      let left ← unwatched (getByte s1)
      let right ← unwatched (getByte s2)
      if left ≠ right then
        watch fun _ => [.first s1, .second s2]
        pure ((left.toNat : Int) - right.toNat)
      else watchedStrncmpLoop n (s1 + 1) (s2 + 1)

/-- `strncmp` with its reads. -/
def watchedStrncmp (s1 s2 n : UInt32) : Comparing Int := watchedStrncmpLoop n.toNat s1 s2

theorem watchedStrncmpLoop_watches (n : Nat) (s1 s2 : UInt32) :
    Watches (watchedStrncmpLoop n s1 s2) (strncmpLoop n s1 s2) := by
  induction n generalizing s1 s2 with
  | zero => exact fun _ => rfl
  | succ n ih =>
      apply Watches.after_watch
      refine .bind (.unwatched _) fun left => .bind (.unwatched _) fun right => ?_
      split
      · exact .after_watch _ fun _ => rfl
      · exact ih _ _

theorem watchedStrncmp_watches (s1 s2 n : UInt32) :
    Watches (watchedStrncmp s1 s2 n) (strncmp s1 s2 n) :=
  watchedStrncmpLoop_watches _ _ _

theorem watchedStrncmpLoop_grows (n : Nat) (s1 s2 : UInt32) :
    Respects Grows (watchedStrncmpLoop n s1 s2) := by
  induction n generalizing s1 s2 with
  | zero => exact fun w => Grows.refl w
  | succ n ih =>
      refine .bind Grows.trans (watch_grows _) fun _ => .bind Grows.trans (unwatched_grows _)
        fun left => .bind Grows.trans (unwatched_grows _) fun right => ?_
      split
      · exact .bind Grows.trans (watch_grows _) fun _ w => Grows.refl w
      · exact ih _ _

/-! ## What the C standard asks for -/

/-- The result of comparing at most `n` characters, terminators included: zero exactly
when they agree, else of the sign of the first difference of unsigned characters. -/
structure Compares (left right : List UInt8) (n : Nat) (result : Int) : Prop where
  zero_iff : result = 0 ↔ left.take n = right.take n
  sign : ∀ {i l r}, i < n → left[i]? = some l → right[i]? = some r →
    left.take i = right.take i → l ≠ r → result.sign = ((l.toNat : Int) - r.toNat).sign

namespace Compares

variable {left right : List UInt8} {l r c : UInt8} {n : Nat} {result : Int}

theorem none : Compares left right 0 0 :=
  ⟨by simp, fun below => absurd below (Nat.not_lt_zero _)⟩

/-- A difference at the first character decides. -/
theorem differ (apart : l ≠ r) :
    Compares (l :: left) (r :: right) (n + 1) ((l.toNat : Int) - r.toNat) := by
  constructor
  · have nonzero : (l.toNat : Int) - r.toNat ≠ 0 := by
      intro zero
      exact apart (UInt8.toNat_inj.mp (by omega))
    simp [nonzero, apart]
  · intro i l' r' _ atLeft atRight agree _
    cases i with
    | zero =>
        cases atLeft
        cases atRight
        rfl
    | succ i =>
        rw [List.take_succ_cons, List.take_succ_cons] at agree
        exact absurd (List.cons_eq_cons.mp agree).1 apart

/-- Behind a common character the rests are compared. -/
theorem cons (compares : Compares left right n result) :
    Compares (c :: left) (c :: right) (n + 1) result := by
  constructor
  · rw [compares.zero_iff]
    simp
  · intro i l' r' below atLeft atRight agree different
    cases i with
    | zero =>
        cases atLeft
        cases atRight
        exact absurd rfl different
    | succ i =>
        rw [List.take_succ_cons, List.take_succ_cons] at agree
        exact compares.sign (Nat.lt_of_succ_lt_succ below) (by simpa using atLeft)
          (by simpa using atRight) (List.cons_eq_cons.mp agree).2 different

end Compares

/-! ## Two strings -/

/-- No byte behind a terminator is among the reads. -/
def ReadsInside (s1 s2 : UInt32) (first second : List UInt8) (reads : List ByteRead) : Prop :=
  (∀ address, .first address ∈ reads → address ∈ Span s1 (first.length + 1)) ∧
    ∀ address, .second address ∈ reads → address ∈ Span s2 (second.length + 1)

namespace ReadsInside

variable {s1 s2 : UInt32} {a b : UInt8} {first second : List UInt8} {reads more : List ByteRead}

theorem here : ReadsInside s1 s2 first second [.first s1, .second s2] := by
  constructor
  · intro address member
    have same : address = s1 := by simpa using member
    rw [same]
    exact Span.start_mem (Nat.succ_pos _)
  · intro address member
    have same : address = s2 := by simpa using member
    rw [same]
    exact Span.start_mem (Nat.succ_pos _)

theorem append (inside : ReadsInside s1 s2 first second reads)
    (later : ReadsInside s1 s2 first second more) :
    ReadsInside s1 s2 first second (reads ++ more) := by
  constructor
  · intro address member
    exact (List.mem_append.mp member).elim (inside.1 address) (later.1 address)
  · intro address member
    exact (List.mem_append.mp member).elim (inside.2 address) (later.2 address)

/-- What is inside the rests of two strings is inside the strings. -/
theorem of_tails (inside : ReadsInside (s1 + 1) (s2 + 1) first second reads) :
    ReadsInside s1 s2 (a :: first) (b :: second) reads := by
  have one : (1 : UInt32).toNat = 1 := rfl
  constructor
  · intro address member
    exact Span.shift_subset (by rw [one, List.length_cons]; omega) (inside.1 address member)
  · intro address member
    exact Span.shift_subset (by rw [one, List.length_cons]; omega) (inside.2 address member)

end ReadsInside

section Strings

variable {s : Machine} {w : Watched Machine ByteRead} {s1 s2 n : UInt32} {count : Nat}
  {first second text : List UInt8} {left right : UInt8}

/-- Two bytes that differ end the loop. -/
theorem watchedStrncmpLoop_differ (atFirst : w.state.mem s1 = left)
    (atSecond : w.state.mem s2 = right) (apart : left ≠ right) :
    watchedStrncmpLoop (count + 1) s1 s2 w = .ok ((left.toNat : Int) - right.toNat)
      ⟨w.state, w.trace ++ ([.first s1, .second s2] ++ [.first s1, .second s2])⟩ := by
  subst atFirst atSecond
  rw [watchedStrncmpLoop, bind_of_ok (watch_run _ w), bind_of_ok (unwatched_ok (getByte_run _ _)),
    bind_of_ok (unwatched_ok (getByte_run _ _)), if_pos apart, bind_of_ok (watch_run _ _), pure_run,
    List.append_assoc]

/-- Two bytes that agree send the loop on. -/
theorem watchedStrncmpLoop_same (same : w.state.mem s1 = w.state.mem s2) :
    watchedStrncmpLoop (count + 1) s1 s2 w =
      watchedStrncmpLoop count (s1 + 1) (s2 + 1)
        ⟨w.state, w.trace ++ [.first s1, .second s2]⟩ := by
  rw [watchedStrncmpLoop, bind_of_ok (watch_run _ w), bind_of_ok (unwatched_ok (getByte_run _ _)),
    bind_of_ok (unwatched_ok (getByte_run _ _)), if_neg (not_not_intro same)]

/-- Two strings that differ, or are equal and not compared past their terminators. -/
theorem watchedStrncmpLoop_run (firstString : CString w.state.mem s1 first)
    (secondString : CString w.state.mem s2 second)
    (short : first = second → count ≤ first.length + 1) :
    ∃ result reads, watchedStrncmpLoop count s1 s2 w =
        .ok result ⟨w.state, w.trace ++ reads⟩ ∧
      Compares (first ++ [0]) (second ++ [0]) count result ∧
      ReadsInside s1 s2 first second reads := by
  have both : ReadsInside s1 s2 first second
      ([.first s1, .second s2] ++ [.first s1, .second s2]) := ReadsInside.here.append .here
  induction count generalizing s1 s2 first second w with
  | zero =>
      refine ⟨0, [], ?_, .none, fun _ none => absurd none List.not_mem_nil,
        fun _ none => absurd none List.not_mem_nil⟩
      rw [List.append_nil]
      rfl
  | succ count ih =>
      cases first with
      | nil =>
          have atFirst := CString.nil_iff.mp firstString
          cases second with
          | nil =>
              have atSecond := CString.nil_iff.mp secondString
              have last : count = 0 := Nat.le_zero.mp (Nat.le_of_succ_le_succ (short rfl))
              subst last
              exact ⟨0, _, watchedStrncmpLoop_same (atFirst.trans atSecond.symm),
                Compares.none.cons, .here⟩
          | cons b second =>
              obtain ⟨atSecond, nonzero, _⟩ := CString.cons_iff.mp secondString
              exact ⟨_, _, watchedStrncmpLoop_differ atFirst atSecond nonzero.symm,
                .differ nonzero.symm, both⟩
      | cons a first =>
          obtain ⟨atFirst, nonzero, firstTail⟩ := CString.cons_iff.mp firstString
          cases second with
          | nil =>
              have atSecond := CString.nil_iff.mp secondString
              exact ⟨_, _, watchedStrncmpLoop_differ atFirst atSecond nonzero,
                .differ nonzero, both⟩
          | cons b second =>
              obtain ⟨atSecond, _, secondTail⟩ := CString.cons_iff.mp secondString
              by_cases same : a = b
              · subst same
                have shorter : first = second → count ≤ first.length + 1 := fun equal =>
                  Nat.le_of_succ_le_succ (short (congrArg _ equal))
                obtain ⟨result, reads, run, compares, inside⟩ :=
                  @ih ⟨w.state, w.trace ++ [.first s1, .second s2]⟩ (s1 + 1) (s2 + 1) first second
                    firstTail secondTail shorter (ReadsInside.here.append .here)
                refine ⟨result, [.first s1, .second s2] ++ reads, ?_, compares.cons,
                  ReadsInside.here.append inside.of_tails⟩
                rw [watchedStrncmpLoop_same (atFirst.trans atSecond.symm), run, List.append_assoc]
              · exact ⟨_, _, watchedStrncmpLoop_differ atFirst atSecond same, .differ same, both⟩

/-- Compared past their terminators, equal strings are read on behind them. -/
theorem watchedStrncmpLoop_past (firstString : CString w.state.mem s1 text)
    (secondString : CString w.state.mem s2 text) (past : text.length + 1 < count) :
    .first (s1 + UInt32.ofNat (text.length + 1)) ∈
      (final (watchedStrncmpLoop count s1 s2 w)).trace := by
  induction text generalizing count s1 s2 w with
  | nil =>
      rw [List.length_nil] at past
      obtain ⟨count, rfl⟩ : ∃ n, count = n + 2 := ⟨count - 2, by omega⟩
      have same := (CString.nil_iff.mp firstString).trans (CString.nil_iff.mp secondString).symm
      rw [watchedStrncmpLoop_same same, watchedStrncmpLoop, bind_of_ok (watch_run _ _)]
      refine (Respects.bind Grows.trans (unwatched_grows _) fun left =>
        .bind Grows.trans (unwatched_grows _) fun right => ?_ : Respects Grows _) _ |>.subset ?_
      · split
        · exact .bind Grows.trans (watch_grows _) fun _ w => Grows.refl w
        · exact watchedStrncmpLoop_grows _ _ _
      · simp
  | cons c rest ih =>
      obtain ⟨count, rfl⟩ : ∃ n, count = n + 1 := ⟨count - 1, by omega⟩
      obtain ⟨atFirst, _, firstTail⟩ := CString.cons_iff.mp firstString
      obtain ⟨atSecond, _, secondTail⟩ := CString.cons_iff.mp secondString
      have next : s1 + UInt32.ofNat ((c :: rest).length + 1) =
          s1 + 1 + UInt32.ofNat (rest.length + 1) := by
        rw [List.length_cons, Nat.add_comm (rest.length + 1) 1, UInt32.ofNat_add, UInt32.add_assoc]
        rfl
      rw [List.length_cons] at past
      rw [watchedStrncmpLoop_same (atFirst.trans atSecond.symm), next]
      exact @ih ⟨w.state, w.trace ++ [.first s1, .second s2]⟩ (s1 + 1) (s2 + 1) count firstTail
        secondTail (by omega)

/-- `strncmp` compares two strings as the C standard asks, and reads neither behind its
terminator. -/
structure ComparesStrings (s : Machine) (s1 s2 n : UInt32) (first second : List UInt8) :
    Prop where
  compares : ∃ result, strncmp s1 s2 n s = .ok result s ∧
    Compares (first ++ [0]) (second ++ [0]) n.toNat result
  reads : ReadsInside s1 s2 first second (final (watchedStrncmp s1 s2 n ⟨s, []⟩)).trace

/-- Whatever bytes follow them, `strncmp` compares two strings rightly, without a read
behind a terminator, exactly when they differ or are not compared past it. -/
theorem strncmp_standard_iff (firstString : CString s.mem s1 first)
    (secondString : CString s.mem s2 second) :
    ComparesStrings s s1 s2 n first second ↔
      (first = second → n.toNat ≤ first.length + 1) := by
  constructor
  · rintro ⟨_, inside⟩ rfl
    by_contra past
    have read := @watchedStrncmpLoop_past ⟨s, []⟩ s1 s2 n.toNat first firstString secondString
      (Nat.not_le.mp past)
    have member := inside.1 _ read
    have offset : s1 + UInt32.ofNat (first.length + 1) - s1 =
        UInt32.ofNat (first.length + 1) := by grind
    have wide := n.toNat_lt
    rw [Span.mem_def, offset, UInt32.toNat_ofNat', Nat.mod_eq_of_lt (by omega)] at member
    exact Nat.lt_irrefl _ member
  · intro short
    obtain ⟨result, reads, run, compares, inside⟩ :=
      @watchedStrncmpLoop_run ⟨s, []⟩ s1 s2 n.toNat first second firstString secondString short
    refine ⟨⟨result, (watchedStrncmp_watches s1 s2 n).of_ok run, compares⟩, ?_⟩
    rw [watchedStrncmp, run]
    exact inside

end Strings

/-- Memory with the strings `a` at 0x1000 and 0x2000, before a `b` and a `c`. -/
def trailingMem : Bytes := fun address =>
  if address = 0x1000 ∨ address = 0x2000 then 97
  else if address = 0x1002 then 98
  else if address = 0x2002 then 99
  else 0

theorem trailingMem_string (address : UInt32) (atString : address = 0x1000 ∨ address = 0x2000) :
    CString trailingMem address [97] := by
  refine CString.cons_iff.mpr ⟨if_pos atString, by decide, CString.nil_iff.mpr ?_⟩
  rcases atString with rfl | rfl <;> decide

theorem strncmp_standard_iff_trailing :
    ComparesStrings (Machine.boot trailingMem) 0x1000 0x2000 2 [97] [97] :=
  (strncmp_standard_iff (trailingMem_string _ (.inl rfl)) (trailingMem_string _ (.inr rfl))).mpr
    fun _ => by decide

/-- Compared with one byte more, the two equal strings differ. -/
theorem equal_strings_differ :
    ¬ ComparesStrings (Machine.boot trailingMem) 0x1000 0x2000 3 [97] [97] := by
  rintro ⟨⟨result, run, compares⟩, _⟩
  have less : strncmp 0x1000 0x2000 3 (Machine.boot trailingMem) =
      .ok (-1) (Machine.boot trailingMem) := rfl
  cases less.symm.trans run
  exact absurd (compares.zero_iff.mpr rfl) (by decide)

end TorchOS.Lib
