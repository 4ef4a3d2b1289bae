import Mathlib.Tactic.Common

/-!
# Halting programs over a state

A program returns a value or halts for a reason, and keeps the state it stopped
in either way. The rules below take a successful run apart (`bind_ok_iff`), put
one together (`bind_of_ok`), carry a relation over every state a program can
leave (`Respects`), bound what a program returns and what it may halt with
(`Yields`), compare programs over two kinds of state (`Matches`), and reason about loops
through an invariant and a variant.
-/

namespace Base

variable {ε σ α β : Type}

/-- A program over the state `σ` that can halt for a reason `ε`. -/
abbrev Program (ε σ α : Type) := EStateM ε σ α

namespace Program

/-- The state a program stops in, whether it returned or halted. -/
def final : EStateM.Result ε σ α → σ
  | .ok _ state => state
  | .error _ state => state

@[simp] theorem final_ok (value : α) (state : σ) :
    final (.ok value state : EStateM.Result ε σ α) = state := rfl

@[simp] theorem final_error (reason : ε) (state : σ) :
    final (.error reason state : EStateM.Result ε σ α) = state := rfl

/-- Stop here for good. -/
def halt (reason : ε) : Program ε σ α := fun state => .error reason state

/-- Look at the state without changing it. -/
def read (view : σ → α) : Program ε σ α := fun state => .ok (view state) state

/-- Change the state. -/
def update (change : σ → σ) : Program ε σ Unit := fun state => .ok () (change state)

/-- Halt when a check fails, continue otherwise. -/
def haltIf (failed : Bool) (reason : ε) : Program ε σ Unit :=
  if failed then halt reason else pure ()

@[simp] theorem halt_run (reason : ε) (state : σ) :
    (halt reason : Program ε σ α) state = .error reason state := rfl

@[simp] theorem read_run (view : σ → α) (state : σ) :
    (read view : Program ε σ α) state = .ok (view state) state := rfl

@[simp] theorem update_run (change : σ → σ) (state : σ) :
    (update change : Program ε σ Unit) state = .ok () (change state) := rfl

@[simp] theorem pure_run (value : α) (state : σ) :
    (pure value : Program ε σ α) state = .ok value state := rfl

theorem haltIf_ok_iff {failed : Bool} {reason : ε} {state after : σ} :
    (haltIf failed reason : Program ε σ Unit) state = .ok () after ↔
      failed = false ∧ state = after := by
  cases failed <;> simp [haltIf]

@[simp] theorem haltIf_false (reason : ε) (state : σ) :
    (haltIf false reason : Program ε σ Unit) state = .ok () state := rfl

@[simp] theorem haltIf_true (reason : ε) (state : σ) :
    (haltIf true reason : Program ε σ Unit) state = .error reason state := rfl

/-- A sequence whose first part returns goes on from where that part stopped. -/
theorem bind_of_ok {first : Program ε σ α} {rest : α → Program ε σ β} {state middle : σ}
    {value : α} (returned : first state = .ok value middle) :
    (first >>= rest) state = rest value middle := by
  change EStateM.bind first rest state = _
  simp only [EStateM.bind, returned]

/-- A sequence whose first part halts halts there. -/
theorem bind_of_error {first : Program ε σ α} {rest : α → Program ε σ β} {state middle : σ}
    {reason : ε} (halted : first state = .error reason middle) :
    (first >>= rest) state = .error reason middle := by
  change EStateM.bind first rest state = _
  simp only [EStateM.bind, halted]

/-- A sequence returns exactly when both of its parts do. -/
theorem bind_ok_iff {first : Program ε σ α} {rest : α → Program ε σ β} {state after : σ}
    {value : β} :
    (first >>= rest) state = .ok value after ↔
      ∃ a middle, first state = .ok a middle ∧ rest a middle = .ok value after := by
  cases run : first state with
  | ok a middle =>
      rw [bind_of_ok run]
      constructor
      · exact fun tail => ⟨a, middle, rfl, tail⟩
      · rintro ⟨_, _, same, tail⟩
        cases same
        exact tail
  | error reason middle => rw [bind_of_error run]; simp

/-- Every state a program can stop in is related to the one it started from. -/
def Respects (R : σ → σ → Prop) (program : Program ε σ α) : Prop :=
  ∀ state, R state (final (program state))

theorem Respects.of_ok {R : σ → σ → Prop} {program : Program ε σ α} {state after : σ} {value : α}
    (respects : Respects R program) (returned : program state = .ok value after) :
    R state after := by
  have related := respects state
  rwa [returned] at related

/-- What the first part left related to some state, a respectful rest keeps related. -/
theorem Respects.after {R : σ → σ → Prop} (trans : ∀ a b c, R a b → R b c → R a c)
    {first : Program ε σ α} {rest : α → Program ε σ β} {origin state : σ}
    (left : R origin (final (first state))) (right : ∀ value, Respects R (rest value)) :
    R origin (final ((first >>= rest) state)) := by
  cases run : first state with
  | ok value middle =>
      rw [bind_of_ok run]
      rw [run] at left
      exact trans _ _ _ left (right value middle)
  | error reason middle =>
      rw [bind_of_error run]
      rwa [run] at left

theorem Respects.bind {R : σ → σ → Prop} (trans : ∀ a b c, R a b → R b c → R a c)
    {first : Program ε σ α} {rest : α → Program ε σ β}
    (left : Respects R first) (right : ∀ value, Respects R (rest value)) :
    Respects R (first >>= rest) :=
  fun state => Respects.after trans (left state) right

/-- A result that is a value and state satisfying `post`, or a halt for an allowed reason. -/
def Yields (result : EStateM.Result ε σ α) (post : α → σ → Prop) (allowed : ε → Prop) : Prop :=
  match result with
  | .ok value state => post value state
  | .error reason _ => allowed reason

theorem Yields.bind {first : Program ε σ α} {rest : α → Program ε σ β} {state : σ}
    {middle : α → σ → Prop} {post : β → σ → Prop} {allowed : ε → Prop}
    (left : Yields (first state) middle allowed)
    (right : ∀ value after, middle value after → Yields (rest value after) post allowed) :
    Yields ((first >>= rest) state) post allowed := by
  cases run : first state with
  | ok value after =>
      rw [bind_of_ok run]
      rw [run] at left
      exact right value after left
  | error reason after =>
      rw [bind_of_error run]
      rwa [run] at left

theorem Yields.mono {result : EStateM.Result ε σ α} {post post' : α → σ → Prop}
    {allowed allowed' : ε → Prop} (yields : Yields result post allowed)
    (weaker : ∀ value state, post value state → post' value state)
    (more : ∀ reason, allowed reason → allowed' reason) : Yields result post' allowed' := by
  cases result with
  | ok value state => exact weaker value state yields
  | error reason state => exact more reason yields

theorem Yields.of_ok {result : EStateM.Result ε σ α} {post : α → σ → Prop} {allowed : ε → Prop}
    (yields : Yields result post allowed) {value : α} {state : σ}
    (returned : result = .ok value state) : post value state := by
  subst returned
  exact yields

theorem Yields.of_error {result : EStateM.Result ε σ α} {post : α → σ → Prop}
    {allowed : ε → Prop} (yields : Yields result post allowed) {reason : ε} {state : σ}
    (halted : result = .error reason state) : allowed reason := by
  subst halted
  exact yields

/-- What is yielded is what was returned. -/
theorem Yields.returned {result : EStateM.Result ε σ α} {post : α → σ → Prop}
    {allowed : ε → Prop} (yields : Yields result post allowed) :
    Yields result (fun value state => result = .ok value state ∧ post value state) allowed := by
  cases result with
  | ok value state => exact ⟨rfl, yields⟩
  | error reason state => exact yields

/-- A program that may not halt at all returns. -/
theorem Yields.returns {result : EStateM.Result ε σ α} {post : α → σ → Prop}
    (yields : Yields result post fun _ => False) :
    ∃ value state, result = .ok value state ∧ post value state := by
  cases result with
  | ok value state => exact ⟨value, state, rfl, yields⟩
  | error reason state => exact yields.elim

/-- Two results over different states: the same value in related states, or a halt for the
same reason. -/
def Matches {τ : Type} (R : α → σ → τ → Prop) :
    EStateM.Result ε σ α → EStateM.Result ε τ α → Prop
  | .ok left state, .ok right state' => left = right ∧ R left state state'
  | .error left _, .error right _ => left = right
  | _, _ => False

/-- Sequences match when their parts do. -/
theorem Matches.bind {τ : Type} {R : α → σ → τ → Prop} {Q : β → σ → τ → Prop}
    {first : Program ε σ α} {first' : Program ε τ α} {rest : α → Program ε σ β}
    {rest' : α → Program ε τ β} {state : σ} {state' : τ}
    (left : Matches R (first state) (first' state'))
    (right : ∀ value middle middle', R value middle middle' →
      Matches Q (rest value middle) (rest' value middle')) :
    Matches Q ((first >>= rest) state) ((first' >>= rest') state') := by
  cases run : first state with
  | ok value middle =>
      cases run' : first' state' with
      | ok value' middle' =>
          rw [run, run'] at left
          obtain ⟨rfl, related⟩ := left
          rw [bind_of_ok run, bind_of_ok run']
          exact right value middle middle' related
      | error _ _ =>
          rw [run, run'] at left
          exact left.elim
  | error reason middle =>
      cases run' : first' state' with
      | ok _ _ =>
          rw [run, run'] at left
          exact left.elim
      | error reason' middle' =>
          rw [run, run'] at left
          rw [bind_of_error run, bind_of_error run']
          exact left

/-- Both programs do the same, unless the second halts for the reason. -/
def SameUnless (reason : ε) (first second : Program ε σ α) : Prop :=
  ∀ state, first state = second state ∨ ∃ after, second state = .error reason after

theorem SameUnless.refl (reason : ε) (program : Program ε σ α) :
    SameUnless reason program program :=
  fun _ => .inl rfl

theorem SameUnless.bind {reason : ε} {first first' : Program ε σ α}
    {rest rest' : α → Program ε σ β} (left : SameUnless reason first first')
    (right : ∀ value, SameUnless reason (rest value) (rest' value)) :
    SameUnless reason (first >>= rest) (first' >>= rest') := by
  intro state
  rcases left state with same | ⟨after, halts⟩
  · cases run : first' state with
    | ok value middle =>
        rw [bind_of_ok (same.trans run), bind_of_ok run]
        exact right value middle
    | error other middle => exact .inl (by rw [bind_of_error (same.trans run), bind_of_error run])
  · exact .inr ⟨after, bind_of_error halts⟩

/-- Where the second returns, so does the first. -/
theorem SameUnless.returned {reason : ε} {first second : Program ε σ α}
    (same : SameUnless reason first second) {state after : σ} {value : α}
    (run : second state = .ok value after) : first state = .ok value after := by
  rcases same state with equal | ⟨last, halts⟩
  · exact equal.trans run
  · cases run.symm.trans halts

/-- A `while` loop: `guard` is tested before each round of `body`, and a loop
still running after `fuel` tests stops with `endless`. -/
def loop (guard : α → σ → Bool) (body : α → Program ε σ α) (endless : ε) :
    Nat → α → Program ε σ α
  | 0, _ => halt endless
  | fuel + 1, value => fun state =>
      if guard value state then (body value >>= loop guard body endless fuel) state
      else .ok value state

/-- A counted loop: `body` at `0`, then at `1`, up to the count. -/
def times (body : Nat → Program ε σ Unit) : Nat → Program ε σ Unit
  | 0 => pure ()
  | count + 1 => times body count >>= fun _ => body count

section Loops

variable {guard : α → σ → Bool} {body : α → Program ε σ α} {endless : ε}

theorem loop_again {fuel : Nat} {value : α} {state : σ} (again : guard value state = true) :
    loop guard body endless (fuel + 1) value state =
      (body value >>= loop guard body endless fuel) state :=
  if_pos again

theorem loop_done {fuel : Nat} {value : α} {state : σ} (done : guard value state = false) :
    loop guard body endless (fuel + 1) value state = .ok value state :=
  if_neg (by simp [done])

/-- What every round preserves holds when the loop returns, and the guard has failed. -/
theorem loop_ok {I : α → σ → Prop}
    (preserved : ∀ {value state next after}, I value state → guard value state = true →
      body value state = .ok next after → I next after)
    {fuel : Nat} {value result : α} {state after : σ} (start : I value state)
    (returned : loop guard body endless fuel value state = .ok result after) :
    I result after ∧ guard result after = false := by
  induction fuel generalizing value state with
  | zero => simp [loop] at returned
  | succ fuel ih =>
      cases again : guard value state with
      | true =>
          rw [loop_again again] at returned
          obtain ⟨next, middle, round, tail⟩ := bind_ok_iff.mp returned
          exact ih (preserved start again round) tail
      | false =>
          rw [loop_done again] at returned
          cases returned
          exact ⟨start, again⟩

/-- A loop whose rounds keep an invariant and lower a variant leaves with the
invariant and a failed guard, or halts as one of its rounds does: it never runs
out of fuel that exceeds the variant. -/
theorem Yields.loop {I : α → σ → Prop} {variant : α → σ → Nat} {allowed : ε → Prop}
    (round : ∀ value state, I value state → guard value state = true →
      Yields (body value state)
        (fun next after => I next after ∧ variant next after < variant value state) allowed)
    {fuel : Nat} {value : α} {state : σ} (start : I value state)
    (enough : variant value state < fuel) :
    Yields (loop guard body endless fuel value state)
      (fun result after => I result after ∧ guard result after = false) allowed := by
  induction fuel generalizing value state with
  | zero => omega
  | succ fuel ih =>
      cases again : guard value state with
      | true =>
          rw [loop_again again]
          refine (round value state start again).bind fun next after ⟨holds, lower⟩ => ?_
          exact ih holds (by omega)
      | false =>
          rw [loop_done again]
          exact ⟨start, again⟩

/-- Loops whose guards look at the value only match when their rounds do. -/
theorem Matches.loop {τ : Type} {R : α → σ → τ → Prop} {goOn : α → Bool}
    {left : α → Program ε σ α} {right : α → Program ε τ α}
    (round : ∀ value state state', R value state state' → goOn value = true →
      Matches R (left value state) (right value state'))
    (fuel : Nat) {value : α} {state : σ} {state' : τ} (related : R value state state') :
    Matches R (loop (fun value _ => goOn value) left endless fuel value state)
      (loop (fun value _ => goOn value) right endless fuel value state') := by
  induction fuel generalizing value state state' with
  | zero => exact rfl
  | succ fuel ih =>
      cases again : goOn value with
      | true =>
          rw [loop_again again, loop_again again]
          exact (round value state state' related again).bind fun _ _ _ next => ih next
      | false =>
          rw [loop_done again, loop_done again]
          exact ⟨rfl, related⟩

theorem SameUnless.loop {reason : ε} {body' : α → Program ε σ α}
    (rounds : ∀ value, SameUnless reason (body value) (body' value)) (fuel : Nat) (value : α) :
    SameUnless reason (loop guard body endless fuel value)
      (loop guard body' endless fuel value) := by
  induction fuel generalizing value with
  | zero => exact .refl reason _
  | succ fuel ih =>
      intro state
      cases again : guard value state with
      | true =>
          rw [loop_again again, loop_again again]
          exact (rounds value).bind ih state
      | false =>
          rw [loop_done again, loop_done again]
          exact .inl rfl

theorem Respects.loop {R : σ → σ → Prop} (refl : ∀ a, R a a)
    (trans : ∀ a b c, R a b → R b c → R a c) (rounds : ∀ value, Respects R (body value))
    (fuel : Nat) (value : α) : Respects R (loop guard body endless fuel value) := by
  induction fuel generalizing value with
  | zero => exact refl
  | succ fuel ih =>
      intro state
      cases again : guard value state with
      | true =>
          rw [loop_again again]
          exact Respects.bind trans (rounds value) ih state
      | false =>
          rw [loop_done again]
          exact refl state

/-- A counted loop keeps an invariant that each round carries to the next index. -/
theorem Yields.times {I : Nat → σ → Prop} {allowed : ε → Prop} {body : Nat → Program ε σ Unit}
    {count : Nat} {state : σ} (start : I 0 state)
    (round : ∀ index state, index < count → I index state →
      Yields (body index state) (fun _ after => I (index + 1) after) allowed) :
    Yields (times body count state) (fun _ after => I count after) allowed := by
  induction count with
  | zero => exact start
  | succ count ih =>
      refine (ih fun index state below => round index state (by omega)).bind fun _ after holds => ?_
      exact round count after (by omega) holds

theorem Respects.times {R : σ → σ → Prop} (refl : ∀ a, R a a)
    (trans : ∀ a b c, R a b → R b c → R a c) {body : Nat → Program ε σ Unit}
    (rounds : ∀ index, Respects R (body index)) (count : Nat) :
    Respects R (times body count) := by
  induction count with
  | zero => exact refl
  | succ count ih => exact Respects.bind trans ih fun _ => rounds count

/-- A `for` loop that changes nothing until it breaks stops at the first index that
`hit` picks. -/
theorem forIn_find {hit : Nat → Prop} [DecidablePred hit]
    {body : Nat → β → Program ε σ (ForInStep β)} {start : β} {state : σ} {found : Nat → β}
    {after : Nat → σ} {indices : List Nat}
    (passes : ∀ index ∈ indices, ¬ hit index → body index start state = .ok (.yield start) state)
    (breaks : ∀ index ∈ indices, hit index →
      body index start state = .ok (.done (found index)) (after index)) :
    forIn indices start body state =
      match indices.find? fun index => hit index with
      | some index => .ok (found index) (after index)
      | none => .ok start state := by
  induction indices with
  | nil => rfl
  | cons index rest ih =>
      rw [List.forIn_cons]
      by_cases here : hit index
      · rw [bind_of_ok (breaks index List.mem_cons_self here), List.find?_cons_of_pos (by simpa)]
        rfl
      · rw [bind_of_ok (passes index List.mem_cons_self here), List.find?_cons_of_neg (by simpa)]
        exact ih (fun other member => passes other (List.mem_cons_of_mem _ member))
          fun other member => breaks other (List.mem_cons_of_mem _ member)

end Loops

end Program

end Base
