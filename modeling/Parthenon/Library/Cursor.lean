import Parthenon.Library.ByteCodec

namespace Parthenon.Library

/-! # Cursors

A cursor walks a buffer by position and reads where it stands, checked or not.
It follows a reader when, from every position inside the buffer, it does what
the reader does on the bytes that remain.
-/

abbrev Cursor (ε α : Type) := StateT Nat (Except ε) α

namespace Cursor

variable {ε δ α β : Type}

section Steps

variable (buffer : Bytes)

/-- Read `count` bytes and step past them.  Nothing is checked first, so the read can
leave the buffer. -/
def next (overrun : ε) (count : Nat) : Cursor ε Bytes := fun position =>
  if position + count ≤ buffer.length then
    .ok ((buffer.drop position).take count, position + count)
  else .error overrun

/-- Give up unless `count` bytes remain.  The difference of the positions is signed. -/
def require (fault : ε) (count : Int) : Cursor ε Unit := fun position =>
  if (buffer.length : Int) - position < count then .error fault else .ok ((), position)

def many (cursor : Cursor ε α) : Nat → Cursor ε (List α)
  | 0 => pure []
  | count + 1 => do
      let value ← cursor
      let values ← many cursor count
      pure (value :: values)

/-- At one position, the cursor does what the reader does on the bytes that remain. -/
def FollowsAt (faults : δ → ε) (position : Nat) (cursor : Cursor ε α) (read : Reader δ α) : Prop :=
  match read (buffer.drop position) with
  | .ok result => ∃ stop, stop ≤ buffer.length ∧ result.2 = buffer.drop stop ∧
      cursor position = .ok (result.1, stop)
  | .error fault => cursor position = .error (faults fault)

def Follows (faults : δ → ε) (cursor : Cursor ε α) (read : Reader δ α) : Prop :=
  ∀ position, position ≤ buffer.length → FollowsAt buffer faults position cursor read

end Steps

/-- Both take the same `size` bytes wherever these are there. -/
def Spans (buffer : Bytes) (size : Nat) (cursor : Cursor ε α) (read : Reader δ α) : Prop :=
  ∀ position, position + size ≤ buffer.length → ∃ value,
    read (buffer.drop position) = .ok (value, buffer.drop (position + size)) ∧
      cursor position = .ok (value, position + size)

variable {buffer : Bytes} {faults : δ → ε} {position : Nat}

theorem FollowsAt.of_ok {cursor : Cursor ε α} {read : Reader δ α} {value : α} {stop : Nat}
    (inside : stop ≤ buffer.length) (done : read (buffer.drop position) = .ok (value, buffer.drop stop))
    (walked : cursor position = .ok (value, stop)) : FollowsAt buffer faults position cursor read := by
  rw [FollowsAt, done]
  exact ⟨stop, inside, rfl, walked⟩

theorem FollowsAt.of_error {cursor : Cursor ε α} {read : Reader δ α} {fault : δ}
    (failed : read (buffer.drop position) = .error fault)
    (walked : cursor position = .error (faults fault)) :
    FollowsAt buffer faults position cursor read := by
  rw [FollowsAt, failed]
  exact walked

/-- Either both stop with the same value at the same place, or both fail. -/
theorem FollowsAt.cases {cursor : Cursor ε α} {read : Reader δ α}
    (follows : FollowsAt buffer faults position cursor read) :
    (∃ value stop, stop ≤ buffer.length ∧ read (buffer.drop position) = .ok (value, buffer.drop stop) ∧
      cursor position = .ok (value, stop)) ∨
    ∃ fault, read (buffer.drop position) = .error fault ∧ cursor position = .error (faults fault) := by
  rw [FollowsAt] at follows
  cases outcome : read (buffer.drop position) with
  | ok result =>
      rw [outcome] at follows
      obtain ⟨stop, inside, left, walked⟩ := follows
      exact .inl ⟨result.1, stop, inside, by rw [← left], walked⟩
  | error fault =>
      rw [outcome] at follows
      exact .inr ⟨fault, rfl, follows⟩

theorem FollowsAt.pure (inside : position ≤ buffer.length) (value : α) :
    FollowsAt buffer faults position (Pure.pure value : Cursor ε α) (Pure.pure value : Reader δ α) :=
  .of_ok inside rfl rfl

theorem bind_ok_of {cursor : Cursor ε α} {next : α → Cursor ε β} {value : α} {stop : Nat}
    (walked : cursor position = .ok (value, stop)) : (cursor >>= next) position = next value stop := by
  change (cursor position >>= fun step => next step.1 step.2) = _
  rw [walked]
  rfl

theorem bind_error_of {cursor : Cursor ε α} {next : α → Cursor ε β} {fault : ε}
    (failed : cursor position = .error fault) : (cursor >>= next) position = .error fault := by
  change (cursor position >>= fun step => next step.1 step.2) = _
  rw [failed]
  rfl

theorem get_bind {next : Nat → Cursor ε β} :
    ((get : Cursor ε Nat) >>= next) position = next position position := rfl

/-- A cursor that follows a reader, and then one that follows what the reader does
next from the place where the first one stopped. -/
theorem FollowsAt.bind {cursor : Cursor ε α} {read : Reader δ α} {next : α → Cursor ε β}
    {readNext : α → Reader δ β} (first : FollowsAt buffer faults position cursor read)
    (second : ∀ value stop, stop ≤ buffer.length →
      read (buffer.drop position) = .ok (value, buffer.drop stop) →
      FollowsAt buffer faults stop (next value) (readNext value)) :
    FollowsAt buffer faults position (cursor >>= next) (read >>= readNext) := by
  obtain ⟨value, stop, inside, done, walked⟩ | ⟨fault, failed, walked⟩ := first.cases
  · have later := second value stop inside done
    rw [FollowsAt, Reader.bind_of_ok done, bind_ok_of walked]
    exact later
  · exact .of_error (Reader.bind_of_error failed) (bind_error_of walked)

theorem Follows.bind {cursor : Cursor ε α} {read : Reader δ α} {next : α → Cursor ε β}
    {readNext : α → Reader δ β} (first : Follows buffer faults cursor read)
    (second : ∀ value, Follows buffer faults (next value) (readNext value)) :
    Follows buffer faults (cursor >>= next) (read >>= readNext) :=
  fun position inside => (first position inside).bind fun value stop within _ =>
    second value stop within

theorem Follows.pure (value : α) :
    Follows buffer faults (Pure.pure value : Cursor ε α) (Pure.pure value : Reader δ α) :=
  fun _ inside => .pure inside value

theorem Follows.throw (fault : δ) :
    Follows buffer faults (throw (faults fault) : Cursor ε α) (throw fault : Reader δ α) :=
  fun _ _ => .of_error rfl rfl

theorem Follows.many {cursor : Cursor ε α} {read : Reader δ α}
    (one : Follows buffer faults cursor read) (count : Nat) :
    Follows buffer faults (many cursor count) (Reader.many read count) := by
  induction count with
  | zero => exact .pure []
  | succ count ih => exact one.bind fun value => ih.bind fun values => .pure (value :: values)

/-! ## Unchecked reads -/

theorem Spans.followsAt {cursor : Cursor ε α} {read : Reader δ α} {size : Nat}
    (spans : Spans buffer size cursor read) (enough : position + size ≤ buffer.length) :
    FollowsAt buffer faults position cursor read := by
  obtain ⟨value, done, walked⟩ := spans position enough
  exact .of_ok enough done walked

theorem Spans.next (overrun : ε) (fault : δ) (count : Nat) :
    Spans buffer count (next buffer overrun count) (Reader.take fault count) := by
  intro position enough
  refine ⟨(buffer.drop position).take count, ?_, by rw [Cursor.next, if_pos enough]⟩
  rw [Reader.take, if_neg (by rw [List.length_drop]; omega), List.drop_drop]

theorem Spans.pure (value : α) :
    Spans buffer 0 (Pure.pure value : Cursor ε α) (Pure.pure value : Reader δ α) :=
  fun _ _ => ⟨value, rfl, rfl⟩

theorem Spans.bind {cursor : Cursor ε α} {read : Reader δ α} {next : α → Cursor ε β}
    {readNext : α → Reader δ β} {size more : Nat} (first : Spans buffer size cursor read)
    (second : ∀ value, Spans buffer more (next value) (readNext value)) :
    Spans buffer (size + more) (cursor >>= next) (read >>= readNext) := by
  intro position enough
  obtain ⟨value, done, walked⟩ := first position (by omega)
  obtain ⟨result, doneNext, walkedNext⟩ := second value (position + size) (by omega)
  refine ⟨result, ?_, ?_⟩
  · rw [Reader.bind_of_ok done, doneNext, Nat.add_assoc]
  · rw [bind_ok_of walked, walkedNext, Nat.add_assoc]

/-! ## Checks -/

/-- A check that the reader makes too, by failing on fewer bytes. -/
theorem FollowsAt.require {fault : ε} {count : Int} {cursor : Cursor ε α} {read : Reader δ α} {given : δ}
    (same : faults given = fault)
    (short : (buffer.length : Int) - position < count → read (buffer.drop position) = .error given)
    (enough : count ≤ (buffer.length : Int) - position → FollowsAt buffer faults position cursor read) :
    FollowsAt buffer faults position (require buffer fault count >>= fun _ => cursor) read := by
  by_cases few : (buffer.length : Int) - position < count
  · have refused : Cursor.require buffer fault count position = .error fault := by
      rw [Cursor.require, if_pos few]
    refine .of_error (short few) ?_
    rw [same]
    exact bind_error_of refused
  · have passed : Cursor.require buffer fault count position = .ok ((), position) := by
      rw [Cursor.require, if_neg few]
    have later := enough (Int.not_lt.mp few)
    rw [FollowsAt, bind_ok_of passed]
    exact later

end Cursor

end Parthenon.Library
