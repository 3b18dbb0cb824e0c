import CliMeta.Error

/-!
Readers: computations that move a position through a buffer of bytes. A reader ends with a value or
an error, and in both cases at a position; the position an error leaves behind tells where the data
gave out. Each primitive is given by its equation on buffer and position.
-/

namespace CliMeta

abbrev Reader := ReaderT Bytes (EStateM Error Nat)

namespace Reader

variable {α β : Type}

@[simp] theorem pure_apply (a : α) (data : Bytes) (position : Nat) :
    (pure a : Reader α) data position = .ok a position := rfl

@[simp] theorem throw_apply (e : Error) (data : Bytes) (position : Nat) :
    (throw e : Reader α) data position = .error e position := rfl

theorem bind_apply (r : Reader α) (f : α → Reader β) (data : Bytes) (position : Nat) :
    (r >>= f) data position =
      match r data position with
      | .ok a next => f a data next
      | .error e next => .error e next := by
  show EStateM.bind (r data) (fun a => f a data) position = _
  unfold EStateM.bind
  cases r data position <;> rfl

theorem bind_of_ok {r : Reader α} {data : Bytes} {position next : Nat} {a : α}
    (h : r data position = .ok a next) (f : α → Reader β) :
    (r >>= f) data position = f a data next := by
  rw [bind_apply, h]

theorem bind_of_error {r : Reader α} {data : Bytes} {position next : Nat} {e : Error}
    (h : r data position = .error e next) (f : α → Reader β) :
    (r >>= f) data position = .error e next := by
  rw [bind_apply, h]

/-! ### Errors -/

/-- Takes a result over; an error leaves the position where it is. -/
def ofExcept : Except Error α → Reader α
  | .ok a => pure a
  | .error e => throw e

def malformed (defect : Defect) : Reader α :=
  throw (.malformed defect)

/-! ### The position

The position stays inside the buffer: whatever would leave it fails and does not move. -/

/-- The whole buffer, whatever the position. -/
def buffer : Reader Bytes := fun data position => .ok data position

def position : Reader Nat := fun _ position => .ok position position

def remaining : Reader Nat := fun data position => .ok (data.size - position) position

def atEnd : Reader Bool := fun data position => .ok (data.size ≤ position) position

/-- Moves to a position; the end of the buffer is a position too. -/
def seek (target : Nat) : Reader Unit := fun data position =>
  if target ≤ data.size then .ok () target else .error .outOfBounds position

def skip (count : Nat) : Reader Unit := fun data position =>
  if position + count ≤ data.size then .ok () (position + count)
  else .error .outOfBounds position

/-- Moves to the next multiple of `alignment`, if the position is not one. -/
def align (alignment : Nat) : Reader Unit := fun data position =>
  skip ((alignment - position % alignment) % alignment) data position

/-! ### Numbers and bytes -/

/-- The byte at the position, which stays unread. -/
def peek : Reader Nat := fun data position =>
  match data[position]? with
  | some byte => .ok byte.toNat position
  | none => .error .outOfBounds position

/-- The next `width` bytes as a number, lowest byte first. -/
def unsigned (width : Nat) : Reader Nat := fun data position =>
  if position + width ≤ data.size then
    .ok (data.littleEndian position width) (position + width)
  else .error .outOfBounds position

/-- The next `width` bytes as a two's complement number, lowest byte first. -/
def signed (width : Nat) : Reader Int := do
  return twosComplement (8 * width) (← unsigned width)

def byte : Reader Nat := unsigned 1

def bytes (count : Nat) : Reader Bytes := fun data position =>
  match data.slice? position (position + count) with
  | some taken => .ok taken (position + count)
  | none => .error .outOfBounds position

/-! ### Compressed integers

The lead byte is read before the bytes behind it, so a compressed integer that is cut short leaves
the position behind its lead byte. -/

/-- A compressed unsigned integer. The leading bits of the first byte choose a width of one, two
or four bytes; what is left of them and the bytes after it spell the number, highest byte first. -/
def compressed : Reader Nat := do
  let lead ← byte
  if lead < 0x80 then
    return lead
  else if lead < 0xC0 then
    return lead % 0x40 * 0x100 + (← byte)
  else if lead < 0xE0 then
    let rest ← bytes 3
    return lead % 0x20 * 0x1000000 + rest.byteAt 0 * 0x10000 + rest.byteAt 1 * 0x100 +
      rest.byteAt 2
  else
    malformed (.compressedLead lead)

/-- The payload bits of a compressed integer of a width in bytes. -/
def payloadBits : (width : Nat) → Nat
  | 1 => 7
  | 2 => 14
  | _ => 29

/-- Undoes the rotation of a signed number within `bits` bits, which puts its sign lowest. -/
def unrotate (bits value : Nat) : Int :=
  let half : Int := (value / 2 : Nat)
  if value % 2 = 0 then half else half - (1 <<< (bits - 1) : Nat)

/-- A compressed signed integer. The width of the encoding decides where its sign bit was. -/
def compressedSigned : Reader Int := do
  let start ← position
  let value ← compressed
  let stop ← position
  return unrotate (payloadBits (stop - start)) value

/-! ### Text -/

/-- A UTF-8 text up to a zero byte, which is read with it, or to the end of the buffer. -/
def text : Reader String := fun data position =>
  let rest := data.extract position data.size
  let line := (Bytes.untilNul rest).1
  match Utf8.decode line with
  | .ok text => .ok text (position + min (line.size + 1) rest.size)
  | .error fault => .error (.malformed (.illFormedText position fault)) position

/-! ### Readers out of readers -/

/-- Runs a reader, and on an error goes back to where it began. -/
def attempt (r : Reader α) : Reader α := fun data position =>
  match r data position with
  | .ok a next => .ok a next
  | .error e _ => .error e position

/-- Runs a reader. Where the data gives out inside it, the place decides on the error. -/
def orTruncated (truncated : Nat → Error) (r : Reader α) : Reader α := fun data position =>
  match r data position with
  | .ok a next => .ok a next
  | .error .outOfBounds next => .error (truncated next) next
  | .error e next => .error e next

def times (r : Reader α) : (count : Nat) → Reader (List α)
  | 0 => pure []
  | count + 1 => do
      let first ← r
      let others ← times r count
      return first :: others

/-- The value a reader finds at the front of a buffer. -/
def valueAt (r : Reader α) (data : Bytes) (position : Nat) : Except Error α :=
  match r data position with
  | .ok a _ => .ok a
  | .error e _ => .error e

@[simp] theorem ofExcept_ok (a : α) (data : Bytes) (position : Nat) :
    ofExcept (.ok a) data position = .ok a position := rfl

@[simp] theorem ofExcept_error (e : Error) (data : Bytes) (position : Nat) :
    (ofExcept (.error e) : Reader α) data position = .error e position := rfl

theorem times_zero (r : Reader α) : times r 0 = pure [] := rfl

theorem times_succ (r : Reader α) (count : Nat) :
    times r (count + 1) = (do
      let first ← r
      let others ← times r count
      return first :: others) := rfl

end Reader

end CliMeta
