import CilMetadata.Bytes.Fixed
import CilMetadata.Fault

/-!
# Reading bytes

A cursor is a place in an array of bytes. A decoder moves a cursor and either returns a value or
reports a fault; the cursor that it leaves behind is known in both cases.

* `Cursor.rest` is what lies ahead of a cursor;
* `Decoder.byte`, `take`, `number` read; `peekByte`, `peekNumber` look ahead;
* `Decoder.seek`, `skip`, `align` move; each of them stays put when it fails;
* `Decoder.overwrite` puts bytes in the place of those ahead, which have to be there.
-/

namespace CilMetadata

/-- A place in an array of bytes. -/
structure Cursor where
  bytes : Array UInt8
  pos : Nat := 0
  deriving DecidableEq, Repr, Inhabited

namespace Cursor

/-- The bytes ahead of a cursor. -/
def rest (c : Cursor) : List UInt8 := c.bytes.toList.drop c.pos

/-- How many bytes lie ahead of a cursor. -/
def remaining (c : Cursor) : Nat := c.bytes.size - c.pos

/-- Whether any byte lies ahead of a cursor. -/
def hasMore (c : Cursor) : Bool := c.pos < c.bytes.size

/-- The cursor `n` bytes further on. -/
def forward (c : Cursor) (n : Nat) : Cursor := { c with pos := c.pos + n }

end Cursor

/-- A reader of bytes: it moves a cursor, and fails with a fault. -/
abbrev Decoder := EStateM Fault Cursor

namespace Decoder

/-- The outcome of a decoder at the start of some bytes. -/
def value? {α : Type} (d : Decoder α) (bytes : Array UInt8) : Except Fault α :=
  match d { bytes } with
  | .ok a _ => .ok a
  | .error fault _ => .error fault

/-- A decoder that leaves the cursor where it was when it fails. -/
def restoring {α : Type} (d : Decoder α) : Decoder α := fun c =>
  match d c with
  | .ok a c' => .ok a c'
  | .error fault _ => .error fault c

/-- The place of the cursor. -/
def position : Decoder Nat := fun c => .ok c.pos c

/-- The next byte, which stays ahead of the cursor. -/
def peekByte : Decoder UInt8 := fun c =>
  match c.bytes[c.pos]? with
  | some byte => .ok byte c
  | none => .error .outOfBounds c

/-- The next byte. -/
def byte : Decoder UInt8 := fun c =>
  match c.bytes[c.pos]? with
  | some byte => .ok byte (c.forward 1)
  | none => .error .outOfBounds c

/-- The next `n` bytes. -/
def take (n : Nat) : Decoder (Array UInt8) := fun c =>
  if c.pos + n ≤ c.bytes.size then .ok (c.bytes.extract c.pos (c.pos + n)) (c.forward n)
  else .error .outOfBounds c

/-- Move forward by `n` bytes. -/
def skip (n : Nat) : Decoder Unit := fun c =>
  if c.pos + n ≤ c.bytes.size then .ok () (c.forward n) else .error .outOfBounds c

/-- Move to a place in the bytes, or right behind the last one. -/
def seek (pos : Nat) : Decoder Unit := fun c =>
  if pos ≤ c.bytes.size then .ok () { c with pos } else .error .outOfBounds c

/-- How many bytes are missing until a multiple of `alignment`. -/
def paddingFor (alignment pos : Nat) : Nat := (alignment - pos % alignment) % alignment

/-- Move forward to a multiple of `alignment`. -/
def align (alignment : Nat) : Decoder Unit := fun c => skip (paddingFor alignment c.pos) c

/-- The next `width` bytes as a number. -/
def number (order : Bytes.Order) (width : Nat) : Decoder Nat := do
  return Bytes.decode order (← take width).toList

/-- The next `width` bytes as a number; they stay ahead of the cursor. -/
def peekNumber (order : Bytes.Order) (width : Nat) : Decoder Nat := fun c =>
  match number order width c with
  | .ok n _ => .ok n c
  | .error fault _ => .error fault c

/-- The next two bytes as a number, low byte first. -/
def u16 : Decoder UInt16 := return UInt16.ofNat (← number .little 2)

/-- The next four bytes as a number, low byte first. -/
def u32 : Decoder UInt32 := return UInt32.ofNat (← number .little 4)

/-- The next eight bytes as a number, low byte first. -/
def u64 : Decoder UInt64 := return UInt64.ofNat (← number .little 8)

/-- A column of two or four bytes. -/
def column (large : Bool) : Decoder Nat := number .little (if large then 4 else 2)

/-- Put bytes in the place of the next ones. -/
def overwrite (bytes : List UInt8) : Decoder Unit := fun c =>
  let stop := c.pos + bytes.length
  if stop ≤ c.bytes.size then
    let changed := c.bytes.extract 0 c.pos ++ bytes ++ c.bytes.extract stop c.bytes.size
    .ok () { bytes := changed, pos := stop }
  else .error .outOfBounds c

/-- Put a column of two or four bytes in the place of the next ones; a value too large for two
bytes is refused. -/
def overwriteColumn (large : Bool) (value : Nat) : Decoder Unit :=
  if large then overwrite (Bytes.toLE 4 value)
  else if value ≤ 0xFFFF then overwrite (Bytes.toLE 2 value)
  else throw (.malformed (.narrowColumn value))

/-- The values of the same decoder `n` times, behind those that it gave before, last one first. -/
def timesAfter {α : Type} (d : Decoder α) : (n : Nat) → (before : List α) → Decoder (List α)
  | 0, before => return before.reverse
  | n + 1, before => do d.timesAfter n ((← d) :: before)

/-- The values of the same decoder `n` times. -/
def times {α : Type} (d : Decoder α) (n : Nat) : Decoder (List α) := d.timesAfter n []

theorem timesAfter_eq {α : Type} (d : Decoder α) (n : Nat) (before : List α) :
    d.timesAfter n before = (before.reverse ++ ·) <$> d.times n := by
  induction n generalizing before with
  | zero => simp [times, timesAfter]
  | succ n ih =>
    simp only [times, timesAfter, map_bind]
    congr 1
    funext a
    rw [ih (a :: before), ih [a]]
    simp [Functor.map_map]

@[simp] theorem times_zero {α : Type} (d : Decoder α) : d.times 0 = pure [] := rfl

theorem times_succ {α : Type} (d : Decoder α) (n : Nat) :
    d.times (n + 1) = do return (← d) :: (← d.times n) := by
  simp only [times, timesAfter]
  congr 1
  funext a
  rw [timesAfter_eq]
  simp [times]

end Decoder

end CilMetadata
