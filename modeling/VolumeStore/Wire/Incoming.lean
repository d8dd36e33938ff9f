import VolumeStore.Text.Utf8

/-!
# Incoming bytes

The bytes of a connection that have arrived and were not read yet, and whether more can come.
Readers take a line, or a number of bytes, from the front and give back what is left. A read that
asks for more than has arrived waits, unless the stream has ended.
-/

namespace VolumeStore

structure Incoming where
  bytes : List UInt8 := []
  ended : Bool := false
deriving DecidableEq, Repr, Inhabited

inductive ReadStop where
  | waiting
  /-- The stream ended in front of what was to be read. -/
  | ended
  /-- The stream ended in the midst of it. -/
  | cutShort
  | notText
deriving DecidableEq, Repr

def lineFeed : UInt8 := 0x0a

/-- The bytes up to the first line feed with it included, but not more than `limit`. -/
def lineBytes : (limit : Nat) → List UInt8 → List UInt8
  | 0, _ => []
  | _, [] => []
  | limit + 1, b :: bs => if b = lineFeed then [b] else b :: lineBytes limit bs

def isClosed (line : List UInt8) : Bool :=
  line.getLast? == some lineFeed

namespace Incoming

def drop (s : Incoming) (n : Nat) : Incoming :=
  { s with bytes := s.bytes.drop n }

def append (s new : Incoming) : Incoming :=
  if s.ended then s else ⟨s.bytes ++ new.bytes, new.ended⟩

/-- A line of at most `limit` bytes. It is open at its end when the limit or the end of the stream
cuts it off; with nothing left at the end it is empty. -/
def takeLine (s : Incoming) (limit : Nat) : Except ReadStop (List UInt8 × Incoming) :=
  let line := lineBytes limit s.bytes
  if isClosed line || line.length = limit || s.ended then .ok (line, s.drop line.length)
  else .error .waiting

def takeBytes (s : Incoming) (n : Nat) : Except ReadStop (List UInt8 × Incoming) :=
  if n ≤ s.bytes.length then .ok (s.bytes.take n, s.drop n)
  else if s.ended then .error .cutShort
  else .error .waiting

@[simp] theorem bytes_drop (s : Incoming) (n : Nat) : (s.drop n).bytes = s.bytes.drop n := rfl

@[simp] theorem ended_drop (s : Incoming) (n : Nat) : (s.drop n).ended = s.ended := rfl

end Incoming

/-! ## Facts about lines -/

theorem length_lineBytes_le (limit : Nat) (bytes : List UInt8) :
    (lineBytes limit bytes).length ≤ limit := by
  induction limit generalizing bytes with
  | zero => simp [lineBytes]
  | succ limit ih =>
    cases bytes with
    | nil => simp [lineBytes]
    | cons b bs =>
      simp only [lineBytes]
      split
      · simp
      · simpa using ih bs

theorem lineBytes_line {line : List UInt8} (h : lineFeed ∉ line) {limit : Nat}
    (hl : line.length < limit) (rest : List UInt8) :
    lineBytes limit (line ++ lineFeed :: rest) = line ++ [lineFeed] := by
  induction line generalizing limit with
  | nil =>
    cases limit with
    | zero => simp at hl
    | succ limit => simp [lineBytes]
  | cons b bs ih =>
    cases limit with
    | zero => simp at hl
    | succ limit =>
      simp only [List.mem_cons, not_or] at h
      simp only [List.length_cons, Nat.add_lt_add_iff_right] at hl
      simp [lineBytes, Ne.symm h.1, ih h.2 hl]

end VolumeStore
