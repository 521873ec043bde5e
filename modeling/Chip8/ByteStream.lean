/-
  The source of random bytes.

  It is a stream without end, together with how many bytes have been taken from it.  `front` is
  the byte that comes next and `rest` is one byte further on; nothing leads back.

  Mathlib-free.
-/

namespace Chip8

/-- An endless stream of bytes and the place reached in it. -/
structure ByteStream where
  byte : Nat → UInt8
  taken : Nat := 0

namespace ByteStream

/-- The byte that is handed out next. -/
def front (s : ByteStream) : UInt8 := s.byte s.taken

/-- The stream after that byte. -/
def rest (s : ByteStream) : ByteStream := { s with taken := s.taken + 1 }

/-- The given bytes over and over; zeros if there are none. -/
def repeating (bytes : Array UInt8) : ByteStream where
  byte k := bytes.getD (k % bytes.size) 0

end ByteStream

end Chip8
