import Prefork.Bytes

namespace Prefork.Utf8

def encode (s : String) : Bytes := s.toList.flatMap String.utf8EncodeChar

/-- Where bytes stop being UTF-8: `index` is the start of the faulty sequence and `length` the
size of its longest prefix that could begin a character, `none` if the bytes end inside one. -/
structure Fault where
  index : Nat
  length : Option Nat
  deriving DecidableEq, Repr

def Fault.message (f : Fault) : String :=
  match f.length with
  | some n => s!"invalid utf-8 sequence of {n} bytes from index {f.index}"
  | none => s!"incomplete utf-8 byte sequence from index {f.index}"

/-- The decoder stands between characters, or inside one that still lacks `owed` bytes, the next
of which lies from `low` to `high`. -/
inductive State where
  | start
  | within (owed : Nat) (low high : UInt8) (value seen : Nat)

/-- What the first byte of a longer character promises. Overlong forms, surrogates and values
past the last code point are excluded by the range of the second byte. -/
def lead (b : UInt8) : Option State :=
  if b < 0xC2 then none
  else if b < 0xE0 then some (.within 1 0x80 0xBF (b.toNat % 32) 1)
  else if b = 0xE0 then some (.within 2 0xA0 0xBF (b.toNat % 16) 1)
  else if b = 0xED then some (.within 2 0x80 0x9F (b.toNat % 16) 1)
  else if b < 0xF0 then some (.within 2 0x80 0xBF (b.toNat % 16) 1)
  else if b = 0xF0 then some (.within 3 0x90 0xBF (b.toNat % 8) 1)
  else if b < 0xF4 then some (.within 3 0x80 0xBF (b.toNat % 8) 1)
  else if b = 0xF4 then some (.within 3 0x80 0x8F (b.toNat % 8) 1)
  else none

def decodeFrom (index : Nat) (done : List Char) : State → Bytes → Except Fault (List Char)
  | .start, [] => .ok done.reverse
  | .within .., [] => .error ⟨index, none⟩
  | .start, b :: rest =>
    if b < 0x80 then decodeFrom (index + 1) (Char.ofNat b.toNat :: done) .start rest
    else match lead b with
      | some state => decodeFrom index done state rest
      | none => .error ⟨index, some 1⟩
  | .within owed low high value seen, b :: rest =>
    if low ≤ b ∧ b ≤ high then
      let value := 64 * value + b.toNat % 64
      if owed ≤ 1 then decodeFrom (index + seen + 1) (Char.ofNat value :: done) .start rest
      else decodeFrom index done (.within (owed - 1) 0x80 0xBF value (seen + 1)) rest
    else .error ⟨index, some seen⟩

def decode (b : Bytes) : Except Fault (List Char) := decodeFrom 0 [] .start b

def isValid (b : Bytes) : Bool := (decode b).isOk

end Prefork.Utf8
