import Prefork.Reading
import Prefork.Text.Utf8

namespace Prefork.WebSocket

inductive Opcode where
  | continuation | text | binary | close | ping | pong
  deriving DecidableEq, Repr

namespace Opcode

def all : List Opcode := [continuation, text, binary, close, ping, pong]

def code : Opcode → Nat
  | continuation => 0x0
  | text => 0x1
  | binary => 0x2
  | close => 0x8
  | ping => 0x9
  | pong => 0xA

def ofCode? (n : Nat) : Option Opcode := all.find? (·.code == n)

def isControl : Opcode → Bool
  | close | ping | pong => true
  | continuation | text | binary => false

end Opcode

inductive FrameError where
  | reservedBitsSet
  | invalidOpcode (code : Nat)
  | lengthOverflow
  | payloadTooLarge (size max : Nat)
  | fragmentedControlFrame
  | controlFrameTooLarge (size : Nat)
  | unexpectedContinuation
  | messageInterrupted
  | invalidUtf8
  deriving DecidableEq, Repr

namespace FrameError

def message : FrameError → String
  | reservedBitsSet => "reserved bits set without a negotiated extension"
  | invalidOpcode code => s!"invalid opcode: 0x{String.ofList (Nat.toDigits 16 code)}"
  | lengthOverflow => "payload length overflows 63 bits"
  | payloadTooLarge size max => s!"payload too large: {size} bytes (max: {max})"
  | fragmentedControlFrame => "fragmented control frame"
  | controlFrameTooLarge size => s!"control frame payload too large: {size} bytes"
  | unexpectedContinuation => "continuation frame without a message in progress"
  | messageInterrupted => "new data frame while a fragmented message is in progress"
  | invalidUtf8 => "text message is not valid UTF-8"

def closeCode : FrameError → Nat
  | payloadTooLarge _ _ => 1009
  | invalidUtf8 => 1007
  | _ => 1002

end FrameError

structure Mask where
  a : UInt8
  b : UInt8
  c : UInt8
  d : UInt8
  deriving DecidableEq, Repr

namespace Mask

def bytes (m : Mask) : Bytes := [m.a, m.b, m.c, m.d]

def ofBytes? : Bytes → Option Mask
  | [a, b, c, d] => some ⟨a, b, c, d⟩
  | _ => none

def byteAt (m : Mask) (i : Nat) : UInt8 :=
  match i % 4 with
  | 0 => m.a
  | 1 => m.b
  | 2 => m.c
  | _ => m.d

def apply (m : Mask) (payload : Bytes) : Bytes := payload.mapIdx fun i x ↦ x ^^^ m.byteAt i

end Mask

/-- The payload is kept unmasked. -/
structure Frame where
  fin : Bool := true
  opcode : Opcode
  mask : Option Mask := none
  payload : Bytes := []
  deriving DecidableEq, Repr

namespace Frame

def maxPayload : Nat := 16 * 1024 * 1024

def maxControlPayload : Nat := 125

def close (code : Option Nat) (reason : String) : Frame :=
  { opcode := .close
    payload := match code with
      | some code => Bytes.ofNat 2 code ++ Utf8.encode reason
      | none => [] }

def closeCode (f : Frame) : Option Nat :=
  match f.opcode, f.payload with
  | .close, a :: b :: _ => some (Bytes.toNat [a, b])
  | _, _ => none

structure Start where
  fin : Bool
  opcode : Opcode
  masked : Bool
  lengthCode : Nat

def Start.read (b : Bytes) : Reading FrameError Start :=
  match b with
  | first :: second :: rest =>
    if first.toNat / 16 % 8 ≠ 0 then .invalid .reservedBitsSet
    else match Opcode.ofCode? (first.toNat % 16) with
      | none => .invalid (.invalidOpcode (first.toNat % 16))
      | some opcode =>
        .complete ⟨128 ≤ first.toNat, opcode, 128 ≤ second.toNat, second.toNat % 128⟩ rest
  | [_] => .incomplete 1
  | [] => .incomplete 2

/-- The payload's length. Two codes announce a longer field, of 16 or of 63 bits. -/
def readLength (code : Nat) (b : Bytes) : Reading FrameError Nat :=
  if code = 126 then (Reading.take 2 b).map Bytes.toNat
  else if code = 127 then
    (Reading.take 8 b).andThen fun field rest ↦
      if Bytes.toNat field < 0x8000000000000000 then .complete (Bytes.toNat field) rest
      else .invalid .lengthOverflow
  else .complete code b

def checkLength (start : Start) (limit length : Nat) : Except FrameError Unit :=
  if start.opcode.isControl && !start.fin then .error .fragmentedControlFrame
  else if start.opcode.isControl && maxControlPayload < length then
    .error (.controlFrameTooLarge length)
  else if limit < length then .error (.payloadTooLarge length limit)
  else .ok ()

def readMask (masked : Bool) (b : Bytes) : Reading FrameError (Option Mask) :=
  if masked then (Reading.take 4 b).map Mask.ofBytes? else .complete none b

def read (limit : Nat) (b : Bytes) : Reading FrameError Frame :=
  (Start.read b).andThen fun start b ↦
  (readLength start.lengthCode b).andThen fun length b ↦
  (Reading.ofExcept b (checkLength start limit length)).andThen fun _ b ↦
  (readMask start.masked b).andThen fun mask b ↦
  (Reading.take length b).map fun payload ↦
    { fin := start.fin, opcode := start.opcode, mask
      payload := match mask with
        | some mask => mask.apply payload
        | none => payload }

def lengthField (masked : Bool) (length : Nat) : Bytes :=
  let bit := if masked then 128 else 0
  if length ≤ 125 then [UInt8.ofNat (bit + length)]
  else if length < 0x10000 then UInt8.ofNat (bit + 126) :: Bytes.ofNat 2 length
  else UInt8.ofNat (bit + 127) :: Bytes.ofNat 8 length

def pack (f : Frame) : Bytes :=
  UInt8.ofNat ((if f.fin then 128 else 0) + f.opcode.code) ::
    lengthField f.mask.isSome f.payload.length ++
    match f.mask with
    | some mask => mask.bytes ++ mask.apply f.payload
    | none => f.payload

end Frame

end Prefork.WebSocket
