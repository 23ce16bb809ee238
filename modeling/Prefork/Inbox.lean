import Prefork.Bytes

namespace Prefork

/-- Bytes that came in pieces, the last one first. -/
structure Pieces where
  parts : List Bytes
  size : Nat
  size_eq : size = parts.flatten.length
  deriving DecidableEq, Repr

namespace Pieces

def empty : Pieces := { parts := [], size := 0, size_eq := rfl }

def ofBytes (b : Bytes) : Pieces := { parts := [b], size := b.length, size_eq := by simp }

def push (p : Pieces) (b : Bytes) : Pieces :=
  { parts := b :: p.parts, size := p.size + b.length
    size_eq := by simp [p.size_eq, Nat.add_comm] }

def bytes (p : Pieces) : Bytes := p.parts.reverse.flatten

@[simp] theorem bytes_empty : empty.bytes = [] := rfl

@[simp] theorem bytes_ofBytes (b : Bytes) : (ofBytes b).bytes = b := by simp [bytes, ofBytes]

@[simp] theorem bytes_push (p : Pieces) (b : Bytes) : (p.push b).bytes = p.bytes ++ b := by
  simp [bytes, push]

theorem length_bytes (p : Pieces) : p.bytes.length = p.size := by
  simp [p.size_eq, bytes, List.sum_reverse]

end Pieces

/-- Received bytes that were not used yet: those looked at before, and pieces that came later. It
is known that nothing can be read before `missing` more bytes are there. -/
structure Inbox where
  front : Bytes := []
  late : Pieces := Pieces.empty
  missing : Nat := 0
  deriving DecidableEq, Repr

namespace Inbox

def push (i : Inbox) (data : Bytes) : Inbox :=
  { i with late := i.late.push data, missing := i.missing - data.length }

def waits (i : Inbox) : Bool := 0 < i.missing

def bytes (i : Inbox) : Bytes :=
  if i.late.parts.isEmpty then i.front else i.front ++ i.late.bytes

def size (i : Inbox) : Nat := i.front.length + i.late.size

theorem bytes_eq (i : Inbox) : i.bytes = i.front ++ i.late.bytes := by
  rcases i with ⟨front, ⟨parts, size, h⟩, missing⟩
  cases parts <;> simp [bytes, Pieces.bytes]

@[simp] theorem bytes_push (i : Inbox) (data : Bytes) : (i.push data).bytes = i.bytes ++ data := by
  simp [bytes_eq, push]

theorem length_bytes (i : Inbox) : i.bytes.length = i.size := by
  simp [bytes_eq, size, Pieces.length_bytes]

end Inbox

end Prefork
