import Std.Data.TreeMap
import Prefork.Coordination.Error
import Prefork.Text.Utf8

namespace Prefork.Coordination

open Host (Errno)

/-- A place of a table in shared memory. The first `length` bytes of `key` are the name of a counter.
A slot that is not used keeps whatever was in it. -/
structure Slot where
  key : Bytes
  length : UInt8
  used : UInt8
  value : Int64
  deriving DecidableEq, Repr

namespace Slot

def width : Nat := 56

def zero : Slot := { key := List.replicate width 0, length := 0, used := 0, value := 0 }

def isFree (s : Slot) : Bool := s.used == 0

def name (s : Slot) : Bytes := s.key.take s.length.toNat

def holds (name : Bytes) (s : Slot) : Bool := !s.isFree && s.name == name

def claim (name : Bytes) (value : Int64) : Slot where
  key := name ++ List.replicate (width - name.length) 0
  length := UInt8.ofNat name.length
  used := 1
  value := value

end Slot

/-- Named counters: a map within one process, or a table of slots in shared memory, which can be
removed. -/
inductive Store where
  | map (entries : Std.TreeMap String Int64)
  | table (slots : List Slot) (live : Bool)
  deriving Repr

namespace Store

def maxKey : Nat := Slot.width

def slotCount : Nat := 64

def emptyMap : Store := map {}

def emptyTable : Store := table (List.replicate slotCount .zero) true

def isLive : Store → Bool
  | map _ => true
  | table _ live => live

def checkKey (key : String) : Except Error Unit :=
  if maxKey < key.utf8ByteSize then .error (.keyTooLong key.utf8ByteSize maxKey) else .ok ()

def lookup (s : Store) (key : String) : Option Int64 :=
  match s with
  | map entries => entries[key]?
  | table slots _ => (slots.find? (Slot.holds (Utf8.encode key))).map (·.value)

def bind (s : Store) (key : String) (value : Int64) : Except Error Store :=
  match s with
  | map entries => .ok (map (entries.insert key value))
  | table slots live =>
    match slots.findIdx? (Slot.holds (Utf8.encode key)) with
    | some i => .ok (table (slots.modify i fun slot ↦ { slot with value }) live)
    | none =>
      match slots.findIdx? Slot.isFree with
      | some i => .ok (table (slots.set i (.claim (Utf8.encode key) value)) live)
      | none => .error (.storeFull key)

def unbind (s : Store) (key : String) : Store :=
  match s with
  | map entries => map (entries.erase key)
  | table slots live =>
    match slots.findIdx? (Slot.holds (Utf8.encode key)) with
    | some i => table (slots.modify i fun slot ↦ { slot with used := 0 }) live
    | none => table slots live

def access (s : Store) (key : String) : Except Error Unit := do
  checkKey key
  if !s.isLive then throw (.os "semop" Errno.invalid)

def run {α : Type} (s : Store) (key : String) (f : Except Error (α × Store)) :
    Except Error α × Store :=
  match s.access key, f with
  | .error e, _ => (.error e, s)
  | .ok _, .error e => (.error e, s)
  | .ok _, .ok (a, s) => (.ok a, s)

def get (s : Store) (key : String) : Except Error (Option Int64) × Store :=
  s.run key (.ok (s.lookup key, s))

def set (s : Store) (key : String) (value : Int64) : Except Error Unit × Store :=
  s.run key ((s.bind key value).map fun s ↦ ((), s))

def delete (s : Store) (key : String) : Except Error Bool × Store :=
  s.run key (.ok ((s.lookup key).isSome, s.unbind key))

def increment (s : Store) (key : String) (amount : Int64) : Except Error Int64 × Store :=
  let value := (s.lookup key).getD 0 + amount
  s.run key ((s.bind key value).map fun s ↦ (value, s))

def destroy : Store → Except Error Unit × Store
  | map _ => (.ok (), map {})
  | table slots true => (.ok (), table slots false)
  | table slots false => (.error (.os "semctl(IPC_RMID)" Errno.invalid), table slots false)

end Store

end Prefork.Coordination
