import Prefork.Bytes

namespace Prefork

/-- The outcome of reading one value off the front of a byte stream: at least `missing` more bytes
are needed, no continuation can be valid, or a value was read and `rest` follows it. -/
inductive Reading (ε α : Type) where
  | incomplete (missing : Nat)
  | invalid (error : ε)
  | complete (value : α) (rest : Bytes)
  deriving DecidableEq, Repr

namespace Reading

variable {ε α β : Type}

def map (f : α → β) : Reading ε α → Reading ε β
  | incomplete missing => incomplete missing
  | invalid e => invalid e
  | complete a rest => complete (f a) rest

def andThen (r : Reading ε α) (next : α → Bytes → Reading ε β) : Reading ε β :=
  match r with
  | incomplete missing => incomplete missing
  | invalid e => invalid e
  | complete a rest => next a rest

def take (n : Nat) (b : Bytes) : Reading ε Bytes :=
  let front := b.take n
  if front.length < n then incomplete (n - front.length) else complete front (b.drop n)

def ofExcept (b : Bytes) : Except ε α → Reading ε α
  | .error e => invalid e
  | .ok a => complete a b

end Reading

end Prefork
