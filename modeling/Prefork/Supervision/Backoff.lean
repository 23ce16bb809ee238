import Prefork.Time.Instant

namespace Prefork.Supervision

/-- Consecutive failures. Each doubles the delay before the next try, up to a limit. -/
structure Backoff where
  failures : Nat := 0
  deriving DecidableEq, Repr

namespace Backoff

def base : Time.Nanos := Time.ofMillis 50

def limit : Time.Nanos := Time.ofSeconds 5

def delay (b : Backoff) : Time.Nanos := min (base <<< min b.failures 10) limit

def fail (b : Backoff) : Backoff := ⟨min (b.failures + 1) (UInt32.size - 1)⟩

end Backoff

end Prefork.Supervision
