namespace Prefork.Time

/-- A reading of the monotonic clock, or a time span, in nanoseconds. -/
abbrev Nanos := Nat

def ofMillis (n : Nat) : Nanos := n * 1000000

def ofSeconds (n : Nat) : Nanos := n * 1000000000

/-- A clock reading is representable if its seconds fit in a signed 64-bit word. -/
def representable (t : Nanos) : Bool := t < ofSeconds 0x8000000000000000

def later? (t span : Nanos) : Option Nanos :=
  if representable (t + span) then some (t + span) else none

/-- What a process can read off its clocks: the monotonic one, and seconds since 1970. -/
structure Clock where
  instant : Nanos
  unix : UInt64

def Clock.after (start millis : Nat) : Clock :=
  { instant := ofMillis millis, unix := UInt64.ofNat (start + millis / 1000) }

end Prefork.Time
