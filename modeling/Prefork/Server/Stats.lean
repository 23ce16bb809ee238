namespace Prefork.Server

structure Stats where
  accepted : UInt64 := 0
  active : UInt64 := 0
  overflowed : UInt64 := 0
  bytesRead : UInt64 := 0
  bytesWritten : UInt64 := 0
  deriving DecidableEq, Repr

namespace Stats

def opened (s : Stats) : Stats := { s with accepted := s.accepted + 1, active := s.active + 1 }
def closed (s : Stats) : Stats := { s with active := s.active - 1 }
def overflow (s : Stats) : Stats := { s with overflowed := s.overflowed + 1 }
def read (s : Stats) (n : Nat) : Stats := { s with bytesRead := s.bytesRead + UInt64.ofNat n }
def wrote (s : Stats) (n : Nat) : Stats :=
  { s with bytesWritten := s.bytesWritten + UInt64.ofNat n }

def plus (s t : Stats) : Stats :=
  { accepted := s.accepted + t.accepted
    active := s.active + t.active
    overflowed := s.overflowed + t.overflowed
    bytesRead := s.bytesRead + t.bytesRead
    bytesWritten := s.bytesWritten + t.bytesWritten }

end Stats

end Prefork.Server
