import Prefork.Bytes
import Prefork.Time.Calendar

namespace Prefork

/-- What a connection's protocol makes of an event: its next state, bytes for the peer, and
whether the connection goes on. -/
structure Reply (σ : Type) where
  state : σ
  output : Bytes := []
  stays : Bool := true
  deriving DecidableEq, Repr

/-- The protocol spoken on a connection, as a machine over states `σ`. -/
structure Protocol (σ : Type) where
  opened : Time.Millis → σ → Reply σ := fun _ s ↦ { state := s }
  received : Bytes → σ → Reply σ
  /-- The peer's socket took all output so far. -/
  drained : σ → Reply σ := fun s ↦ { state := s }
  closed : σ → σ := id
  /-- How many received bytes the state still holds. -/
  buffered : σ → Nat := fun _ ↦ 0

end Prefork
