namespace Prefork.Server

/-- What an event loop asks of its surroundings, as operations on a state `η`. -/
structure Hooks (η : Type) where
  /-- Asked before each poll: may this loop watch the listening socket? -/
  tryEnter : η → Bool × η
  leave : η → η
  nextId : η → UInt64 × η
  worker : η → Option UInt32
  /-- Told once per iteration how many connections are open. -/
  tick : Nat → η → η
  /-- Told once at the end, before the last connections are closed. -/
  shutdown : Nat → η → η

def Hooks.standalone : Hooks UInt64 where
  tryEnter next := (true, next)
  leave next := next
  nextId next := (next, next + 1)
  worker _ := none
  tick _ next := next
  shutdown _ next := next

def firstId : UInt64 := 1

end Prefork.Server
