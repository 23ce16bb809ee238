import Prefork.Coordination.Lock
import Prefork.Coordination.Queue
import Prefork.Coordination.Store
import Prefork.Supervision.Backoff
import Prefork.Supervision.Heartbeat

namespace Prefork.Supervision

open Coordination (Lock Store Queue)
open Time (Clock Nanos)

/-- Which calls on the shared objects fail, without effect. -/
structure Faults where
  lock : Bool := false
  release : Bool := false
  store : Bool := false
  queue : Bool := false
  deriving DecidableEq, Repr

/-- The objects that the workers of one server share. -/
structure Commons where
  lock : Lock
  store : Store
  queue : Queue
  faults : Faults := {}

namespace Commons

def serialKey : String := "serial"

def inProcess : Commons := { lock := .flag false, store := .emptyMap, queue := .unbounded #[] }

def setSerial (c : Commons) (n : Int64) : Commons :=
  { c with store := (c.store.set serialKey n).2 }

def serial? (c : Commons) : Option Int64 := c.store.lookup serialKey

def heartbeats (c : Commons) : List Heartbeat :=
  c.queue.messages.toList.filterMap fun b ↦ (Heartbeat.decode b).toOption

end Commons

/-- One worker's side of the shared objects: whether it holds the lock, when its next heartbeat is
due, and when it may try the lock again after an error. -/
structure Worker where
  id : UInt32
  interval : Nanos
  held : Bool := false
  nextBeat : Nanos
  retryAt : Option Nanos := none
  lockBackoff : Backoff := {}
  beatBackoff : Backoff := {}
  deriving DecidableEq, Repr

/-- Works out the time some span after a reading of the clock, the shared objects being as given. -/
abbrev Later (m : Type → Type) := Commons → Nanos → Nanos → m Nanos

def Later.endless : Later Id := fun _ now span ↦ now + span

namespace Worker

variable {m : Type → Type} [Monad m]

def starting (id : UInt32) (interval now : Nanos) : Worker := { id, interval, nextBeat := now }

def mayTry (w : Worker) (now : Nanos) : Bool :=
  match w.retryAt with
  | some t => t ≤ now
  | none => true

def isDue (w : Worker) (now : Nanos) : Bool := w.nextBeat ≤ now

/-- Tries to get the lock, unless an error was too short ago. An error sets the next time, any
other outcome forgets the errors. The clock stands still during a call of the hooks: the time that
is compared is also the one from which the next is worked out. -/
def tryEnterBy (later : Later m) (now : Nanos) (w : Worker) (c : Commons) :
    m (Bool × Worker × Commons) :=
  if !w.mayTry now then pure (false, w, c)
  else
    let outcome : Lock.Outcome Bool :=
      if c.faults.lock then ⟨.error .poisoned, c.lock, w.held⟩ else c.lock.tryAcquire w.held none
    let c := { c with lock := outcome.lock }
    match outcome.result with
    | .ok won => pure (won, { w with held := outcome.held, retryAt := none, lockBackoff := {} }, c)
    | .error _ => do
      let retryAt ← later c now w.lockBackoff.delay
      return (false, { w with
        held := outcome.held
        retryAt := some retryAt
        lockBackoff := w.lockBackoff.fail }, c)

def tryEnter (now : Nanos) (w : Worker) (c : Commons) : Bool × Worker × Commons :=
  w.tryEnterBy .endless now c

def leave (w : Worker) (c : Commons) : Worker × Commons :=
  if c.faults.release then (w, c)
  else
    let outcome := c.lock.release w.held none
    ({ w with held := outcome.held }, { c with lock := outcome.lock })

/-- Takes the next connection number. It is 0 if there is none to be had. -/
def nextId (c : Commons) : UInt64 × Commons :=
  if c.faults.store then (0, c)
  else match c.store.increment Commons.serialKey 1 with
    | (.ok next, store) =>
      let id := (next - 1).toInt
      (if id < 0 then 0 else UInt64.ofNat id.toNat, { c with store })
    | (.error _, store) => (0, { c with store })

/-- Sends a heartbeat. A failure puts the next one off. -/
def reportBy (later : Later m) (now : Nanos) (h : Heartbeat) (w : Worker) (c : Commons) :
    m (Bool × Worker × Commons) :=
  let (result, queue) :=
    if c.faults.queue then (.error .queueFull, c.queue) else c.queue.send h.encode
  let c := { c with queue }
  match result with
  | .ok () => pure (true, { w with beatBackoff := {} }, c)
  | .error _ => do
    let nextBeat ← later c now w.beatBackoff.delay
    return (false, { w with nextBeat, beatBackoff := w.beatBackoff.fail }, c)

def report (now : Nanos) (h : Heartbeat) (w : Worker) (c : Commons) : Bool × Worker × Commons :=
  w.reportBy .endless now h c

def reported (count : Nat) : UInt32 := UInt32.ofNat (min count (UInt32.size - 1))

def tickBy (later : Later m) (clock : Clock) (count : Nat) (w : Worker) (c : Commons) :
    m (Worker × Commons) :=
  if !w.isDue clock.instant then pure (w, c)
  else do
    match ← w.reportBy later clock.instant ⟨w.id, some clock.unix, reported count⟩ c with
    | (true, w, c) =>
      let nextBeat ← later c clock.instant w.interval
      return ({ w with nextBeat }, c)
    | (false, w, c) => return (w, c)

def tick (clock : Clock) (count : Nat) (w : Worker) (c : Commons) : Worker × Commons :=
  w.tickBy .endless clock count c

def shutdownBy (later : Later m) (clock : Clock) (count : Nat) (w : Worker) (c : Commons) :
    m (Worker × Commons) :=
  let (w, c) := if w.held then w.leave c else (w, c)
  (·.2) <$> w.reportBy later clock.instant ⟨w.id, none, reported count⟩ c

def shutdown (clock : Clock) (count : Nat) (w : Worker) (c : Commons) : Worker × Commons :=
  w.shutdownBy .endless clock count c

end Worker

end Prefork.Supervision
