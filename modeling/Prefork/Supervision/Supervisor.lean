import Prefork.Coordination.Queue
import Prefork.Supervision.Registry
import Prefork.Host.IoError

namespace Prefork.Supervision

open Coordination (Queue)
open Host (IoError)

inductive SupervisorError where
  | coordination (error : Coordination.Error)
  | fork (error : IoError)
  | runtime (error : IoError)
  | signal (error : IoError)
  deriving DecidableEq, Repr

def SupervisorError.message : SupervisorError → String
  | coordination e => s!"coordination failed: {e.message}"
  | fork e => s!"fork failed: {e.message}"
  | runtime e => s!"failed to start supervisor runtime: {e.message}"
  | signal e => s!"failed to wait for shutdown signal: {e.message}"

inductive Wait where
  | running
  | ended
  | noChild
  | failed
  deriving DecidableEq, Repr

abbrev Children := Pid → Wait

inductive Signal where
  | terminate | kill
  deriving DecidableEq, Repr

/-- What the parent does to its workers and to the objects it shares with them. -/
inductive Action where
  | forked (pid : Pid)
  | signalled (signal : Signal) (pid : Pid)
  | reaped (pid : Pid)
  | destroyedLock
  | destroyedStore
  | destroyedQueue
  deriving DecidableEq, Repr

/-- The parent's side: the heartbeats to read and the workers they come from. -/
structure Supervisor where
  queue : Queue
  registry : Registry

namespace Supervisor

def hear (s : Supervisor) (message : Bytes) (now : Nat) : Supervisor :=
  match Heartbeat.decode message with
  | .ok h => { s with registry := s.registry.record h now }
  | .error _ => s

/-- Applies the queued heartbeats in order and counts the messages, malformed ones included.
Receiving fails after `limit` messages. -/
def drainUpTo (now : Nat) (s : Supervisor) : Nat → Nat × Supervisor
  | 0 => (0, s)
  | limit + 1 => match s.queue.receive with
    | (.ok (some message), queue) =>
      let (count, s) := drainUpTo now ({ s with queue }.hear message now) limit
      (count + 1, s)
    | (_, queue) => (0, { s with queue })

def drain (now : Nat) (s : Supervisor) : Nat × Supervisor :=
  drainUpTo now s (s.queue.messages.size + 1)

def noteEnd (s : Supervisor) (pid : Pid) : Supervisor :=
  { s with registry := (s.registry.markExited pid).2 }

def reap (children : Children) (s : Supervisor) : Supervisor :=
  s.registry.runningPids.foldl (fun s pid ↦ match children pid with
    | .ended | .noChild => s.noteEnd pid
    | .running | .failed => s) s

/-- Waits for each worker in turn. However the wait comes out, the worker is gone. -/
def reapAll (s : Supervisor) : Supervisor := s.registry.runningPids.foldl noteEnd s

def sweep (now : Nat) (s : Supervisor) : Supervisor :=
  { s with registry := (s.registry.sweep now).2 }

def check (now : Nat) (children : Children) (s : Supervisor) : Supervisor :=
  ((s.drain now).2.reap children).sweep now

def checkUpTo (limit now : Nat) (children : Children) (s : Supervisor) : Supervisor :=
  ((s.drainUpTo now limit).2.reap children).sweep now

inductive Event where
  | tick (now : Nat) (children : Children) (limit : Option Nat)
  | shutdown (result : Except IoError Unit)

def onTick (now : Nat) (children : Children) (limit : Option Nat) (s : Supervisor) : Supervisor :=
  match limit with
  | some limit => s.checkUpTo limit now children
  | none => s.check now children

def isIdle (s : Supervisor) : Bool := !s.registry.workers.isEmpty && s.registry.allExited

/-- Checks at every tick until a shutdown or until all workers have ended. The result is `none`
if the events end first. -/
def watch (s : Supervisor) : List Event → Option (Except SupervisorError Unit) × Supervisor
  | [] => (none, s)
  | .shutdown result :: _ => (some (result.mapError .signal), s)
  | .tick now children limit :: rest =>
    let s := s.onTick now children limit
    if s.isIdle then (some (.ok ()), s) else s.watch rest

structure Round where
  now : Nat
  children : Children
  limit : Option Nat := none
  expired : Bool

def drainRound (r : Round) (s : Supervisor) : Supervisor :=
  match r.limit with
  | some limit => (s.drainUpTo r.now limit).2
  | none => (s.drain r.now).2

/-- The ends that were noted between two states, by the workers' numbers. -/
def endings (s s' : Supervisor) : List Action :=
  (s.registry.runningPids.filter fun pid ↦ !s'.registry.runningPids.contains pid).map .reaped

def signalAll (signal : Signal) (s : Supervisor) : List Action :=
  s.registry.runningPids.map (.signalled signal)

def killAll (s : Supervisor) : List Action × Supervisor :=
  (s.signalAll .kill ++ s.endings s.reapAll, s.reapAll)

/-- Looks until no worker runs or the grace period is over, and kills those left. -/
def awaitEnd (s : Supervisor) : List Round → List Action × Supervisor
  | [] => s.killAll
  | r :: rest =>
    let s' := (s.drainRound r).reap r.children
    let (acts, last) :=
      if s'.registry.runningPids.isEmpty then ([], s')
      else if r.expired then s'.killAll
      else s'.awaitEnd rest
    (s.endings s' ++ acts, last)

def terminate (s : Supervisor) (rounds : List Round) : List Action × Supervisor :=
  let (acts, last) := s.awaitEnd rounds
  (s.signalAll .terminate ++ acts, last)

end Supervisor

end Prefork.Supervision
