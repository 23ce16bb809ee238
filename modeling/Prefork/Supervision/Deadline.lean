import Prefork.Supervision.Lifecycle

namespace Prefork.Supervision

open Coordination (Queue)
open Time (Clock Nanos)

/-- A process that needs a time its clock cannot show panics. An `error` is what it has done until
then. -/
def Later.checked : Later (Except Commons) := fun c now span ↦
  match Time.later? now span with
  | some t => .ok t
  | none => .error c

namespace Worker

def checkedTryEnter (now : Nanos) (w : Worker) (c : Commons) :
    Except Commons (Bool × Worker × Commons) :=
  w.tryEnterBy .checked now c

def checkedReport (now : Nanos) (h : Heartbeat) (w : Worker) (c : Commons) :
    Except Commons (Bool × Worker × Commons) :=
  w.reportBy .checked now h c

def checkedTick (clock : Clock) (count : Nat) (w : Worker) (c : Commons) :
    Except Commons (Worker × Commons) :=
  w.tickBy .checked clock count c

def checkedShutdown (clock : Clock) (count : Nat) (w : Worker) (c : Commons) :
    Except Commons (Worker × Commons) :=
  w.shutdownBy .checked clock count c

end Worker

namespace Supervisor

structure Look where
  instant : Nanos
  now : Nat
  children : Children
  limit : Option Nat := none

def Look.round (deadline : Nanos) (look : Look) : Round where
  now := look.now
  children := look.children
  limit := look.limit
  expired := deadline ≤ look.instant

/-- The end of a supervisor: when it begins, and the looks at the workers from then on. -/
structure Ending where
  start : Nanos
  looks : List Look

/-- As `terminate`, with a grace period. The workers are told to end before its deadline is worked
out. -/
def checkedTerminate (s : Supervisor) (grace : Nanos) (e : Ending) :
    Except (List Action) (List Action × Supervisor) :=
  match Time.later? e.start grace with
  | none => .error (s.signalAll .terminate)
  | some deadline => .ok (s.terminate (e.looks.map (Look.round deadline)))

end Supervisor

namespace Course

open Supervisor (Ending)

def checkedFinish (grace : Nanos) (e : Ending) (past : List Action) (s : Supervisor) :
    Except (List Action) (List Action × Supervisor) :=
  (s.checkedTerminate grace e).mapError (past ++ ·)

/-- As `run`, with an ending by the clock in place of the course's rounds. The grace period is as
long as the silence that makes a worker count as dead. -/
def checkedRun (c : Course) (timeout : Nanos) (queue : Queue) (e : Ending) :
    Except (List Action) (Except SupervisorError Unit × List Action) :=
  c.runBy (checkedFinish timeout e) timeout queue

end Course

end Prefork.Supervision
