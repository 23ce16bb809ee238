import Prefork.Supervision.Heartbeat
import Prefork.Time.Instant

namespace Prefork.Supervision

/-- A worker's life as its supervisor sees it: forked, reporting, stopped by itself, silent for too
long, or gone. -/
inductive WorkerState where
  | starting | alive | stopped | dead | exited
  deriving DecidableEq, Repr

def WorkerState.isWatched : WorkerState → Bool
  | starting | alive => true
  | stopped | dead | exited => false

abbrev Pid := Int

structure WorkerStatus where
  pid : Option Pid
  lastHeartbeat : Option UInt64 := none
  lastSeen : Nat
  openCount : UInt32 := 0
  state : WorkerState := .starting
  deriving DecidableEq, Repr

def WorkerStatus.hear (s : WorkerStatus) (h : Heartbeat) (now : Nat) : WorkerStatus :=
  if s.state == .exited then s
  else match h.timestamp with
    | some t =>
      { s with
        lastHeartbeat := some t
        lastSeen := now
        openCount := h.openCount
        state := .alive }
    | none => { s with lastSeen := now, openCount := h.openCount, state := .stopped }

/-- The workers, by number in ascending order, and how many seconds of silence they may keep. -/
structure Registry where
  workers : List (UInt32 × WorkerStatus) := []
  timeout : Nat
  deriving DecidableEq, Repr

namespace Registry

/-- An empty registry. The timeout is cut to whole seconds and at least one. -/
def ofTimeout (timeout : Time.Nanos) : Registry := { timeout := max (timeout / Time.ofSeconds 1) 1 }

def get? (r : Registry) (worker : UInt32) : Option WorkerStatus :=
  (r.workers.find? (·.1 == worker)).map (·.2)

def modify (r : Registry) (f : UInt32 → WorkerStatus → WorkerStatus) : Registry :=
  { r with workers := r.workers.map fun (id, status) ↦ (id, f id status) }

def register (r : Registry) (worker : UInt32) (pid : Option Pid) (now : Nat) : Registry :=
  { r with workers := r.workers.filter (·.1 < worker) ++
      (worker, { pid, lastSeen := now }) :: r.workers.filter (worker < ·.1) }

/-- Applies a heartbeat. Unknown and exited workers are passed over. -/
def record (r : Registry) (h : Heartbeat) (now : Nat) : Registry :=
  r.modify fun id status ↦ if id == h.worker then status.hear h now else status

def isOverdue (r : Registry) (now : Nat) (s : WorkerStatus) : Bool :=
  s.state.isWatched && r.timeout < now - s.lastSeen

def sweep (r : Registry) (now : Nat) : List UInt32 × Registry :=
  ((r.workers.filter fun w ↦ r.isOverdue now w.2).map (·.1),
    r.modify fun _ s ↦ if r.isOverdue now s then { s with state := .dead } else s)

def ofPid? (r : Registry) (pid : Pid) : Option UInt32 :=
  (r.workers.find? fun w ↦ w.2.pid == some pid).map (·.1)

def markExited (r : Registry) (pid : Pid) : Option UInt32 × Registry :=
  let worker := r.ofPid? pid
  (worker, r.modify fun id s ↦ if some id == worker then { s with state := .exited } else s)

def runningPids (r : Registry) : List Pid :=
  r.workers.filterMap fun w ↦ if w.2.state == .exited then none else w.2.pid

def allExited (r : Registry) : Bool := r.workers.all fun w ↦ w.2.state == .exited

def openConnections (r : Registry) : Nat :=
  (r.workers.filter fun w ↦ w.2.state.isWatched).foldl (fun n w ↦ n + w.2.openCount.toNat) 0

end Registry

end Prefork.Supervision
