import Prefork.Supervision.Supervisor
import Prefork.Supervision.Worker

namespace Prefork.Supervision

open Host (IoError)

/-- How the steps of a prefork server come out: storing the first serial, each fork up to the
first that fails, starting the supervisor, what it is woken by, and the looks at ending workers. -/
structure Course where
  serial : Except Coordination.Error Unit
  forks : List (Except IoError Pid)
  registeredAt : Nat
  runtime : Except IoError Unit
  events : List Supervisor.Event
  rounds : List Supervisor.Round

namespace Course

def forkAll : List (Except IoError Pid) → List Pid × Option IoError
  | [] => ([], none)
  | .error e :: _ => ([], some e)
  | .ok pid :: rest =>
    let (pids, error) := forkAll rest
    (pid :: pids, error)

def registry (timeout : Time.Nanos) (now : Nat) (pids : List Pid) : Registry :=
  pids.zipIdx.foldl (fun r (pid, i) ↦ r.register (UInt32.ofNat i) (some pid) now)
    (Registry.ofTimeout timeout)

variable {m : Type → Type} [Monad m]

/-- Watches the workers and then ends them by `finish`, which is given what has been done before. A
fork that failed goes straight to the end. Without a runtime all workers are killed. -/
def superviseBy (finish : List Action → Supervisor → m (List Action × Supervisor)) (c : Course)
    (past : List Action) (s : Supervisor) (failed : Option IoError) :
    m (Except SupervisorError Unit × List Action × Supervisor) :=
  let forked : Except SupervisorError Unit := match failed with
    | some e => .error (.fork e)
    | none => .ok ()
  match c.runtime with
  | .error e =>
    let result := match forked with
      | .error e => .error e
      | .ok () => .error (.runtime e)
    pure (result, s.killAll)
  | .ok () => do
    let (result, watched) : Except SupervisorError Unit × Supervisor := match forked with
      | .error e => (.error e, s)
      | .ok () =>
        let (result, s) := s.watch c.events
        (result.getD (.ok ()), s)
    let (acts, last) ← finish (past ++ s.endings watched) watched
    return (result, s.endings watched ++ acts, last)

/-- A whole run in the parent: its result and its actions in order. If the first serial cannot be
stored the run ends before anything else. -/
def runBy (finish : List Action → Supervisor → m (List Action × Supervisor)) (c : Course)
    (timeout : Time.Nanos) (queue : Coordination.Queue) :
    m (Except SupervisorError Unit × List Action) :=
  match c.serial with
  | .error e => pure (.error (.coordination e), [])
  | .ok () => do
    let (pids, failed) := forkAll c.forks
    let forked := pids.map .forked
    let (result, acts, _) ←
      c.superviseBy finish forked ⟨queue, registry timeout c.registeredAt pids⟩ failed
    return (result, forked ++ acts ++ [.destroyedLock, .destroyedStore, .destroyedQueue])

def supervise (c : Course) (s : Supervisor) (failed : Option IoError) :
    Except SupervisorError Unit × List Action × Supervisor :=
  c.superviseBy (m := Id) (fun _ s ↦ s.terminate c.rounds) [] s failed

def run (c : Course) (timeout : Time.Nanos) (queue : Coordination.Queue) :
    Except SupervisorError Unit × List Action :=
  c.runBy (m := Id) (fun _ s ↦ s.terminate c.rounds) timeout queue

end Course

end Prefork.Supervision
