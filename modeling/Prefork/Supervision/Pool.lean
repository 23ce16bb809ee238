import Prefork.Server.Hooks
import Prefork.Supervision.Worker

namespace Prefork.Supervision

/-- The workers of one server, what they share, and the clock they all read. -/
structure Pool where
  clock : Time.Clock
  workers : List Worker
  commons : Commons

namespace Pool

def starting (count : Nat) (interval : Time.Nanos) (clock : Time.Clock) (commons : Commons) :
    Pool :=
  let workers := (List.range count).map fun i ↦
    Worker.starting (UInt32.ofNat i) interval clock.instant
  { clock, workers, commons }

def act (p : Pool) (i : Nat) (f : Worker → Commons → Worker × Commons) : Pool :=
  match p.workers[i]? with
  | none => p
  | some w =>
    let (w, commons) := f w p.commons
    { p with workers := p.workers.set i w, commons }

/-- The hooks of an event loop that runs in the worker in place `i`. An empty place never
accepts. -/
def hooks (i : Nat) : Server.Hooks Pool where
  tryEnter p := match p.workers[i]? with
    | none => (false, p)
    | some w =>
      let (won, w, commons) := w.tryEnter p.clock.instant p.commons
      (won, { p with workers := p.workers.set i w, commons })
  leave p := p.act i Worker.leave
  nextId p :=
    let (id, commons) := Worker.nextId p.commons
    (id, { p with commons })
  worker p := (p.workers[i]?).map (·.id)
  tick count p := p.act i (Worker.tick p.clock count)
  shutdown count p := p.act i (Worker.shutdown p.clock count)

end Pool

end Prefork.Supervision
