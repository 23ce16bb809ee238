import Prefork.Server.Network

namespace Prefork.Server

/-- What stays the same while loops serve a network. -/
structure Site (σ η : Type) where
  config : Config σ
  hooks : Nat → Hooks η
  now : Time.Millis

/-- Event loops on one listening socket. They take turns on one state of their surroundings. -/
structure Cluster (σ η : Type) where
  network : Network := {}
  loops : List (Loop σ η)
  ended : List Nat := []
  state : η
  acts : List Act := []

namespace Cluster

variable {σ η : Type}

def starting (count : Nat) (network : Network) (state : η) : Cluster σ η :=
  { network, loops := List.replicate count { hooks := state }, state }

def running? (c : Cluster σ η) (i : Nat) : Option (Loop σ η) :=
  if c.ended.contains i then none else (c.loops[i]?).map ({ · with hooks := c.state })

def commit (c : Cluster σ η) (i : Nat) (r : Loop.Run σ η) : Cluster σ η :=
  { c with
    network := r.2.foldl (Network.observe i) c.network
    loops := c.loops.set i r.1
    state := r.1.hooks
    acts := c.acts ++ r.2 }

def act (c : Cluster σ η) (i : Nat) (f : Loop σ η → Loop.Run σ η) : Cluster σ η :=
  match c.running? i with
  | some l => c.commit i (f l)
  | none => c

def poll (site : Site σ η) (c : Cluster σ η) (i : Nat) : Except ServerError Nat × Cluster σ η :=
  match c.running? i with
  | none => (.ok 0, c)
  | some l =>
    let granted := ((site.hooks i).tryEnter c.state).1
    let env := c.network.surroundings i l granted site.now
    let (result, run) := l.pollOnce (site.hooks i) site.config env
    (result, { c with network := c.network.consume i env }.commit i run)

def round (site : Site σ η) (c : Cluster σ η) : Nat × Cluster σ η :=
  (List.range c.loops.length).foldl (fun (count, c) i ↦
    match c.poll site i with
    | (.ok n, c) => (count + n, c)
    | (.error _, c) => (count, c)) (0, c)

def settle (site : Site σ η) (c : Cluster σ η) : Nat → Cluster σ η
  | 0 => c
  | limit + 1 => match c.round site with
    | (0, c) => c
    | (_, c) => c.settle site limit

def finish (site : Site σ η) (c : Cluster σ η) (i : Nat) : Cluster σ η :=
  { c.act i (·.finish (site.hooks i)) with ended := i :: c.ended }

def run (site : Site σ η) (i : Nat) (c : Cluster σ η) : Nat → Except ServerError Unit × Cluster σ η
  | 0 => (.ok (), c.finish site i)
  | ticks + 1 => match c.poll site i with
    | (.error e, c) => (.error e, c.finish site i)
    | (.ok _, c) => run site i (c.act i (·.tick (site.hooks i))) ticks

def stats (c : Cluster σ η) : Stats := c.loops.foldl (fun s l ↦ s.plus l.stats) {}

def openCount (c : Cluster σ η) (i : Nat) : Option Nat := (c.running? i).map (·.openCount)

end Cluster

end Prefork.Server
